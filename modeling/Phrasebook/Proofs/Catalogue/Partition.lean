import Mathlib.Data.List.Sort
import Phrasebook.Proofs.Catalogue.Consistency
import Phrasebook.Proofs.Catalogue.Planning

namespace Phrasebook

open scoped List

section Order

variable {α : Type} [DecidableEq α]

def InOrder (list values : List α) : Prop := values.Pairwise fun a b => list.idxOf a < list.idxOf b

theorem InOrder.nodup {list values : List α} (ordered : InOrder list values) : values.Nodup :=
  ordered.imp fun before same => Nat.ne_of_lt before (congrArg list.idxOf same)

theorem firsts_inOrder (seen values : List α) : InOrder values (firsts seen values) := by
  induction values generalizing seen with
  | nil => exact .nil
  | cons head tail ih =>
      -- An element other than the head comes one place later than in the tail.
      have later {seen : List α} (known : head ∈ seen) : InOrder (head :: tail) (firsts seen tail) := by
        refine List.Pairwise.imp_of_mem ?_ (ih seen)
        intro a b first second before
        have a_ne : head ≠ a := fun same => (mem_firsts.1 first).2 (same ▸ known)
        have b_ne : head ≠ b := fun same => (mem_firsts.1 second).2 (same ▸ known)
        rw [List.idxOf_cons_ne _ a_ne, List.idxOf_cons_ne _ b_ne]
        exact Nat.succ_lt_succ before
      unfold firsts
      split
      · rename_i known
        exact later known
      · refine List.pairwise_cons.2 ⟨fun b member => ?_, later (List.mem_cons_self ..)⟩
        have b_ne : head ≠ b := fun same => (mem_firsts.1 member).2 (same ▸ List.mem_cons_self ..)
        rw [List.idxOf_cons_self, List.idxOf_cons_ne _ b_ne]
        exact Nat.succ_pos _

end Order

namespace Snapshot

theorem ofEntries_sublist (entries : List SnapshotEntry) : (ofEntries entries).Sublist entries := by
  induction entries with
  | nil => exact .slnil
  | cons entry entries ih =>
      unfold ofEntries
      split
      · exact .cons _ ih
      · exact .cons_cons _ ih

theorem ofEntries_distinct (entries : List SnapshotEntry) : ((ofEntries entries).map (·.value)).Nodup := by
  induction entries with
  | nil => exact .nil
  | cons entry entries ih =>
      unfold ofEntries
      split
      · exact ih
      · rename_i once
        refine List.nodup_cons.2 ⟨fun again => once ?_, ih⟩
        obtain ⟨other, member, same⟩ := List.mem_map.1 again
        exact List.any_eq_true.2 ⟨other, (ofEntries_sublist entries).subset member, by simpa using same⟩

end Snapshot

namespace Plan

def kept (snapshot : Snapshot) (found : List String) : List Int :=
  (snapshot.filter fun entry => !entry.missing && entry.value ∈ found).map (·.id)

/-- A plan and the ids that are kept divide the ids of a snapshot. -/
structure Divides (plan : Plan) (snapshot : Snapshot) (found : List String) : Prop where
  inserts : ∀ value, value ∈ plan.inserts ↔ value ∈ found ∧ ∀ entry ∈ snapshot, entry.value ≠ value
  insertsInOrder : InOrder found plan.inserts
  renew : ∃ entries : List SnapshotEntry, plan.renew = entries.map (·.id) ∧
    (∀ entry, entry ∈ entries ↔ entry ∈ snapshot ∧ entry.missing = true ∧ entry.value ∈ found) ∧
    InOrder found (entries.map (·.value))
  renewNodup : plan.renew.Nodup
  pending : ∀ id, id ∈ plan.pending ↔ ∃ entry ∈ snapshot, entry.id = id ∧ entry.value ∉ found
  pendingAscending : plan.pending.Pairwise (· < ·)
  whole : (plan.renew ++ plan.pending ++ kept snapshot found).Perm (snapshot.map (·.id))

section Make

variable {snapshot : Snapshot}

def missing? (snapshot : Snapshot) (value : String) : Option SnapshotEntry :=
  (snapshot.find? value).filter (·.missing)

theorem missing?_eq_some (values : (snapshot.map (·.value)).Nodup) {value : String} {entry : SnapshotEntry} :
    missing? snapshot value = some entry ↔ entry ∈ snapshot ∧ entry.value = value ∧ entry.missing = true := by
  rw [missing?, Option.filter_eq_some_iff, Snapshot.find?, find?_key_eq_some values, and_assoc]

theorem renewal?_eq (value : String) : renewal? snapshot value = (missing? snapshot value).map (·.id) := by
  rw [renewal?, missing?]
  cases snapshot.find? value with
  | none => rfl
  | some entry => cases missing : entry.missing <;> simp [Option.filter, missing]

def renewed (snapshot : Snapshot) (found : List String) : List SnapshotEntry :=
  (firsts [] found).filterMap (missing? snapshot)

theorem make_renew (found : List String) :
    (make snapshot found).renew = (renewed snapshot found).map (·.id) := by
  rw [make_eq, renewed, List.map_filterMap]
  exact List.filterMap_congr fun value _ => renewal?_eq value

theorem mem_renewed (values : (snapshot.map (·.value)).Nodup) {found : List String} {entry : SnapshotEntry} :
    entry ∈ renewed snapshot found ↔ entry ∈ snapshot ∧ entry.missing = true ∧ entry.value ∈ found := by
  rw [renewed, List.mem_filterMap]
  constructor
  · rintro ⟨value, listed, here⟩
    obtain ⟨member, rfl, missing⟩ := (missing?_eq_some values).1 here
    exact ⟨member, missing, (mem_firsts.1 listed).1⟩
  · rintro ⟨member, missing, listed⟩
    exact ⟨entry.value, mem_firsts.2 ⟨listed, List.not_mem_nil⟩,
      (missing?_eq_some values).2 ⟨member, rfl, missing⟩⟩

theorem renewed_inOrder (values : (snapshot.map (·.value)).Nodup) (found : List String) :
    InOrder found ((renewed snapshot found).map (·.value)) := by
  rw [InOrder, List.pairwise_map, renewed, List.pairwise_filterMap]
  refine (firsts_inOrder [] found).imp fun before a first b second => ?_
  obtain ⟨-, rfl, -⟩ := (missing?_eq_some values).1 first
  obtain ⟨-, rfl, -⟩ := (missing?_eq_some values).1 second
  exact before

theorem renewed_perm (values : (snapshot.map (·.value)).Nodup) (found : List String) :
    (renewed snapshot found).Perm (snapshot.filter fun entry => entry.missing && entry.value ∈ found) := by
  refine (List.perm_ext_iff_of_nodup (renewed_inOrder values found).nodup.of_map (values.of_map.filter _)).2 ?_
  intro entry
  simp [mem_renewed values]

theorem make_pending_perm (found : List String) :
    (make snapshot found).pending.Perm ((snapshot.filter fun entry => entry.value ∉ found).map (·.id)) := by
  rw [make_eq]
  exact List.mergeSort_perm ..

theorem make_pending_ascending (ids : (snapshot.map (·.id)).Nodup) (found : List String) :
    (make snapshot found).pending.Pairwise (· < ·) := by
  have distinct : (make snapshot found).pending.Nodup :=
    (make_pending_perm found).nodup_iff.2 (ids.sublist (List.filter_sublist.map _))
  have sorted : (make snapshot found).pending.Pairwise (· ≤ ·) := by
    rw [make_eq]
    exact List.pairwise_mergeSort' _ _
  exact (sorted.and distinct).imp fun both => lt_of_le_of_ne both.1 both.2

theorem make_whole (values : (snapshot.map (·.value)).Nodup) (found : List String) :
    ((make snapshot found).renew ++ (make snapshot found).pending ++ kept snapshot found).Perm
      (snapshot.map (·.id)) := by
  let isFound (entry : SnapshotEntry) : Bool := entry.value ∈ found
  have both : (snapshot.filter fun entry => entry.missing && isFound entry) ++
      (snapshot.filter fun entry => !entry.missing && isFound entry) ~ snapshot.filter isFound := by
    rw [← List.filter_filter, ← List.filter_filter]
    exact List.filter_append_perm _ _
  have all : snapshot.filter isFound ++ (snapshot.filter fun entry => !isFound entry) ~ snapshot :=
    List.filter_append_perm _ _
  have pending : (make snapshot found).pending ~ (snapshot.filter fun entry => !isFound entry).map (·.id) := by
    simpa [isFound] using make_pending_perm found
  calc (make snapshot found).renew ++ (make snapshot found).pending ++ kept snapshot found
    _ ~ (make snapshot found).renew ++ kept snapshot found ++ (make snapshot found).pending := by
        rw [List.append_assoc, List.append_assoc]
        exact List.perm_append_comm.append_left _
    _ ~ ((snapshot.filter fun entry => entry.missing && isFound entry) ++
          (snapshot.filter fun entry => !entry.missing && isFound entry)).map (·.id) ++
        (snapshot.filter fun entry => !isFound entry).map (·.id) := by
        rw [make_renew, List.map_append]
        exact (((renewed_perm values found).map _).append_right _).append pending
    _ ~ (snapshot.filter isFound ++ snapshot.filter fun entry => !isFound entry).map (·.id) := by
        refine ((both.map _).append_right _).trans ?_
        rw [List.map_append]
    _ ~ snapshot.map (·.id) := all.map _

theorem divides_of_distinct (values : (snapshot.map (·.value)).Nodup) (ids : (snapshot.map (·.id)).Nodup)
    (found : List String) : (make snapshot found).Divides snapshot found where
  inserts := by
    intro value
    rw [make_eq, List.mem_filter, mem_firsts, Option.isNone_iff_eq_none, Snapshot.find?, List.find?_eq_none]
    simp
  insertsInOrder := by
    rw [make_eq]
    exact (firsts_inOrder [] found).sublist List.filter_sublist
  renew := ⟨renewed snapshot found, make_renew found, fun _ => mem_renewed values, renewed_inOrder values found⟩
  renewNodup := by
    have all := (make_whole values found).nodup_iff.2 ids
    exact all.of_append_left.of_append_left
  pending := by
    intro id
    rw [(make_pending_perm found).mem_iff]
    simp [and_comm, and_assoc]
  pendingAscending := make_pending_ascending ids found
  whole := make_whole values found

end Make

theorem Divides.congr {snapshot : Snapshot} {found found' : List String} {plan plan' : Plan}
    (divides : plan.Divides snapshot found) (divides' : plan'.Divides snapshot found')
    (same : ∀ value, value ∈ found' ↔ value ∈ found) :
    plan'.inserts.Perm plan.inserts ∧ plan'.renew.Perm plan.renew ∧ plan'.pending = plan.pending := by
  refine ⟨?_, ?_, ?_⟩
  · refine (List.perm_ext_iff_of_nodup divides'.insertsInOrder.nodup divides.insertsInOrder.nodup).2 fun value => ?_
    rw [divides'.inserts, divides.inserts, same]
  · obtain ⟨entries, renew, mem, -⟩ := divides.renew
    obtain ⟨entries', renew', mem', -⟩ := divides'.renew
    refine (List.perm_ext_iff_of_nodup divides'.renewNodup divides.renewNodup).2 fun id => ?_
    simp only [renew, renew', List.mem_map, mem, mem', same]
  · have perm : plan'.pending.Perm plan.pending := by
      refine (List.perm_ext_iff_of_nodup ?_ ?_).2 fun id => ?_
      · exact divides'.pendingAscending.imp Int.ne_of_lt
      · exact divides.pendingAscending.imp Int.ne_of_lt
      · rw [divides'.pending, divides.pending]
        simp only [same]
    exact perm.eq_of_pairwise (fun a b _ _ less more => absurd less (Int.not_lt.2 (Int.le_of_lt more)))
      divides'.pendingAscending divides.pendingAscending

/-- The plan for a snapshot whose ids differ divides it. Values that were found again or in another order leave the
pending ids as they are, and all others up to their order. -/
theorem make_divides (entries : List SnapshotEntry) (ids : ((Snapshot.ofEntries entries).map (·.id)).Nodup)
    (found : List String) :
    (make (.ofEntries entries) found).Divides (.ofEntries entries) found ∧
    ∀ found' : List String, (∀ value, value ∈ found' ↔ value ∈ found) →
      (make (.ofEntries entries) found').inserts.Perm (make (.ofEntries entries) found).inserts ∧
      (make (.ofEntries entries) found').renew.Perm (make (.ofEntries entries) found).renew ∧
      (make (.ofEntries entries) found').pending = (make (.ofEntries entries) found).pending := by
  have values := Snapshot.ofEntries_distinct entries
  have divides := divides_of_distinct values ids
  exact ⟨divides found, fun found' same => (divides found).congr (divides found') same⟩

def mixed : List SnapshotEntry :=
  [⟨"kept", 4, false⟩, ⟨"back", 2, true⟩, ⟨"gone", 9, false⟩, ⟨"lost", 1, true⟩]

theorem make_divides_mixed : ((Snapshot.ofEntries mixed).map (·.id)).Nodup ∧
    (make (.ofEntries mixed) ["new", "back", "kept", "new", "back"]).Divides (.ofEntries mixed)
      ["new", "back", "kept", "new", "back"] ∧
    (∀ value, value ∈ ["kept", "back", "new"] ↔ value ∈ ["new", "back", "kept", "new", "back"]) ∧
    (make (.ofEntries mixed) ["kept", "back", "new"]).pending =
      (make (.ofEntries mixed) ["new", "back", "kept", "new", "back"]).pending := by
  have ids : ((Snapshot.ofEntries mixed).map (·.id)).Nodup := by decide +kernel
  have same : ∀ value, value ∈ ["kept", "back", "new"] ↔ value ∈ ["new", "back", "kept", "new", "back"] := by
    intro value
    simp only [List.mem_cons, List.not_mem_nil, or_false]
    tauto
  obtain ⟨divides, others⟩ := make_divides mixed ids ["new", "back", "kept", "new", "back"]
  exact ⟨ids, divides, same, (others _ same).2.2⟩

end Plan

end Phrasebook
