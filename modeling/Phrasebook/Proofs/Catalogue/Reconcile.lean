import Mathlib.Data.Finset.Card
import Phrasebook.Proofs.Catalogue.Consistency
import Phrasebook.Proofs.Catalogue.Planning

namespace Phrasebook

open Function (update)

namespace Table

variable {locale : String} {now : Instant} {last : Int} {values : List String} {row : SourceRow}

theorem newRows_sources (locale : String) (now : Instant) (last : Int) (values : List String) :
    (newRows locale now last values).map (·.source) = values := by
  induction values generalizing last with
  | nil => rfl
  | cons value values ih => rw [newRows, List.map_cons, ih]

structure New (locale : String) (now : Instant) (last : Int) (row : SourceRow) : Prop where
  later : last < row.id
  locale : row.locale = locale
  unscoped : row.scope? = none
  active : row.missing = false
  created : row.createdAt = now
  unmarked : row.missingAt = none

theorem new_of_mem_newRows (member : row ∈ newRows locale now last values) : New locale now last row := by
  induction values generalizing last with
  | nil => cases member
  | cons value values ih =>
      rw [newRows, List.mem_cons] at member
      rcases member with rfl | member
      · exact ⟨Int.lt_succ last, rfl, rfl, rfl, rfl, rfl⟩
      · have further := ih member
        exact { further with later := Int.lt_trans (Int.lt_succ last) further.later }

end Table

namespace Table

def planned (table : Table) (found : List String) : Plan :=
  Plan.make ((globalRows table.sources).map .ofRow) found

def lacked (table : Table) (found : List String) : List String :=
  (firsts [] found).filter fun value => ¬ table.Holds none value

theorem holds_none_iff {table : Table} {value : String} :
    table.Holds none value ↔ ∃ row ∈ globalRows table.sources, row.source = value := by
  simp only [Holds, mem_globalRows, and_assoc]

theorem find?_ofRow (rows : List SourceRow) (value : String) :
    Snapshot.find? value (rows.map .ofRow) = (rows.find? (·.source == value)).map .ofRow := by
  rw [Snapshot.find?, List.find?_map]
  rfl

theorem planned_inserts (table : Table) (found : List String) :
    (table.planned found).inserts = table.lacked found := by
  rw [planned, Plan.make_eq, lacked]
  apply List.filter_congr
  intro value _
  rw [find?_ofRow, Option.isNone_map, Bool.eq_iff_iff, Option.isNone_iff_eq_none, List.find?_eq_none,
    decide_eq_true_iff, holds_none_iff]
  simp

theorem lacked_fresh (table : Table) (found : List String) : table.Fresh (table.lacked found) := by
  refine ⟨(firsts_nodup [] found).filter _, fun value member => ?_⟩
  simpa using (List.mem_filter.1 member).2

theorem mem_pending {table : Table} {found : List String} {id : Int} :
    id ∈ (table.planned found).pending ↔
      ∃ row ∈ globalRows table.sources, row.id = id ∧ row.source ∉ found := by
  rw [planned, Plan.make_eq, List.mem_mergeSort, Plan.unfound]
  simp [SnapshotEntry.ofRow, and_comm, and_assoc]

namespace Sound

variable {kind : SourceKind} {table : Table}

theorem find?_eq_some (sound : table.Sound kind) {row : SourceRow} {value : String} :
    (globalRows table.sources).find? (·.source == value) = some row ↔
      row ∈ globalRows table.sources ∧ row.source = value :=
  find?_key_eq_some sound.globalRows_nodup

theorem renewal?_eq_some (sound : table.Sound kind) {value : String} {id : Int} :
    Plan.renewal? ((globalRows table.sources).map .ofRow) value = some id ↔
      ∃ row ∈ globalRows table.sources, row.source = value ∧ row.missing = true ∧ row.id = id := by
  rw [Plan.renewal?, find?_ofRow, Option.bind_map]
  constructor
  · intro renewed
    obtain ⟨row, found, chosen⟩ := Option.bind_eq_some_iff.1 renewed
    obtain ⟨member, source⟩ := sound.find?_eq_some.1 found
    obtain ⟨missing, same⟩ := Option.ite_none_right_eq_some.1 chosen
    exact ⟨row, member, source, missing, Option.some.inj same⟩
  · rintro ⟨row, member, source, missing, rfl⟩
    rw [sound.find?_eq_some.2 ⟨member, source⟩]
    simp [SnapshotEntry.ofRow, missing]

theorem mem_renew (sound : table.Sound kind) {found : List String} {id : Int} :
    id ∈ (table.planned found).renew ↔
      ∃ row ∈ globalRows table.sources, row.id = id ∧ row.missing = true ∧ row.source ∈ found := by
  simp only [planned, Plan.make_eq, List.mem_filterMap, mem_firsts, sound.renewal?_eq_some]
  constructor
  · rintro ⟨value, ⟨listed, -⟩, row, member, rfl, missing, same⟩
    exact ⟨row, member, same, missing, listed⟩
  · rintro ⟨row, member, same, missing, listed⟩
    exact ⟨row.source, ⟨listed, List.not_mem_nil⟩, row, member, rfl, missing, same⟩

theorem renew_nodup (sound : table.Sound kind) (found : List String) :
    (table.planned found).renew.Nodup := by
  rw [planned, Plan.make_eq]
  refine (firsts_nodup [] found).filterMap ?_
  intro value other id first second
  obtain ⟨row, member, rfl, -, same⟩ := sound.renewal?_eq_some.1 first
  obtain ⟨row', member', rfl, -, same'⟩ := sound.renewal?_eq_some.1 second
  have one : row = row' :=
    sound.eq_of_id (mem_globalRows.1 member).1 (mem_globalRows.1 member').1 (same.trans same'.symm)
  rw [one]

theorem renew_contains (sound : table.Sound kind) (found : List String) {row : SourceRow}
    (stored : row ∈ table.sources) :
    row.id ∈ (table.planned found).renew ↔
      row.scope? = none ∧ row.missing = true ∧ row.source ∈ found := by
  rw [sound.mem_renew]
  constructor
  · rintro ⟨other, member, same, missing, listed⟩
    obtain ⟨here, scope⟩ := mem_globalRows.1 member
    rw [← sound.eq_of_id here stored same]
    exact ⟨scope, missing, listed⟩
  · rintro ⟨scope, missing, listed⟩
    exact ⟨row, mem_globalRows.2 ⟨stored, scope⟩, rfl, missing, listed⟩

theorem pending_contains (sound : table.Sound kind) (found : List String) {row : SourceRow}
    (stored : row ∈ table.sources) :
    row.id ∈ (table.planned found).pending ↔ row.scope? = none ∧ row.source ∉ found := by
  rw [mem_pending]
  constructor
  · rintro ⟨other, member, same, apart⟩
    obtain ⟨here, scope⟩ := mem_globalRows.1 member
    rw [← sound.eq_of_id here stored same]
    exact ⟨scope, apart⟩
  · rintro ⟨scope, apart⟩
    exact ⟨row, mem_globalRows.2 ⟨stored, scope⟩, rfl, apart⟩

theorem pending_le (sound : table.Sound kind) {found : List String} {id : Int}
    (member : id ∈ (table.planned found).pending) : id ≤ table.lastId := by
  obtain ⟨row, stored, rfl, -⟩ := mem_pending.1 member
  exact sound.bounded row (mem_globalRows.1 stored).1

end Sound

end Table

/-- What becomes of a row when a kind is reconciled with what was found. -/
def SourceRow.reconciled (found : List String) (policy : MissingPolicy) (now : Instant) (row : SourceRow) :
    Option SourceRow :=
  if row.scope? ≠ none then some row
  else if row.source ∈ found then some { row with missing := false, missingAt := none }
  else
    match policy with
    | .keep => some row
    | .delete => none
    | .mark => some (if row.missing then row else { row with missing := true, missingAt := some now })

theorem SourceRow.renew_active {row : SourceRow} (active : row.missing = false)
    (unmarked : row.missingAt = none) : { row with missing := false, missingAt := none } = row := by
  rw [← active, ← unmarked]

namespace Table

def reconciled (table : Table) (found : List String) (policy : MissingPolicy) (locale : String)
    (now : Instant) : Table :=
  { table with
    lastId := table.lastId + (table.lacked found).length
    sources := table.sources.filterMap (·.reconciled found policy now) ++
      newRows locale now table.lastId (table.lacked found) }

def unfound (table : Table) (found : List String) : List Int :=
  ((globalRows table.sources).filter fun row => row.source ∉ found).map (·.id)

def missed (policy : MissingPolicy) (found : List String) (rows : List SourceRow) : Nat :=
  match policy with
  | .keep => 0
  | .delete => rows.countP fun row => row.source ∉ found
  | .mark => rows.countP fun row => row.source ∉ found ∧ row.missing = false

def counted (table : Table) (found : List String) (policy : MissingPolicy) : Outcome :=
  ⟨(table.lacked found).length,
    (globalRows table.sources).countP fun row => row.missing = true ∧ row.source ∈ found,
    missed policy found (globalRows table.sources)⟩

namespace Sound

variable {kind : SourceKind} {table : Table} {found : List String} {locale : String} {now : Instant}

theorem renewed_planned (sound : table.Sound kind) {row : SourceRow} (stored : row ∈ table.sources) :
    row.renewed (table.planned found).renew =
      if row.scope? = none ∧ row.source ∈ found then { row with missing := false, missingAt := none }
      else row := by
  have flag := sound.flagged row stored
  simp only [SourceRow.renewed, List.contains_iff_mem, sound.renew_contains found stored]
  by_cases missing : row.missing = true
  · simp [missing]
  · -- A row that is not missing is not renewed, but it is as a renewed one would be.
    have active : row.missing = false := by simpa using missing
    rw [active] at flag
    have unmarked : row.missingAt = none := by simpa using flag.symm
    simp [active, SourceRow.renew_active active unmarked]

theorem refresh_planned (sound : table.Sound kind) :
    ((table.planned found).refresh locale now table) =
      { table with
        lastId := table.lastId + (table.lacked found).length
        sources := table.sources.map (fun row =>
            if row.scope? = none ∧ row.source ∈ found then { row with missing := false, missingAt := none }
            else row) ++
          newRows locale now table.lastId (table.lacked found) } := by
  rw [Plan.refresh, planned_inserts, addAll_eq, Table.mapSources, List.map_append]
  congr 2
  · exact List.map_congr_left fun row stored => sound.renewed_planned stored
  · refine (List.map_congr_left fun row member => ?_).trans (List.map_id _)
    have new := new_of_mem_newRows member
    rw [SourceRow.renewed]
    split
    · exact SourceRow.renew_active new.active new.unmarked
    · rfl

theorem new_not_pending (sound : table.Sound kind) {row : SourceRow}
    (member : row ∈ newRows locale now table.lastId (table.lacked found)) :
    row.id ∉ (table.planned found).pending := by
  intro listed
  have bound := sound.pending_le listed
  have later := (new_of_mem_newRows member).later
  omega

theorem enact_planned_sources (sound : table.Sound kind) (policy : MissingPolicy) (messages : Table)
    (alone : table.messages = []) :
    ((table.planned found).enact policy kind locale now (table, messages)).1 =
      table.reconciled found policy locale now := by
  rw [Plan.enact, sound.refresh_planned, reconciled]
  -- The new rows stand behind the others, and what the policy does passes them by; the others are compared row by
  -- row.
  cases policy with
  | keep =>
      simp only [Plan.settle]
      congr 2
      rw [← List.filterMap_eq_map]
      refine List.filterMap_congr fun row _ => ?_
      by_cases scope : row.scope? = none <;> by_cases listed : row.source ∈ found <;>
        simp [SourceRow.reconciled, scope, listed]
  | delete =>
      simp only [Plan.settle, Database.Table.without, List.filter_append, alone, List.filter_nil]
      congr 2
      · rw [← List.filterMap_eq_filter, List.filterMap_map]
        refine List.filterMap_congr fun row stored => ?_
        have chosen := sound.pending_contains found stored
        by_cases scope : row.scope? = none <;> by_cases listed : row.source ∈ found <;>
          simp [SourceRow.reconciled, Option.guard, chosen, scope, listed]
      · refine List.filter_eq_self.2 fun row member => ?_
        simp [sound.new_not_pending member]
  | mark =>
      simp only [Plan.settle, Table.mapSources, List.map_append, List.map_map]
      congr 2
      · rw [← List.filterMap_eq_map]
        refine List.filterMap_congr fun row stored => ?_
        have chosen := sound.pending_contains found stored
        have flag := sound.flagged row stored
        cases mark : row.missingAt <;> by_cases scope : row.scope? = none <;>
          by_cases listed : row.source ∈ found <;>
            simp [SourceRow.reconciled, SourceRow.marked, SourceRow.markedBy, chosen, flag, mark, scope, listed]
      · refine (List.map_congr_left fun row member => ?_).trans (List.map_id _)
        simp [SourceRow.marked, SourceRow.markedBy, sound.new_not_pending member]

theorem chosen_planned (sound : table.Sound kind) (alone : table.messages = []) :
    ((table.planned found).refresh locale now table).chosen (table.planned found).pending =
      table.unfound found := by
  have old : (table.sources.map (·.id)).filter (table.planned found).pending.contains =
      table.unfound found := by
    rw [List.filter_map, unfound, globalRows, List.filter_filter]
    congr 1
    refine List.filter_congr fun row stored => ?_
    rw [Function.comp_apply, Bool.eq_iff_iff, List.contains_iff_mem, sound.pending_contains found stored]
    simp [and_comm]
  have new : ((newRows locale now table.lastId (table.lacked found)).map (·.id)).filter
      (table.planned found).pending.contains = [] := by
    rw [List.filter_eq_nil_iff]
    intro id member
    obtain ⟨row, stored, rfl⟩ := List.mem_map.1 member
    simpa using sound.new_not_pending stored
  have same : (fun row : SourceRow => (if row.scope? = none ∧ row.source ∈ found then
      { row with missing := false, missingAt := none } else row).id) = (·.id) := by
    funext row
    split <;> rfl
  rw [chosen, sound.refresh_planned, ids, alone, List.map_nil, List.append_nil, List.map_append,
    List.map_map, Function.comp_def, same, List.filter_append, old, new, List.append_nil]

theorem enact_planned_messages (sound : table.Sound kind) (policy : MissingPolicy) (messages : Table)
    (alone : table.messages = []) :
    ((table.planned found).enact policy kind locale now (table, messages)).2 =
      if policy = .delete then messages.forget kind (table.unfound found) else messages := by
  rw [Plan.enact]
  cases policy with
  | keep => rfl
  | mark => rfl
  | delete =>
      rw [Plan.settle, sound.chosen_planned alone]
      rfl

theorem tally_planned (sound : table.Sound kind) (policy : MissingPolicy) (alone : table.messages = []) :
    (table.planned found).tally policy locale now table = table.counted found policy := by
  -- A new row has a greater id than any row the plan knows, so it is counted neither as renewed nor as missing.
  have renewed : (table.addAll locale now (table.planned found).inserts).sources.countP
      (fun row => (table.planned found).renew.contains row.id) =
        (globalRows table.sources).countP fun row => row.missing = true ∧ row.source ∈ found := by
    rw [planned_inserts, addAll_eq, List.countP_append, globalRows, List.countP_filter]
    have none : (newRows locale now table.lastId (table.lacked found)).countP
        (fun row => (table.planned found).renew.contains row.id) = 0 := by
      rw [List.countP_eq_zero]
      intro row member listed
      obtain ⟨other, stored, same, -⟩ := sound.mem_renew.1 (List.contains_iff_mem.1 listed)
      have bound := sound.bounded other (mem_globalRows.1 stored).1
      have later := (new_of_mem_newRows member).later
      omega
    rw [none, Nat.add_zero]
    refine List.countP_congr fun row stored => ?_
    rw [List.contains_iff_mem, sound.renew_contains found stored]
    simp [and_comm]
  have acted : Plan.acted policy (table.planned found).pending
      ((table.planned found).refresh locale now table) = missed policy found (globalRows table.sources) := by
    cases policy with
    | keep => rfl
    | delete =>
        rw [Plan.acted, sound.chosen_planned alone, unfound, List.length_map,
          ← List.countP_eq_length_filter]
        rfl
    | mark =>
        rw [Plan.acted, sound.refresh_planned, List.countP_append, List.countP_map, missed, globalRows,
          List.countP_filter]
        have none : (newRows locale now table.lastId (table.lacked found)).countP
            (SourceRow.markedBy (table.planned found).pending) = 0 := by
          rw [List.countP_eq_zero]
          intro row member listed
          simp [SourceRow.markedBy, sound.new_not_pending member] at listed
        rw [none, Nat.add_zero]
        refine List.countP_congr fun row stored => ?_
        have chosen := sound.pending_contains found stored
        have flag := sound.flagged row stored
        by_cases scope : row.scope? = .none <;> by_cases listed : row.source ∈ found <;>
          simp [SourceRow.markedBy, chosen, flag, scope, listed]
  rw [Plan.tally, planned_inserts, acted, ← planned_inserts, renewed, planned_inserts, counted]

end Sound

end Table

def Table.spared (messages table : Table) (kind : SourceKind) (found : List String)
    (policy : MissingPolicy) : Table :=
  if policy = .delete then messages.forget kind (table.unfound found) else messages

namespace Catalogue.Sound

variable {c : Catalogue} {sources : SourceKind → Table} {messages : Table}

theorem apply_planned (sound : c.Sound sources messages) (apart : c.names.Apart) (kind : SourceKind)
    (found : List String) (policy : MissingPolicy) (locale : String) (now : Instant) :
    c.apply kind ((sources kind).planned found) policy locale now =
      (c.withTables (update sources kind ((sources kind).reconciled found policy locale now))
          (messages.spared (sources kind) kind found policy),
        .ok ((sources kind).counted found policy)) := by
  have table := sound.sound kind
  have alone := sound.laid.sourceMessages kind
  have fresh : (sources kind).Fresh ((sources kind).planned found).inserts := by
    rw [Table.planned_inserts]
    exact (sources kind).lacked_fresh found
  obtain ⟨outcome, applied, counted⟩ := applyIn_of_fresh apart sound.laid sound.idle chunkSize kind
    ((sources kind).planned found) policy locale now fresh
  rwa [counted (table.renew_nodup found), table.enact_planned_sources policy messages alone,
    table.enact_planned_messages policy messages alone, table.tally_planned policy alone] at applied

theorem reconcile_eq (sound : c.Sound sources messages) (apart : c.names.Apart) (kind : SourceKind)
    (found : List String) (policy : MissingPolicy) (locale : String) (now : Instant) :
    c.reconcile kind found policy locale now =
      (c.withTables (update sources kind ((sources kind).reconciled found policy locale now))
          (messages.spared (sources kind) kind found policy),
        .ok ((sources kind).planned found, (sources kind).counted found policy)) := by
  rw [reconcile, sound.snapshot_eq apart]
  simp only [← Table.planned.eq_1, sound.apply_planned apart, Except.map]

theorem reconciled (sound : c.Sound sources messages) (kind : SourceKind) (found : List String)
    (policy : MissingPolicy) (locale : String) (now : Instant) :
    (c.withTables (update sources kind ((sources kind).reconciled found policy locale now))
        (messages.spared (sources kind) kind found policy)).Sound
      (update sources kind ((sources kind).reconciled found policy locale now))
      (messages.spared (sources kind) kind found policy) := by
  have table := sound.sound kind
  have alone := sound.laid.sourceMessages kind
  have fresh : (sources kind).Fresh ((sources kind).planned found).inserts := by
    rw [Table.planned_inserts]
    exact (sources kind).lacked_fresh found
  have enacted := sound.enact kind ((sources kind).planned found) policy locale now fresh
  rwa [table.enact_planned_sources policy messages alone,
    table.enact_planned_messages policy messages alone] at enacted

end Catalogue.Sound

end Phrasebook
