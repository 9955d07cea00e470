import Phrasebook.Proofs.Catalogue.Round

namespace Phrasebook

namespace Table

/-- `later` is what has become of `table`: it may have new rows, but none under an old id. -/
structure Succeeds (later table : Table) : Prop where
  lastId : table.lastId ≤ later.lastId
  kept : ∀ row ∈ later.sources, row.id ≤ table.lastId → ∃ old ∈ table.sources, old.frame = row.frame

theorem Succeeds.refl (table : Table) : table.Succeeds table :=
  ⟨Int.le_refl _, fun row stored _ => ⟨row, stored, rfl⟩⟩

theorem reconciled_succeeds (table : Table) (found : List String) (policy : MissingPolicy) (locale : String)
    (now : Instant) : (table.reconciled found policy locale now).Succeeds table where
  lastId := Int.le_add_of_nonneg_right (Int.natCast_nonneg _)
  kept := by
    intro row stored bound
    rcases List.mem_append.1 stored with old | new
    · obtain ⟨earlier, member, left⟩ := List.mem_filterMap.1 old
      exact ⟨earlier, member, (SourceRow.frame_of_reconciled left).symm⟩
    · have later := (new_of_mem_newRows new).later
      omega

namespace Sound

variable {kind : SourceKind} {table later : Table} {found : List String} {value : String}

theorem eq_of_source (sound : table.Sound kind) {a b : SourceRow} (first : a ∈ globalRows table.sources)
    (second : b ∈ globalRows table.sources) (same : a.source = b.source) : a = b :=
  List.inj_on_of_nodup_map sound.globalRows_nodup first second same

theorem not_pending (sound : table.Sound kind) (follows : later.Succeeds table) {row : SourceRow}
    (stored : row ∈ later.sources) (listed : row.source ∈ found) :
    row.id ∉ (table.planned found).pending := by
  intro pending
  obtain ⟨old, member, source⟩ := follows.kept row stored (sound.pending_le pending)
  simp only [SourceRow.frame, Prod.mk.injEq] at source
  rw [← source.1, sound.pending_contains found member, source.2.2.2.1] at pending
  exact pending.2 listed

theorem new_not_planned (sound : table.Sound kind) (follows : later.Succeeds table) {locale : String}
    {now : Instant} {values : List String} {row : SourceRow}
    (member : row ∈ newRows locale now later.lastId values) : row.id ∉ (table.planned found).pending := by
  intro pending
  have bound := sound.pending_le pending
  have beyond := (new_of_mem_newRows member).later
  have grown := follows.lastId
  omega

theorem mem_refresh (plan : Plan) {locale : String} {now : Instant} {row : SourceRow} :
    row ∈ (plan.refresh locale now later).sources ↔
      (∃ old ∈ later.sources, old.renewed plan.renew = row) ∨
        row ∈ newRows locale now later.lastId plan.inserts := by
  -- A new row is active, so renewing it changes nothing, whatever ids the plan has.
  have untouched : (newRows locale now later.lastId plan.inserts).map (·.renewed plan.renew) =
      newRows locale now later.lastId plan.inserts := by
    refine (List.map_congr_left fun row member => ?_).trans (List.map_id _)
    have new := new_of_mem_newRows member
    rw [SourceRow.renewed]
    split
    · exact SourceRow.renew_active new.active new.unmarked
    · rfl
  rw [Plan.refresh, addAll_eq, Table.mapSources, List.map_append, untouched, List.mem_append, List.mem_map]

theorem mem_enact (sound : table.Sound kind) (follows : later.Succeeds table) (policy : MissingPolicy)
    (locale : String) (now : Instant) (messages : Table) {row : SourceRow} (listed : row.source ∈ found) :
    row ∈ ((table.planned found).enact policy kind locale now (later, messages)).1.sources ↔
      row ∈ ((table.planned found).refresh locale now later).sources := by
  -- The ids that the plan deletes or marks are those of rows whose values were not found, and no new row has one of
  -- them.
  have spared : ∀ other ∈ ((table.planned found).refresh locale now later).sources, other.source ∈ found →
      other.id ∉ (table.planned found).pending := by
    intro other member listed
    rcases (mem_refresh _).1 member with ⟨old, stored, rfl⟩ | new
    · rw [SourceRow.renewed_id]
      refine sound.not_pending follows stored ?_
      unfold SourceRow.renewed at listed
      split at listed <;> exact listed
    · exact sound.new_not_planned follows new
  rw [Plan.enact]
  cases policy with
  | keep => rfl
  | delete =>
      rw [Plan.settle, Database.Table.without, List.mem_filter]
      refine ⟨And.left, fun member => ⟨member, ?_⟩⟩
      simpa using spared row member listed
  | mark =>
      have still : ∀ other ∈ ((table.planned found).refresh locale now later).sources, other.source ∈ found →
          other.marked (table.planned found).pending now = other := by
        intro other member listed
        simp [SourceRow.marked, SourceRow.markedBy, spared other member listed]
      rw [Plan.settle, Table.mapSources, List.mem_map]
      constructor
      · rintro ⟨other, member, rfl⟩
        have same : other.source = (other.marked (table.planned found).pending now).source := by
          unfold SourceRow.marked
          split <;> rfl
        rwa [still other member (same ▸ listed)]
      · exact fun member => ⟨row, member, still row member listed⟩

end Sound

end Table

def SourceRow.Unsettled (found : List String) (policy : MissingPolicy) (row : SourceRow) : Prop :=
  row.source ∉ found ∧ (policy = .delete ∨ policy = .mark ∧ row.missing = false)

instance (found : List String) (policy : MissingPolicy) (row : SourceRow) :
    Decidable (row.Unsettled found policy) :=
  inferInstanceAs (Decidable (_ ∧ _))

namespace SourceRow

variable {found : List String} {policy : MissingPolicy} {now : Instant} {row left : SourceRow}

theorem Unsettled.reconciled (unsettled : row.Unsettled found policy) (scope : row.scope? = none)
    (kept : row.reconciled found policy now = some left) : left.missing = true ∧ row.missing = false := by
  obtain ⟨unlisted, rfl | ⟨rfl, active⟩⟩ := unsettled
  · simp [SourceRow.reconciled, scope, unlisted] at kept
  · simp only [SourceRow.reconciled, scope, unlisted, active, ne_eq, not_true, if_false, Option.some.injEq,
      Bool.false_eq_true] at kept
    subst kept
    exact ⟨rfl, active⟩

theorem reconciled_of_settled (now : Instant) (settled : ¬ row.Unsettled found policy) :
    ∃ left, row.reconciled found policy now = some left ∧ (left.missing = true → row.missing = true) := by
  by_cases namespaced : row.scope? ≠ none
  · exact ⟨row, reconciled_of_namespaced namespaced, fun missing => missing⟩
  have scope : row.scope? = none := not_not.1 namespaced
  by_cases listed : row.source ∈ found
  · refine ⟨{ row with missing := false, missingAt := none }, ?_, fun missing => by cases missing⟩
    simp [SourceRow.reconciled, scope, listed]
  · cases policy with
    | keep => exact ⟨row, by simp [SourceRow.reconciled, scope, listed], fun missing => missing⟩
    | delete => exact absurd ⟨listed, Or.inl rfl⟩ settled
    | mark =>
        have missing : row.missing = true := by
          by_contra active
          exact settled ⟨listed, Or.inr ⟨rfl, by simpa using active⟩⟩
        exact ⟨row, by simp [SourceRow.reconciled, scope, listed, missing], fun _ => missing⟩

end SourceRow

/-- A row of a value that is active and has no namespace. -/
structure SourceRow.Shows (row : SourceRow) (value : String) : Prop where
  unscoped : row.scope? = none
  source : row.source = value
  active : row.missing = false
  unmarked : row.missingAt = none

namespace Table.Sound

variable {kind : SourceKind} {table later : Table} {found : List String} {value : String}

/-- A plan made from `table` and enacted on what has become of it. A value that `table` had a row for gets no new
one, so it depends on the row that is left: that is active, or it was missing already when the plan was made. -/
theorem active_enacted (sound : table.Sound kind) (sound' : later.Sound kind) (follows : later.Succeeds table)
    (policy : MissingPolicy) (locale : String) (now : Instant) (messages : Table) (listed : value ∈ found) :
    (∃ row ∈ ((table.planned found).enact policy kind locale now (later, messages)).1.sources,
        row.Shows value) ↔
      ¬ table.Holds none value ∨ ∃ row ∈ globalRows later.sources, row.source = value ∧
        (row.missing = true → ∃ old ∈ globalRows table.sources, old.id = row.id ∧ old.missing = true) := by
  constructor
  · rintro ⟨row, member, shows⟩
    rw [sound.mem_enact follows policy locale now messages (shows.source ▸ listed), mem_refresh] at member
    rcases member with ⟨old, stored, rfl⟩ | new
    · refine Or.inr ⟨old, ?_, ?_, fun missing => ?_⟩
      · refine mem_globalRows.2 ⟨stored, ?_⟩
        have scope := shows.unscoped
        unfold SourceRow.renewed at scope
        split at scope <;> exact scope
      · have source := shows.source
        unfold SourceRow.renewed at source
        split at source <;> exact source
      · -- An active row that was missing has been renewed, so the plan had its id.
        by_cases renewed : old.id ∈ (table.planned found).renew
        · obtain ⟨earlier, member, same, missing, -⟩ := sound.mem_renew.1 renewed
          exact ⟨earlier, member, same, missing⟩
        · have active := shows.active
          simp [SourceRow.renewed, renewed, missing] at active
    · left
      have inserted := List.mem_map_of_mem (f := (·.source)) new
      rw [newRows_sources, shows.source, planned_inserts, lacked, List.mem_filter] at inserted
      simpa using inserted.2
  · rintro (lacks | ⟨row, member, rfl, earlier⟩)
    · have lacked : value ∈ table.lacked found := by
        simp [Table.lacked, mem_firsts, listed, lacks]
      rw [← planned_inserts, ← newRows_sources locale now later.lastId (table.planned found).inserts] at lacked
      obtain ⟨row, member, rfl⟩ := List.mem_map.1 lacked
      have new := new_of_mem_newRows member
      refine ⟨row, ?_, new.unscoped, rfl, new.active, new.unmarked⟩
      rw [sound.mem_enact follows policy locale now messages listed, mem_refresh]
      exact Or.inr member
    · obtain ⟨stored, scope⟩ := mem_globalRows.1 member
      refine ⟨{ row with missing := false, missingAt := none }, ?_, scope, rfl, rfl, rfl⟩
      refine (sound.mem_enact follows policy locale now messages ?_).2
        ((mem_refresh _).2 (Or.inl ⟨row, stored, ?_⟩))
      · exact listed
      by_cases missing : row.missing = true
      · obtain ⟨old, known, same, gone⟩ := earlier missing
        obtain ⟨here, -⟩ := mem_globalRows.1 known
        obtain ⟨old', there, frame⟩ := follows.kept row stored (same ▸ sound.bounded old here)
        simp only [SourceRow.frame, Prod.mk.injEq] at frame
        have one : old' = old := sound.eq_of_id there here (frame.1.trans same.symm)
        have renewed : row.id ∈ (table.planned found).renew := by
          refine sound.mem_renew.2 ⟨old, known, same, gone, ?_⟩
          rwa [← one, frame.2.2.2.1]
        simp [SourceRow.renewed, renewed]
      · have active : row.missing = false := by simpa using missing
        have unmarked : row.missingAt = none := by
          have flag := sound'.flagged row stored
          rw [active] at flag
          simpa using flag.symm
        rw [SourceRow.renew_active active unmarked, SourceRow.renewed]
        split
        · exact SourceRow.renew_active active unmarked
        · rfl

theorem active_planned (sound : table.Sound kind) (policy : MissingPolicy) (locale : String) (now : Instant)
    (messages : Table) (listed : value ∈ found) :
    ∃ row ∈ ((table.planned found).enact policy kind locale now (table, messages)).1.sources,
      row.Shows value := by
  rw [sound.active_enacted sound (.refl table) policy locale now messages listed]
  refine (Decidable.em (table.Holds none value)).symm.imp_right fun held => ?_
  obtain ⟨row, member, source⟩ := holds_none_iff.1 held
  exact ⟨row, member, source, fun missing => ⟨row, member, rfl, missing⟩⟩

variable {others : List String} {policy : MissingPolicy} {locale : String} {now : Instant}

theorem reconciled_origin {row : SourceRow} (stored : row ∈ (table.reconciled others policy locale now).sources) :
    row.source ∈ others ∨ ∃ old ∈ table.sources, old.reconciled others policy now = some row := by
  rcases List.mem_append.1 stored with old | new
  · exact Or.inr (List.mem_filterMap.1 old)
  · have inserted := List.mem_map_of_mem (f := (·.source)) new
    rw [newRows_sources] at inserted
    exact Or.inl (mem_firsts.1 (List.mem_filter.1 inserted).1).1

theorem reconciled_dependable (sound : table.Sound kind) {row : SourceRow}
    (member : row ∈ globalRows table.sources) :
    (∃ left ∈ globalRows (table.reconciled others policy locale now).sources, left.source = row.source ∧
        (left.missing = true → ∃ old ∈ globalRows table.sources, old.id = left.id ∧ old.missing = true)) ↔
      ¬ row.Unsettled others policy := by
  obtain ⟨stored, scope⟩ := mem_globalRows.1 member
  -- A row of the value can only come from the one that was there, since the rows without a namespace have different
  -- values.
  constructor
  · rintro ⟨left, there, source, earlier⟩ unsettled
    obtain ⟨here, leftScope⟩ := mem_globalRows.1 there
    obtain ⟨origin, known, kept⟩ := (reconciled_origin here).resolve_left (source ▸ unsettled.1)
    have frame := SourceRow.frame_of_reconciled kept
    simp only [SourceRow.frame, Prod.mk.injEq] at frame
    have one : origin = row :=
      sound.eq_of_source (mem_globalRows.2 ⟨known, frame.2.2.1 ▸ leftScope⟩) member
        (frame.2.2.2.1.symm.trans source)
    subst one
    obtain ⟨marked, active⟩ := unsettled.reconciled scope kept
    obtain ⟨other, present, same, missing⟩ := earlier marked
    rw [sound.eq_of_id (mem_globalRows.1 present).1 known (same.trans frame.1), active] at missing
    cases missing
  · intro settled
    obtain ⟨left, kept, flagged⟩ := SourceRow.reconciled_of_settled now settled
    have frame := SourceRow.frame_of_reconciled kept
    simp only [SourceRow.frame, Prod.mk.injEq] at frame
    refine ⟨left, mem_globalRows.2 ⟨?_, frame.2.2.1.trans scope⟩, frame.2.2.2.1, fun missing => ?_⟩
    · exact List.mem_append_left _ (List.mem_filterMap.2 ⟨row, stored, kept⟩)
    · exact ⟨row, member, frame.1.symm, flagged missing⟩

theorem active_of_reconciled (sound : table.Sound kind)
    (sound' : (table.reconciled others policy locale now).Sound kind) (own : MissingPolicy)
    (ownLocale : String) (later : Instant) (messages : Table) (listed : value ∈ found) :
    (∃ row ∈ ((table.planned found).enact own kind ownLocale later
        (table.reconciled others policy locale now, messages)).1.sources, row.Shows value) ↔
      ¬ ∃ row ∈ globalRows table.sources, row.source = value ∧ row.Unsettled others policy := by
  rw [sound.active_enacted sound' (table.reconciled_succeeds others policy locale now) own ownLocale later
    messages listed]
  by_cases held : table.Holds none value
  · obtain ⟨row, member, rfl⟩ := holds_none_iff.1 held
    rw [sound.reconciled_dependable member]
    simp only [held, not_true, false_or, not_iff_not]
    refine ⟨fun unsettled => ⟨row, member, rfl, unsettled⟩, ?_⟩
    rintro ⟨other, there, source, unsettled⟩
    rwa [← sound.eq_of_source there member source]
  · simp only [held, not_false_eq_true, true_or, true_iff]
    rintro ⟨row, member, source, -⟩
    exact held (holds_none_iff.2 ⟨row, member, source⟩)

end Table.Sound

end Phrasebook
