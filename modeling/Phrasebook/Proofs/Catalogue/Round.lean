import Phrasebook.Proofs.Catalogue.Reconcile

namespace Phrasebook

open Function (update)

/-- What no round changes in a row. -/
def SourceRow.frame (row : SourceRow) : Int × String × Option String × String × Instant :=
  (row.id, row.locale, row.scope?, row.source, row.createdAt)

def SourceRow.Dropped (found : List String) (policy : MissingPolicy) (row : SourceRow) : Prop :=
  policy = .delete ∧ row.scope? = none ∧ row.source ∉ found

instance (found : List String) (policy : MissingPolicy) (row : SourceRow) :
    Decidable (row.Dropped found policy) :=
  inferInstanceAs (Decidable (_ ∧ _))

namespace SourceRow

variable {found : List String} {policy : MissingPolicy} {now : Instant} {row : SourceRow}

theorem reconciled_frame (found : List String) (policy : MissingPolicy) (now : Instant) (row : SourceRow) :
    (row.reconciled found policy now).map (·.frame) =
      if row.Dropped found policy then none else some row.frame := by
  by_cases scope : row.scope? = none <;> by_cases listed : row.source ∈ found
  · simp [reconciled, Dropped, scope, listed, frame]
  · cases policy with
    | keep => simp [reconciled, Dropped, scope, listed]
    | delete => simp [reconciled, Dropped, scope, listed]
    | mark =>
        by_cases missing : row.missing = true <;> simp [reconciled, Dropped, scope, listed, missing, frame]
  · simp [reconciled, Dropped, scope]
  · simp [reconciled, Dropped, scope]

theorem frame_of_reconciled {other : SourceRow} (left : row.reconciled found policy now = some other) :
    other.frame = row.frame := by
  have same := reconciled_frame found policy now row
  rw [left] at same
  split at same
  · cases same
  · exact Option.some.inj same

theorem reconciled_of_namespaced (namespaced : row.scope? ≠ none) :
    row.reconciled found policy now = some row := by
  simp [reconciled, namespaced]

end SourceRow

namespace Table

variable {kind : SourceKind} {table : Table} {found : List String} {policy : MissingPolicy}
  {locale : String} {now : Instant}

theorem reconciled_active (sound : (table.reconciled found policy locale now).Sound kind) {value : String}
    (listed : value ∈ found) :
    ∃ row ∈ globalRows (table.reconciled found policy locale now).sources,
      row.source = value ∧ row.missing = false ∧ row.missingAt = none ∧
        ∀ other ∈ globalRows (table.reconciled found policy locale now).sources,
          other.source = value → other = row := by
  suffices present : ∃ row ∈ globalRows (table.reconciled found policy locale now).sources,
      row.source = value ∧ row.missing = false ∧ row.missingAt = none by
    obtain ⟨row, member, source, active, unmarked⟩ := present
    refine ⟨row, member, source, active, unmarked, fun other here same => ?_⟩
    exact List.inj_on_of_nodup_map sound.globalRows_nodup here member (same.trans source.symm)
  by_cases held : table.Holds none value
  · obtain ⟨row, stored, scope, rfl⟩ := held
    refine ⟨{ row with missing := false, missingAt := none }, mem_globalRows.2 ⟨?_, scope⟩, rfl, rfl, rfl⟩
    refine List.mem_append_left _ (List.mem_filterMap.2 ⟨row, stored, ?_⟩)
    simp [SourceRow.reconciled, scope, listed]
  · have lacked : value ∈ table.lacked found := by
      simp [Table.lacked, mem_firsts, listed, held]
    rw [← newRows_sources locale now table.lastId (table.lacked found)] at lacked
    obtain ⟨row, member, source⟩ := List.mem_map.1 lacked
    have new := new_of_mem_newRows member
    exact ⟨row, mem_globalRows.2 ⟨List.mem_append_right _ member, new.unscoped⟩, source, new.active,
      new.unmarked⟩

end Table

namespace Catalogue.Sound

variable {c : Catalogue} {sources : SourceKind → Table} {messages : Table}

end Catalogue.Sound

namespace Catalogue

end Catalogue

end Phrasebook
