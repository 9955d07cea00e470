import Phrasebook.Proofs.Catalogue.Identity

namespace Phrasebook

open Function (update)

def Database.runOn {α : Type} (db : Database) (act : List α → Statement) (list : List α) : Change :=
  if list.isEmpty then .ok (db, 0) else (act list).run db

def Database.runMissing (db : Database) (policy : MissingPolicy) (table : String) (now : Instant)
    (ids : List Int) : Change :=
  match policy with
  | .keep => .ok (db, 0)
  | .delete => db.runOn (.delete table) ids
  | .mark => db.runOn (.mark table · now) ids

def Database.enactWhole (db : Database) (table : String) (plan : Plan) (policy : MissingPolicy)
    (locale : String) (now : Instant) : Except DatabaseError (Database × Outcome) := do
  let (db, inserted) ← db.runOn (.insertSources table locale · now) plan.inserts
  let (db, renewed) ← db.runOn (.renew table) plan.renew
  let (db, missingActed) ← db.runMissing policy table now plan.pending
  return (db, ⟨inserted, renewed, missingActed⟩)

namespace Catalogue

/-- Applies a plan with one statement for each of its lists, or fails and changes nothing. -/
def applyWhole (c : Catalogue) (kind : SourceKind) (plan : Plan) (policy : MissingPolicy) (locale : String)
    (now : Instant) : Catalogue × Except DatabaseError Outcome :=
  match c.database.enactWhole (c.names.ofKind kind) plan policy locale now with
  | .ok (db, outcome) => ({ c with database := db }, .ok outcome)
  | .error e => (c, .error e)

theorem chunks_of_room {α : Type} {size : Nat} {list : List α} (room : list.length ≤ size) :
    chunks size list = if list.isEmpty then [] else [list] := by
  cases list with
  | nil => simp [chunks]
  | cons x rest =>
      have fits : rest.length ≤ size - 1 := by
        rw [List.length_cons] at room
        omega
      simp [chunks, List.take_of_length_le fits, List.drop_of_length_le fits]

theorem run_of_room {α : Type} (c : Catalogue) (act : List α → Statement) {size : Nat} {list : List α}
    (room : list.length ≤ size) :
    c.run ((chunks size list).map act) =
      match c.database.runOn act list with
      | .ok (db, n) => ({ c with database := db }, .ok n)
      | .error e => (c, .error e) := by
  rw [chunks_of_room room, Database.runOn]
  by_cases empty : list.isEmpty
  · simp [empty, run, runAll]
  · simp only [empty, Bool.false_eq_true, ↓reduceIte, List.map_cons, List.map_nil, run, runAll]
    cases (act list).run c.database <;> rfl

theorem runMissing_of_room (c : Catalogue) (policy : MissingPolicy) (table : String) (now : Instant) {size : Nat}
    {ids : List Int} (room : ids.length ≤ size) :
    c.run (missingStatements policy table size now ids) =
      match c.database.runMissing policy table now ids with
      | .ok (db, n) => ({ c with database := db }, .ok n)
      | .error e => (c, .error e) := by
  cases policy with
  | keep => rfl
  | delete => exact run_of_room c _ room
  | mark => exact run_of_room c _ room

theorem applyIn_of_room {c : Catalogue} (idle : c.before = none) {size : Nat} (kind : SourceKind) {plan : Plan}
    (inserts : plan.inserts.length ≤ size) (renew : plan.renew.length ≤ size)
    (pending : plan.pending.length ≤ size) (policy : MissingPolicy) (locale : String) (now : Instant) :
    c.applyIn size kind plan policy locale now = c.applyWhole kind plan policy locale now := by
  have undone (db : Database) : rollback { c.begin with database := db } = c :=
    rollback_of_begin idle rfl rfl
  have done (db : Database) : commit { c.begin with database := db } = { c with database := db } := by
    rw [commit, ← idle]
    rfl
  have stored : c.begin.database = c.database := rfl
  have named : c.begin.names = c.names := rfl
  simp only [applyIn, carryOut, applyWhole, Database.enactWhole, run_of_room _ _ inserts, stored, named, bind,
    Except.bind]
  cases c.database.runOn (.insertSources (c.names.ofKind kind) locale · now) plan.inserts with
  | error e => exact Prod.ext (undone c.database) rfl
  | ok inserted =>
      simp only [run_of_room _ _ renew]
      cases inserted.1.runOn (.renew (c.names.ofKind kind)) plan.renew with
      | error e => exact Prod.ext (undone inserted.1) rfl
      | ok renewed =>
          simp only [runMissing_of_room _ _ _ _ pending]
          cases renewed.1.runMissing policy (c.names.ofKind kind) now plan.pending with
          | error e => exact Prod.ext (undone renewed.1) rfl
          | ok missed => exact Prod.ext (done missed.1) rfl

theorem Sound.applyIn_congr {c : Catalogue} {sources : SourceKind → Table} {messages : Table}
    (sound : c.Sound sources messages) (apart : c.names.Apart) (kind : SourceKind) {plan : Plan}
    (nodup : plan.renew.Nodup) (policy : MissingPolicy) (locale : String) (now : Instant) (size size' : Nat) :
    c.applyIn size kind plan policy locale now = c.applyIn size' kind plan policy locale now := by
  by_cases fresh : (sources kind).Fresh plan.inserts
  · obtain ⟨outcome, applied, counted⟩ := applyIn_of_fresh apart sound.laid sound.idle size kind plan policy
      locale now fresh
    obtain ⟨outcome', applied', counted'⟩ := applyIn_of_fresh apart sound.laid sound.idle size' kind plan policy
      locale now fresh
    rw [applied, applied', counted nodup, counted' nodup]
  · rw [applyIn_of_stale apart sound.laid sound.idle size kind plan policy locale now fresh,
      applyIn_of_stale apart sound.laid sound.idle size' kind plan policy locale now fresh]

end Catalogue

namespace Table

variable {locale : String} {now : Instant} {table messages : Table}

theorem newRows_getElem? (last : Int) (values : List String) (place : Nat) :
    (newRows locale now last values)[place]? =
      values[place]?.map fun value => ⟨last + 1 + place, locale, none, value, false, now, none⟩ := by
  induction values generalizing last place with
  | nil => rfl
  | cons value values ih =>
      cases place with
      | zero => simp [newRows]
      | succ place =>
          rw [newRows, List.getElem?_cons_succ, List.getElem?_cons_succ, ih]
          congr 1
          funext other
          congr 1
          push_cast
          omega

theorem mem_addAll_of_getElem? {values : List String} {place : Nat} {value : String}
    (listed : values[place]? = some value) :
    ⟨table.lastId + 1 + place, locale, none, value, false, now, none⟩ ∈
      (table.addAll locale now values).sources := by
  rw [addAll_eq]
  refine List.mem_append_right _ (List.mem_of_getElem? (i := place) ?_)
  rw [newRows_getElem?, listed]
  rfl

theorem enact_keeps {plan : Plan} {policy : MissingPolicy} {row : SourceRow}
    (stored : row ∈ (table.addAll locale now plan.inserts).sources)
    (spared : policy = .delete → row.id ∉ plan.pending) (kind : SourceKind) :
    ∃ row' ∈ (plan.enact policy kind locale now (table, messages)).1.sources, row'.frame = row.frame := by
  have refreshed : row.renewed plan.renew ∈ (plan.refresh locale now table).sources := List.mem_map_of_mem stored
  have same := row.renewed_frame plan.renew
  cases policy with
  | keep => exact ⟨_, refreshed, same⟩
  | mark => exact ⟨_, List.mem_map_of_mem refreshed, (SourceRow.marked_frame ..).trans same⟩
  | delete =>
      refine ⟨_, List.mem_filter.2 ⟨refreshed, ?_⟩, same⟩
      simpa [SourceRow.renewed_id] using spared rfl

end Table

namespace Catalogue

/-- On a catalogue that operations lead to, a plan comes to the same in chunks of any size as in one statement for
each of its lists. Its inserts get the ids that follow the last one, in order. -/
theorem apply_whole {names : TableNames} (apart : names.Apart) {db : Database} {c : Catalogue}
    (opened : openWith names .empty = (db, .ok c)) (operations : List Operation) (kind : SourceKind) {plan : Plan}
    (nodup : plan.renew.Nodup) (policy : MissingPolicy) (locale : String) (now : Instant) :
    (c.performAll operations).apply kind plan policy locale now =
      (c.performAll operations).applyWhole kind plan policy locale now ∧
    (∀ size, (c.performAll operations).applyIn size kind plan policy locale now =
      (c.performAll operations).apply kind plan policy locale now) ∧
    ∀ outcome, ((c.performAll operations).apply kind plan policy locale now).2 = .ok outcome →
      outcome.inserted = plan.inserts.length ∧
      ∃ table after, (c.performAll operations).database.table (names.ofKind kind) = .ok table ∧
        ((c.performAll operations).apply kind plan policy locale now).1.records kind = .ok after ∧
        ∀ (place : Nat) (value : String), plan.inserts[place]? = some value →
          (policy = .delete → table.lastId + 1 + place ∉ plan.pending) →
          ∃ row ∈ after, row.frame = (table.lastId + 1 + place, locale, none, value, now) := by
  obtain ⟨sameNames, sources, messages, sound⟩ := performAll_sound apart opened operations
  have apart' : (c.performAll operations).names.Apart := by rwa [sameNames]
  have sizes := sound.applyIn_congr apart' kind nodup policy locale now
  refine ⟨?_, fun size => sizes size chunkSize, fun outcome done => ?_⟩
  -- With room for all lists each of them goes in one piece, and the size of the pieces does not matter.
  · let room := plan.inserts.length + plan.renew.length + plan.pending.length
    rw [apply, sizes chunkSize room]
    exact applyIn_of_room sound.idle kind (by omega) (by omega) (by omega) policy locale now
  · by_cases fresh : (sources kind).Fresh plan.inserts
    · obtain ⟨counted, applied, tallied⟩ := applyIn_of_fresh apart' sound.laid sound.idle chunkSize kind plan
        policy locale now fresh
      have stored := sound.laid.table_source apart' kind
      have answer := (sound.enact kind plan policy locale now fresh).records_eq apart' kind
      rw [Function.update_self] at answer
      rw [apply, applied] at done ⊢
      cases done
      rw [tallied nodup]
      rw [sameNames] at stored
      refine ⟨rfl, _, _, stored, answer, fun place value listed spared => ?_⟩
      exact Table.enact_keeps (Table.mem_addAll_of_getElem? listed) spared kind
    · have failed := applyIn_of_stale apart' sound.laid sound.idle chunkSize kind plan policy locale now fresh
      rw [apply, failed] at done
      cases done

def crowded : List Operation :=
  [.insertSource .text none "a" "en" ⟨10, 0⟩, .insertSource .text none "b" "en" ⟨10, 0⟩]

theorem apply_whole_crowded : TableNames.brief.Apart ∧
    openWith .brief .empty = (briefDatabase, .ok briefCatalogue) ∧ [(2 : Int), 1].Nodup ∧
    (briefCatalogue.performAll crowded).applyIn 1 .text ⟨["c", "d", "e"], [2, 1], [1, 1, 4]⟩ .delete "en" ⟨20, 0⟩ =
      (briefCatalogue.performAll crowded).applyWhole .text ⟨["c", "d", "e"], [2, 1], [1, 1, 4]⟩ .delete "en"
        ⟨20, 0⟩ ∧
    ∃ after, ((briefCatalogue.performAll crowded).apply .text ⟨["c", "d", "e"], [2, 1], [1, 1, 4]⟩ .delete "en"
        ⟨20, 0⟩).1.records .text = .ok after ∧
      ∃ row ∈ after, row.frame = (5, "en", none, "e", ⟨20, 0⟩) := by
  have nodup : [(2 : Int), 1].Nodup := by decide
  obtain ⟨whole, sizes, ids⟩ := @apply_whole _ brief_apart _ _ brief_opens crowded .text
    ⟨["c", "d", "e"], [2, 1], [1, 1, 4]⟩ nodup .delete "en" ⟨20, 0⟩
  have done : ((briefCatalogue.performAll crowded).apply .text ⟨["c", "d", "e"], [2, 1], [1, 1, 4]⟩ .delete "en"
      ⟨20, 0⟩).2 = .ok ⟨3, 2, 2⟩ := by decide +kernel
  have last : ((briefCatalogue.performAll crowded).database.table "t").map (·.lastId) = .ok 2 := by decide +kernel
  obtain ⟨-, table, after, stored, answer, rows⟩ := ids _ done
  obtain ⟨same, found, lastId⟩ := Except.map_ok last
  have one : table = same := Except.ok.inj (stored.symm.trans found)
  refine ⟨brief_apart, brief_opens, nodup, (sizes 1).trans whole, after, answer, ?_⟩
  obtain ⟨row, member, frame⟩ := rows 2 "e" rfl (by rw [one, lastId]; decide)
  exact ⟨row, member, by rw [frame, one, lastId]; rfl⟩

end Catalogue

end Phrasebook
