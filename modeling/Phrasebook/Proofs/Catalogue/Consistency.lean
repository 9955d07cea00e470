import Phrasebook.Proofs.Catalogue.Soundness

namespace Phrasebook

def SnapshotEntry.ofRow (row : SourceRow) : SnapshotEntry := ⟨row.source, row.id, row.missing⟩

def globalRows (rows : List SourceRow) : List SourceRow := rows.filter (·.scope?.isNone)

theorem mem_globalRows {rows : List SourceRow} {row : SourceRow} :
    row ∈ globalRows rows ↔ row ∈ rows ∧ row.scope? = none := by
  simp [globalRows]

namespace Snapshot

theorem ofEntries_eq_self {entries : List SnapshotEntry} (distinct : (entries.map (·.value)).Nodup) :
    ofEntries entries = entries := by
  induction entries with
  | nil => rfl
  | cons entry entries ih =>
      obtain ⟨fresh, rest⟩ := List.nodup_cons.1 distinct
      have once : entries.any (·.value == entry.value) = false := by
        rw [List.any_eq_false]
        intro other member same
        exact fresh (List.mem_map.2 ⟨other, member, by simpa using same⟩)
      simp [ofEntries, once, ih rest]

end Snapshot

namespace Table.Sound

variable {kind : SourceKind} {table : Table}

theorem globalRows_nodup (sound : table.Sound kind) :
    ((globalRows table.sources).map (·.source)).Nodup := by
  have pairs := sound.distinct.sublist ((List.filter_sublist (p := (·.scope?.isNone))).map _)
  have same : (globalRows table.sources).map (fun row => (row.scope?, row.source)) =
      ((globalRows table.sources).map (·.source)).map (none, ·) := by
    rw [List.map_map]
    apply List.map_congr_left
    intro row member
    rw [(mem_globalRows.1 member).2]
    rfl
  exact (same ▸ pairs).of_map _

theorem eq_of_id (sound : table.Sound kind) {a b : SourceRow} (first : a ∈ table.sources)
    (second : b ∈ table.sources) (same : a.id = b.id) : a = b :=
  List.inj_on_of_nodup_map (sound.ascending.imp (fun below => Int.ne_of_lt below)) first second same

theorem count_key (sound : table.Sound kind) (scope? : Option String) (source : String) :
    table.sources.countP (fun row => row.scope? = scope? ∧ row.source = source) ≤ 1 := by
  have count := List.nodup_iff_count_le_one.1 sound.distinct (scope?, source)
  rw [List.count, List.countP_map] at count
  refine Nat.le_trans (List.countP_mono_left ?_) count
  rintro row - here
  simpa [Prod.ext_iff] using here

end Table.Sound

namespace Catalogue

namespace Sound

variable {c : Catalogue} {sources : SourceKind → Table} {messages : Table}

theorem sourcesWith_eq (sound : c.Sound sources messages) (apart : c.names.Apart) (kind : SourceKind)
    {columns : List String} (present : ∀ column ∈ columns, column ∈ kind.shape.columns) :
    c.sourcesWith kind columns = .ok (sources kind).sources := by
  have needed : Database.need (sources kind) columns = .ok () := by
    have none : (sources kind).lacking? columns = none := by
      simpa [Table.lacking?, sound.laid.sourceShape] using present
    rw [Database.need, none]
  simp only [sourcesWith, sound.laid.table_source apart, bind, Except.bind, needed, pure, Except.pure]

theorem records_eq (sound : c.Sound sources messages) (apart : c.names.Apart) (kind : SourceKind) :
    c.records kind = .ok (sources kind).sources := by
  cases kind with
  | grouped => exact sound.sourcesWith_eq apart .grouped fun _ member => member
  | text =>
      have answered : c.sourcesWith .text Shape.text.columns = .ok (sources .text).sources :=
        sound.sourcesWith_eq apart .text fun _ member => member
      rw [records, answered]
      refine congrArg Except.ok ((List.map_congr_left fun row member => ?_).trans (List.map_id _))
      rw [← (sound.sound .text).unscoped rfl row member]
      rfl

theorem messages_eq (sound : c.Sound sources messages) (apart : c.names.Apart) :
    c.messages = .ok messages.messages := by
  have needed : Database.need messages ["id", "source_grouped_id", "source_text_id"] = .ok () := by
    rw [Database.need, Table.lacking?, sound.laid.messagesShape]
    rfl
  simp only [Catalogue.messages, sound.laid.table_messages apart, bind, Except.bind, needed, pure, Except.pure]

theorem count_eq (sound : c.Sound sources messages) (apart : c.names.Apart) (kind : SourceKind) :
    c.count kind = .ok (sources kind).sources.length := by
  rw [count, sound.laid.table_source apart]
  simp [Except.map, Table.size, sound.laid.sourceMessages]

theorem snapshot_eq (sound : c.Sound sources messages) (apart : c.names.Apart) (kind : SourceKind) :
    c.snapshot kind = .ok ((globalRows (sources kind).sources).map .ofRow) := by
  have columns : ∀ column ∈ ["id", "source", "missing"] ++ (if kind = .grouped then ["namespace"] else []),
      column ∈ kind.shape.columns := by
    cases kind <;> decide
  have kept : (sources kind).sources.filter (fun row => kind = .text || row.scope?.isNone) =
      globalRows (sources kind).sources := by
    apply List.filter_congr
    intro row member
    cases kind with
    | grouped => simp
    | text => simp [(sound.sound .text).unscoped rfl row member]
  simp only [snapshot, sound.sourcesWith_eq apart kind columns, bind, Except.bind, pure, Except.pure]
  rw [kept]
  refine congrArg Except.ok (Snapshot.ofEntries_eq_self ?_)
  rw [List.map_map]
  exact (sound.sound kind).globalRows_nodup

theorem find_eq (sound : c.Sound sources messages) (apart : c.names.Apart) (kind : SourceKind)
    (source : String) :
    c.find kind source = .ok ((globalRows (sources kind).sources).find? (·.source == source)) := by
  rw [find, sound.records_eq apart, Except.map, globalRows, List.find?_filter]
  refine congrArg (fun test => Except.ok ((sources kind).sources.find? test)) ?_
  funext row
  rw [Bool.eq_iff_iff]
  simp [and_comm]

end Sound

structure Consistent (c : Catalogue) (rows : SourceKind → List SourceRow) (messages : List MessageRow) :
    Prop where
  records : ∀ kind, c.records kind = .ok (rows kind)
  stored : c.messages = .ok messages
  counted : ∀ kind, c.count kind = .ok (rows kind).length
  once : ∀ kind scope? source,
    (rows kind).countP (fun row => row.scope? = scope? ∧ row.source = source) ≤ 1
  texts : ∀ row ∈ rows .text, row.scope? = none
  flagged : ∀ kind, ∀ row ∈ rows kind, row.missing = true ↔ row.missingAt ≠ none
  attached : ∀ message ∈ messages, ∃ kind, ∃ row ∈ rows kind, message.RefersTo kind row.id ∧
    (rows kind).countP (·.id == row.id) = 1
  snapshot : ∀ kind, c.snapshot kind = .ok ((globalRows (rows kind)).map .ofRow) ∧
    ((globalRows (rows kind)).map (·.source)).Nodup
  find : ∀ kind source, ∃ row?, c.find kind source = .ok row? ∧
    (∀ row ∈ row?, row ∈ globalRows (rows kind) ∧ row.source = source) ∧
    row?.map .ofRow = Snapshot.find? source ((globalRows (rows kind)).map .ofRow)

theorem Sound.consistent {c : Catalogue} {sources : SourceKind → Table} {messages : Table}
    (sound : c.Sound sources messages) (apart : c.names.Apart) :
    c.Consistent (fun kind => (sources kind).sources) messages.messages where
  records := sound.records_eq apart
  stored := sound.messages_eq apart
  counted := sound.count_eq apart
  once := fun kind => (sound.sound kind).count_key
  texts := (sound.sound .text).unscoped rfl
  flagged := by
    intro kind row member
    rw [(sound.sound kind).flagged row member, Option.isSome_iff_ne_none]
  attached := by
    intro message member
    obtain ⟨kind, row, stored, refers⟩ := sound.attached message member
    have distinct : ((sources kind).sources.map (·.id)).Nodup :=
      (sound.sound kind).ascending.imp fun below => Int.ne_of_lt below
    have count := List.count_eq_one_of_mem distinct (List.mem_map_of_mem (f := (·.id)) stored)
    rw [List.count, List.countP_map] at count
    exact ⟨kind, row, stored, refers, count⟩
  snapshot := fun kind => ⟨sound.snapshot_eq apart kind, (sound.sound kind).globalRows_nodup⟩
  find := by
    intro kind source
    refine ⟨_, sound.find_eq apart kind source, fun row found => ⟨List.mem_of_find?_eq_some found, ?_⟩, ?_⟩
    · simpa using List.find?_some found
    · rw [Snapshot.find?, List.find?_map]
      rfl

/-- Whatever operations are performed on a fresh catalogue, its answers are consistent. -/
theorem performAll_consistent {names : TableNames} (apart : names.Apart) {db : Database} {c : Catalogue}
    (opened : openWith names .empty = (db, .ok c)) (operations : List Operation) :
    ∃ rows messages, (c.performAll operations).Consistent rows messages := by
  obtain ⟨sameNames, sources, messages, sound⟩ := performAll_sound apart opened operations
  exact ⟨_, _, sound.consistent (by rwa [sameNames])⟩

theorem performAll_consistent_of_clashing_plan : TableNames.standard.Apart ∧
    ∃ db c, openWith .standard .empty = (db, .ok c) ∧
      ∃ rows messages, (c.performAll
        [.insertSource .grouped (some "app") "a" "en" ⟨10, 0⟩, .insertSource .grouped none "a" "en" ⟨10, 0⟩,
          .insertMessage .grouped 2 "de" "A",
          .apply .grouped ⟨["b"], [2, 2, 7], [2, 2, 9]⟩ .mark "en" ⟨20, 0⟩, .reopen,
          .apply .grouped ⟨["b", "b"], [2], [1]⟩ .delete "en" ⟨30, 0⟩]).Consistent rows messages := by
  obtain ⟨db, c, opened⟩ := standard_opens
  exact ⟨standard_apart, db, c, opened, performAll_consistent standard_apart opened _⟩

end Catalogue

end Phrasebook
