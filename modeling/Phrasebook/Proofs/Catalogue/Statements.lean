import Phrasebook.Proofs.Catalogue.Layout

namespace Phrasebook

open Function (update)

namespace Table

def Holds (table : Table) (scope? : Option String) (source : String) : Prop :=
  ∃ row ∈ table.sources, row.scope? = scope? ∧ row.source = source

instance (table : Table) (scope? : Option String) (source : String) :
    Decidable (table.Holds scope? source) :=
  inferInstanceAs (Decidable (∃ row ∈ table.sources, row.scope? = scope? ∧ row.source = source))

def Fresh (table : Table) (values : List String) : Prop :=
  values.Nodup ∧ ∀ value ∈ values, ¬ table.Holds none value

instance (table : Table) (values : List String) : Decidable (table.Fresh values) :=
  inferInstanceAs (Decidable (_ ∧ _))

def nextRow (table : Table) (locale : String) (scope? : Option String) (source : String) (now : Instant) :
    SourceRow :=
  ⟨table.lastId + 1, locale, scope?, source, false, now, none⟩

def add (table : Table) (locale : String) (scope? : Option String) (source : String) (now : Instant) :
    Table :=
  { table with
    lastId := table.lastId + 1
    sources := table.sources ++ [table.nextRow locale scope? source now] }

def addAll (table : Table) (locale : String) (now : Instant) : List String → Table
  | [] => table
  | value :: values => (table.add locale none value now).addAll locale now values

def newRows (locale : String) (now : Instant) (last : Int) : List String → List SourceRow
  | [] => []
  | value :: values =>
    ⟨last + 1, locale, none, value, false, now, none⟩ :: newRows locale now (last + 1) values

def mapSources (table : Table) (f : SourceRow → SourceRow) : Table :=
  { table with sources := table.sources.map f }

end Table

namespace SourceRow

def renewed (ids : List Int) (row : SourceRow) : SourceRow :=
  if ids.contains row.id then { row with missing := false, missingAt := none } else row

def markedBy (ids : List Int) (row : SourceRow) : Bool := row.missingAt.isNone && ids.contains row.id

def marked (ids : List Int) (now : Instant) (row : SourceRow) : SourceRow :=
  if row.markedBy ids then { row with missing := true, missingAt := some now } else row

end SourceRow

def MessageRow.sourceId? (row : MessageRow) : SourceKind → Option Int
  | .grouped => row.groupedId
  | .text => row.textId

def Table.forget (messages : Table) (kind : SourceKind) (gone : List Int) : Table :=
  { messages with messages := messages.messages.filter fun row => !(row.sourceId? kind).any (· ∈ gone) }

def Table.chosen (table : Table) (ids : List Int) : List Int := table.ids.filter ids.contains

namespace Table

variable {table : Table} {locale : String} {now : Instant}

theorem SameForm.trans {a b c : Table} (ab : a.SameForm b) (bc : b.SameForm c) : a.SameForm c :=
  ⟨ab.name.trans bc.name, ab.shape.trans bc.shape⟩

theorem add_sameForm (table : Table) (scope? : Option String) (source : String) :
    (table.add locale scope? source now).SameForm table := ⟨rfl, rfl⟩

theorem mapSources_sameForm (table : Table) (f : SourceRow → SourceRow) :
    (table.mapSources f).SameForm table := ⟨rfl, rfl⟩

theorem without_sameForm (table : Table) (ids : List Int) :
    (Database.Table.without table ids).SameForm table := ⟨rfl, rfl⟩

theorem addAll_eq (values : List String) :
    table.addAll locale now values =
      { table with
        lastId := table.lastId + values.length
        sources := table.sources ++ newRows locale now table.lastId values } := by
  induction values generalizing table with
  | nil => simp [addAll, newRows]
  | cons value values ih =>
      rw [addAll, ih, add, nextRow, newRows, List.append_assoc, List.singleton_append, List.length_cons]
      congr 1
      push_cast
      omega

theorem addAll_sameForm (values : List String) : (table.addAll locale now values).SameForm table := by
  rw [addAll_eq]
  exact ⟨rfl, rfl⟩

theorem addAll_messages (values : List String) :
    (table.addAll locale now values).messages = table.messages := by
  rw [addAll_eq]

theorem addAll_append (xs ys : List String) :
    table.addAll locale now (xs ++ ys) = (table.addAll locale now xs).addAll locale now ys := by
  induction xs generalizing table with
  | nil => rfl
  | cons value values ih => exact ih

theorem holds_add {scope? other : Option String} {source value : String} :
    (table.add locale scope? source now).Holds other value ↔
      table.Holds other value ∨ scope? = other ∧ source = value := by
  simp [Holds, add, nextRow, or_and_right, exists_or]

theorem fresh_cons (locale : String) (now : Instant) {value : String} {values : List String} :
    table.Fresh (value :: values) ↔
      ¬ table.Holds none value ∧ (table.add locale none value now).Fresh values := by
  simp only [Fresh, List.nodup_cons, List.mem_cons, forall_eq_or_imp, holds_add, true_and, not_or]
  constructor
  · rintro ⟨⟨apart, nodup⟩, free, others⟩
    exact ⟨free, nodup, fun other member => ⟨others other member, fun same => apart (same ▸ member)⟩⟩
  · rintro ⟨free, nodup, others⟩
    exact ⟨⟨fun member => (others value member).2 rfl, nodup⟩, free, fun other member =>
      (others other member).1⟩

theorem fresh_append (locale : String) (now : Instant) {xs ys : List String} :
    table.Fresh (xs ++ ys) ↔ table.Fresh xs ∧ (table.addAll locale now xs).Fresh ys := by
  induction xs generalizing table with
  | nil => simp [Fresh, addAll]
  | cons value values ih =>
      rw [List.cons_append, fresh_cons locale now, ih,
        fresh_cons locale now, and_assoc]
      rfl

theorem mapSources_comp (f g : SourceRow → SourceRow) :
    (table.mapSources f).mapSources g = table.mapSources (g ∘ f) := by
  simp [mapSources]

end Table

namespace Laid

variable {names : TableNames} {db : Database} {sources : SourceKind → Table} {messages : Table}

def uniqueColumns : Option String → List String
  | none => ["source"]
  | some _ => ["namespace", "source"]

theorem repeated?_eq (laid : Laid names db sources messages) (kind : SourceKind) {scope? : Option String}
    (fits : kind = .text → scope? = none) (source : String) :
    db.repeated? (sources kind) scope? source =
      if (sources kind).Holds scope? source then some (uniqueColumns scope?) else none := by
  have same : ((sources kind).sources.any fun row => row.scope? == scope? && row.source == source) =
      decide ((sources kind).Holds scope? source) := by
    rw [Bool.eq_iff_iff, decide_eq_true_iff]
    simp [Table.Holds]
  have shape := laid.sourceShape kind
  have name := laid.sourceName kind
  unfold Database.repeated?
  rw [same, shape, name]
  cases kind with
  | text => simp [SourceKind.shape, fits rfl, uniqueColumns]
  | grouped =>
      cases scope? with
      | none => simp [SourceKind.shape, TableNames.ofKind, laid.globalIndexed.1, uniqueColumns]
      | some scope => simp [SourceKind.shape, TableNames.ofKind, laid.namespaceIndexed.1, uniqueColumns]

theorem insertRow_eq (laid : Laid names db sources messages) (apart : names.Apart) (kind : SourceKind)
    {scope? : Option String} (fits : kind = .text → scope? = none) (source locale : String)
    (now : Instant) :
    db.insertRow (names.ofKind kind) locale scope? source now =
      if (sources kind).Holds scope? source then
        .error (.notUnique (names.ofKind kind) (uniqueColumns scope?))
      else .ok (db.withTables
        (update sources kind ((sources kind).add locale scope? source now)) messages) := by
  simp only [Database.insertRow, laid.table_source apart, bind, Except.bind, laid.repeated?_eq kind fits]
  by_cases held : (sources kind).Holds scope? source
  · simp only [held, ↓reduceIte, laid.sourceName]
  · simp only [held, ↓reduceIte, pure, Except.pure]
    rw [laid.change_source apart]
    rfl

theorem add (laid : Laid names db sources messages) (kind : SourceKind) (scope? : Option String)
    (source locale : String) (now : Instant) :
    Laid names (db.withTables (update sources kind ((sources kind).add locale scope? source now)) messages)
      (update sources kind ((sources kind).add locale scope? source now)) messages :=
  laid.withSource kind (Table.add_sameForm _ _ _) (laid.sourceMessages kind) (.refl _)
    laid.messagesSources

theorem insertRows_eq (laid : Laid names db sources messages) (apart : names.Apart) (kind : SourceKind)
    (locale : String) (now : Instant) (values : List String) (fresh : (sources kind).Fresh values) :
    db.insertRows (names.ofKind kind) locale now values =
      .ok (db.withTables (update sources kind ((sources kind).addAll locale now values)) messages) := by
  induction values generalizing db sources with
  | nil => simp [Database.insertRows, Table.addAll, laid.withTables_self]
  | cons value values ih =>
      obtain ⟨free, rest⟩ := (Table.fresh_cons locale now).1 fresh
      have added := laid.add kind none value locale now
      simp only [Database.insertRows, laid.insertRow_eq apart kind (fun _ => rfl), free, ↓reduceIte, bind,
        Except.bind]
      rw [ih added (by simpa using rest)]
      simp [Database.withTables, Table.addAll]

theorem insertRows_fails (laid : Laid names db sources messages) (apart : names.Apart) (kind : SourceKind)
    (locale : String) (now : Instant) (values : List String) (stale : ¬ (sources kind).Fresh values) :
    db.insertRows (names.ofKind kind) locale now values =
      .error (.notUnique (names.ofKind kind) ["source"]) := by
  induction values generalizing db sources with
  | nil => simp [Table.Fresh] at stale
  | cons value values ih =>
      rw [Table.fresh_cons locale now] at stale
      simp only [Database.insertRows, laid.insertRow_eq apart kind (fun _ => rfl)]
      by_cases held : (sources kind).Holds none value
      · simp only [held, ↓reduceIte]
        rfl
      · have added := laid.add kind none value locale now
        have failed := ih added (by simpa [held] using stale)
        simpa [held, bind, Except.bind] using failed

theorem needToFill_ok (laid : Laid names db sources messages) (kind : SourceKind) {scope? : Option String}
    (fits : kind = .text → scope? = none) (name : String) :
    Database.needToFill (sources kind) name
      (["locale"] ++ scope?.toList.map (fun _ => "namespace") ++ ["source", "missing", "created_at"]) =
      .ok () := by
  rw [Database.needToFill, Table.lacking?, laid.sourceShape]
  cases kind with
  | text => rw [fits rfl]; rfl
  | grouped => cases scope? <;> rfl

theorem insertSource_run (laid : Laid names db sources messages) (apart : names.Apart) (kind : SourceKind)
    {scope? : Option String} (fits : kind = .text → scope? = none) (source locale : String)
    (now : Instant) :
    (Statement.insertSource (names.ofKind kind) locale scope? source now).run db =
      if (sources kind).Holds scope? source then
        .error (.notUnique (names.ofKind kind) (uniqueColumns scope?))
      else .ok (db.withTables
        (update sources kind ((sources kind).add locale scope? source now)) messages, 1) := by
  simp only [Statement.run, laid.table_source apart, bind, Except.bind,
    laid.needToFill_ok kind fits, laid.insertRow_eq apart kind fits]
  split <;> rfl

theorem insertSources_run (laid : Laid names db sources messages) (apart : names.Apart)
    (kind : SourceKind) (locale : String) (values : List String) (now : Instant) :
    (Statement.insertSources (names.ofKind kind) locale values now).run db =
      (db.insertRows (names.ofKind kind) locale now values).map (·, values.length) := by
  have unowned : kind = .text → (none : Option String) = none := fun _ => rfl
  have filled := laid.needToFill_ok kind unowned (names.ofKind kind)
  simp only [Option.toList_none, List.map_nil, List.append_nil] at filled
  simp only [Statement.run, laid.table_source apart, bind, Except.bind]
  simp only [List.cons_append, List.nil_append] at filled
  rw [filled]

theorem updateRows_eq (laid : Laid names db sources messages) (apart : names.Apart) (kind : SourceKind)
    (ids : List Int) (test : SourceRow → Bool) (f : SourceRow → SourceRow) :
    db.updateRows (names.ofKind kind) ids test f =
      .ok (db.withTables (update sources kind ((sources kind).mapSources fun row =>
          if test row && ids.contains row.id then f row else row)) messages,
        (sources kind).sources.countP fun row => test row && ids.contains row.id) := by
  have needed : Database.need (sources kind) ["missing", "missing_at"] = .ok () := by
    rw [Database.need, Table.lacking?, laid.sourceShape]
    cases kind <;> rfl
  simp only [Database.updateRows, laid.table_source apart, bind, Except.bind, needed, pure, Except.pure]
  rw [laid.change_source apart]
  rfl

theorem renew_run (laid : Laid names db sources messages) (apart : names.Apart) (kind : SourceKind)
    (ids : List Int) :
    (Statement.renew (names.ofKind kind) ids).run db =
      .ok (db.withTables (update sources kind ((sources kind).mapSources (SourceRow.renewed ids))) messages,
        (sources kind).sources.countP fun row => ids.contains row.id) := by
  rw [Statement.run, laid.updateRows_eq apart]
  rfl

theorem mark_run (laid : Laid names db sources messages) (apart : names.Apart) (kind : SourceKind)
    (ids : List Int) (now : Instant) :
    (Statement.mark (names.ofKind kind) ids now).run db =
      .ok (db.withTables (update sources kind ((sources kind).mapSources (SourceRow.marked ids now)))
          messages,
        (sources kind).sources.countP (SourceRow.markedBy ids)) := by
  rw [Statement.run, laid.updateRows_eq apart]
  rfl

theorem cascade_eq (laid : Laid names db sources messages) (apart : names.Apart) (kind : SourceKind)
    {table : Table} (gone : List Int) (shape : table.shape = (sources kind).shape) :
    Database.cascade [(names.ofKind kind, gone)] (db.withTables (update sources kind table) messages).tables =
      [update sources kind table .grouped, update sources kind table .text, messages.forget kind gone] := by
  have shapes (other : SourceKind) : (update sources kind table other).shape = other.shape := by
    by_cases same : other = kind
    · subst same
      rw [Function.update_self, shape, laid.sourceShape]
    · rw [Function.update_of_ne same, laid.sourceShape]
  have lost (row : MessageRow) :
      (Database.dangling [(names.ofKind kind, gone)] names.grouped row.groupedId ||
        Database.dangling [(names.ofKind kind, gone)] names.text row.textId) =
      (row.sourceId? kind).any (· ∈ gone) := by
    have ofGrouped := apart.ofKind kind .grouped
    have ofText := apart.ofKind kind .text
    simp only [TableNames.ofKind] at ofGrouped ofText
    cases kind <;> simp [Database.dangling, TableNames.ofKind, ofGrouped, ofText, MessageRow.sourceId?]
  have groupedShape := shapes .grouped
  have textShape := shapes .text
  simp only [SourceKind.shape] at groupedShape textShape
  simp only [Database.withTables, Database.cascade, groupedShape, textShape, laid.messagesShape, lost]
  rw [Table.forget, ← laid.messagesShape]

theorem delete_run (laid : Laid names db sources messages) (apart : names.Apart) (kind : SourceKind)
    (ids : List Int) :
    (Statement.delete (names.ofKind kind) ids).run db =
      .ok (db.withTables (update sources kind (Database.Table.without (sources kind) ids))
          (messages.forget kind ((sources kind).chosen ids)),
        ((sources kind).chosen ids).length) := by
  simp only [Statement.run, Database.deleteRows, laid.table_source apart, bind, Except.bind, pure,
    Except.pure]
  rw [laid.change_source apart]
  congr 3
  exact laid.cascade_eq apart kind _ rfl

def newMessage (messages : Table) (kind : SourceKind) (sourceId : Int) (locale message : String) :
    MessageRow :=
  ⟨messages.lastId + 1, Database.reference kind .grouped sourceId,
    Database.reference kind .text sourceId, locale, message, false⟩

theorem insertMessage_run (laid : Laid names db sources messages) (apart : names.Apart)
    (kind : SourceKind) (sourceId : Int) (locale message : String) :
    (Statement.insertMessage names.messages kind sourceId locale message).run db =
      if sourceId ∈ (sources kind).sources.map (·.id) then
        .ok (db.withTables sources { messages with
          lastId := messages.lastId + 1
          messages := messages.messages ++ [newMessage messages kind sourceId locale message] }, 1)
      else .error .noParent := by
  have needed : Database.needToFill messages names.messages
      [Database.referenceColumn kind, "locale", "message", "review", "created_at"] = .ok () := by
    rw [Database.needToFill, Table.lacking?, laid.messagesShape]
    cases kind <;> rfl
  have parent : Database.parent? messages.shape kind = some (names.ofKind kind) := by
    rw [laid.messagesShape]
    cases kind <;> rfl
  simp only [Statement.run, Database.insertMessage, laid.table_messages apart, bind, Except.bind, needed,
    parent, Option.bind, laid.table?_source apart, Option.map_some, Option.any_some, Table.ids,
    laid.sourceMessages, List.map_nil, List.append_nil, pure, Except.pure]
  by_cases present : sourceId ∈ (sources kind).sources.map (·.id)
  · simp only [List.contains_iff_mem.2 present, present, Bool.not_true, Bool.false_eq_true, ↓reduceIte]
    rw [laid.change_messages apart]
    rfl
  · have absent : ((sources kind).sources.map (·.id)).contains sourceId = false := by
      simpa using present
    simp only [absent, present, Bool.not_false, ↓reduceIte]
    rfl

end Laid

end Phrasebook
