import Phrasebook.Catalogue.Plan
import Phrasebook.Catalogue.Statement
import Phrasebook.Config.TableNames

namespace Phrasebook

structure Catalogue where
  names : TableNames
  database : Database
  /-- The database before the transaction that is open, if one is. -/
  before : Option Database
  deriving DecidableEq, Repr

inductive CatalogueError
  | setting (cause : SettingError)
  | database (cause : DatabaseError)
  deriving DecidableEq, Repr

namespace Catalogue

def schema (names : TableNames) : List Statement :=
  let grouped := names.grouped
  let messages := names.messages
  [.createTable grouped .grouped,
    .createIndex (Database.namespaceIndex grouped) grouped ["namespace", "source"],
    .createIndex (Database.globalIndex grouped) grouped ["source", "namespace"],
    .createTable names.text .text,
    .createTable messages (.messages grouped names.text),
    .createIndex s!"idx_{messages}_grouped" messages ["source_grouped_id"],
    .createIndex s!"idx_{messages}_text" messages ["source_text_id"],
    .createIndex s!"idx_{messages}_locale" messages ["locale"]]

/-- Opens a database under some names. The database may have changed even if that fails. -/
def openWith (names : TableNames) (db : Database) : Database × Except CatalogueError Catalogue :=
  match names.validate with
  | .error cause => (db, .error (.setting cause))
  | .ok () =>
    match runAll db (schema names) with
    | (db, .ok _) => (db, .ok ⟨names, db, none⟩)
    | (db, .error cause) => (db, .error (.database cause))

def autocommit (catalogue : Catalogue) : Bool := catalogue.before.isNone

def begin (catalogue : Catalogue) : Catalogue := { catalogue with before := some catalogue.database }

def commit (catalogue : Catalogue) : Catalogue := { catalogue with before := none }

def rollback (catalogue : Catalogue) : Catalogue :=
  { catalogue with database := catalogue.before.getD catalogue.database, before := none }

def run (catalogue : Catalogue) (statements : List Statement) : Catalogue × Except DatabaseError Nat :=
  let (db, result) := runAll catalogue.database statements
  ({ catalogue with database := db }, result)

def chunkSize : Nat := 500

def chunks {α : Type} (size : Nat) (list : List α) : List (List α) :=
  match list with
  | [] => []
  | x :: rest => (x :: rest.take (size - 1)) :: chunks size (rest.drop (size - 1))
termination_by list.length
decreasing_by simp only [List.length_cons, List.length_drop]; omega

def missingStatements (policy : MissingPolicy) (table : String) (size : Nat) (now : Instant)
    (ids : List Int) : List Statement :=
  match policy with
  | .keep => []
  | .delete => (chunks size ids).map (.delete table)
  | .mark => (chunks size ids).map (.mark table · now)

def carryOut (size : Nat) (catalogue : Catalogue) (kind : SourceKind) (plan : Plan)
    (policy : MissingPolicy) (locale : String) (now : Instant) :
    Catalogue × Except DatabaseError Outcome :=
  let table := catalogue.names.ofKind kind
  match catalogue.run ((chunks size plan.inserts).map (.insertSources table locale · now)) with
  | (catalogue, .error e) => (catalogue, .error e)
  | (catalogue, .ok inserted) =>
    match catalogue.run ((chunks size plan.renew).map (.renew table)) with
    | (catalogue, .error e) => (catalogue, .error e)
    | (catalogue, .ok renewed) =>
      match catalogue.run (missingStatements policy table size now plan.pending) with
      | (catalogue, .error e) => (catalogue, .error e)
      | (catalogue, .ok missingActed) => (catalogue, .ok ⟨inserted, renewed, missingActed⟩)

/-- Applies a plan as a whole, or fails and changes nothing. -/
def applyIn (size : Nat) (catalogue : Catalogue) (kind : SourceKind) (plan : Plan)
    (policy : MissingPolicy) (locale : String) (now : Instant) :
    Catalogue × Except DatabaseError Outcome :=
  match carryOut size catalogue.begin kind plan policy locale now with
  | (catalogue, .ok outcome) => (catalogue.commit, .ok outcome)
  | (catalogue, .error e) => (catalogue.rollback, .error e)

def apply : Catalogue → SourceKind → Plan → MissingPolicy → String → Instant →
    Catalogue × Except DatabaseError Outcome :=
  applyIn chunkSize

def insert (catalogue : Catalogue) (table : String) (statement : Statement) :
    Catalogue × Except DatabaseError Int :=
  match catalogue.run [statement] with
  | (catalogue, .ok _) => (catalogue, (catalogue.database.table table).map (·.lastId))
  | (catalogue, .error e) => (catalogue, .error e)

def insertSource (catalogue : Catalogue) (kind : SourceKind) (scope? : Option String)
    (source locale : String) (now : Instant) : Catalogue × Except DatabaseError Int :=
  let table := catalogue.names.ofKind kind
  let owner := if kind = .grouped then scope? else none
  catalogue.insert table (.insertSource table locale owner source now)

def insertMessage (catalogue : Catalogue) (kind : SourceKind) (sourceId : Int) (locale message : String) :
    Catalogue × Except DatabaseError Int :=
  let table := catalogue.names.messages
  catalogue.insert table (.insertMessage table kind sourceId locale message)

def sourcesWith (catalogue : Catalogue) (kind : SourceKind) (columns : List String) :
    Except DatabaseError (List SourceRow) := do
  let table ← catalogue.database.table (catalogue.names.ofKind kind)
  Database.need table columns
  return table.sources

def records (catalogue : Catalogue) (kind : SourceKind) : Except DatabaseError (List SourceRow) :=
  match kind with
  | .grouped => catalogue.sourcesWith kind Shape.grouped.columns
  | .text =>
    (catalogue.sourcesWith kind Shape.text.columns).map (·.map fun row => { row with scope? := none })

def find (catalogue : Catalogue) (kind : SourceKind) (source : String) :
    Except DatabaseError (Option SourceRow) :=
  (catalogue.records kind).map (·.find? fun row => row.source == source && row.scope?.isNone)

def snapshot (catalogue : Catalogue) (kind : SourceKind) : Except DatabaseError Snapshot := do
  let rows ← catalogue.sourcesWith kind
    (["id", "source", "missing"] ++ if kind = .grouped then ["namespace"] else [])
  let kept := rows.filter fun row => kind = .text || row.scope?.isNone
  return .ofEntries (kept.map fun row => ⟨row.source, row.id, row.missing⟩)

def count (catalogue : Catalogue) (kind : SourceKind) : Except DatabaseError Nat :=
  (catalogue.database.table (catalogue.names.ofKind kind)).map (·.size)

def messages (catalogue : Catalogue) : Except DatabaseError (List MessageRow) := do
  let table ← catalogue.database.table catalogue.names.messages
  Database.need table ["id", "source_grouped_id", "source_text_id"]
  return table.messages

/-- Brings the rows of a kind up to the values that were found: takes a snapshot, plans, and applies the plan.
-/
def reconcile (catalogue : Catalogue) (kind : SourceKind) (found : List String) (policy : MissingPolicy)
    (locale : String) (now : Instant) : Catalogue × Except DatabaseError (Plan × Outcome) :=
  match catalogue.snapshot kind with
  | .error e => (catalogue, .error e)
  | .ok snapshot =>
    let plan := Plan.make snapshot found
    let (catalogue, result) := catalogue.apply kind plan policy locale now
    (catalogue, result.map (plan, ·))

end Catalogue

def MessageRow.origin (row : MessageRow) : SourceKind × Int :=
  match row.groupedId, row.textId with
  | some id, _ => (.grouped, id)
  | none, some id => (.text, id)
  | none, none => (.text, 0)

end Phrasebook
