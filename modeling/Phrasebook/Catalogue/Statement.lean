import Phrasebook.Catalogue.Database

namespace Phrasebook

/-- The words that cannot be the name of a table. -/
def reservedWords : List String :=
  ["add", "all", "alter", "and", "as", "autoincrement", "between", "case", "check", "collate", "commit",
   "constraint", "create", "default", "deferrable", "delete", "distinct", "drop", "else", "escape",
   "except", "exists", "foreign", "from", "group", "having", "in", "index", "insert", "intersect", "into",
   "is", "isnull", "join", "limit", "not", "nothing", "notnull", "null", "on", "or", "order", "primary",
   "references", "returning", "select", "set", "table", "then", "to", "transaction", "union", "unique",
   "update", "using", "values", "when", "where"]

inductive Statement
  | createTable (name : String) (shape : Shape)
  | createIndex (name table : String) (columns : List String)
  | insertSource (table locale : String) (scope? : Option String) (source : String) (now : Instant)
  | insertSources (table locale : String) (sources : List String) (now : Instant)
  | insertMessage (table : String) (kind : SourceKind) (sourceId : Int) (locale message : String)
  | renew (table : String) (ids : List Int)
  /-- Marks those of the rows as missing that are not marked yet. -/
  | mark (table : String) (ids : List Int) (now : Instant)
  | delete (table : String) (ids : List Int)
  deriving DecidableEq, Repr

abbrev Change := Except DatabaseError (Database × Nat)

namespace Database

def table (db : Database) (name : String) : Except DatabaseError Table :=
  match db.table? name with
  | some table => .ok table
  | none => .error (.noTable name)

def need (table : Table) (columns : List String) : Except DatabaseError Unit :=
  match table.lacking? columns with
  | some column => .error (.noColumn column)
  | none => .ok ()

def needToFill (table : Table) (name : String) (columns : List String) : Except DatabaseError Unit :=
  match table.lacking? columns with
  | some column => .error (.noColumnIn name column)
  | none => .ok ()

def createTable (db : Database) (name : String) (shape : Shape) : Except DatabaseError Database :=
  if reservedWords.any (sameName name) then .error (.reservedWord name)
  else if sameName (String.ofList (name.toList.take 7)) "sqlite_" then .error (.reservedName name)
  else if (db.table? name).isSome then .ok db
  else if db.hasIndex name then .error (.indexExists name)
  -- The text is kept without its `IF NOT EXISTS`, so that this name is read as the beginning of one.
  else if sameName name "if" then .error (.malformedSchema name)
  else .ok { db with tables := db.tables ++ [Table.empty name shape] }

def createIndex (db : Database) (name table : String) (columns : List String) :
    Except DatabaseError Database := do
  let indexed ← db.table table
  if (db.table? name).isSome then throw (.tableExists name)
  if db.hasIndex name then return db
  need indexed columns
  return { db with indexes := db.indexes ++ [name] }

def globalIndex (table : String) : String := s!"idx_{table}_global_source"

def namespaceIndex (table : String) : String := s!"idx_{table}_namespace_source"

/-- The columns in which a new row repeats one that is there, against a unique index. -/
def repeated? (db : Database) (table : Table) (scope? : Option String) (source : String) :
    Option (List String) :=
  let same := table.sources.any fun row => row.scope? == scope? && row.source == source
  match table.shape, scope? with
  | .text, _ => if same then some ["source"] else none
  | .grouped, none => if same && db.hasIndex (globalIndex table.name) then some ["source"] else none
  | .grouped, some _ =>
    if same && db.hasIndex (namespaceIndex table.name) then some ["namespace", "source"] else none
  | .messages .., _ => none

def insertRow (db : Database) (name locale : String) (scope? : Option String) (source : String)
    (now : Instant) : Except DatabaseError Database := do
  let table ← db.table name
  match db.repeated? table scope? source with
  | some columns => .error (.notUnique table.name columns)
  | none =>
    let row : SourceRow := ⟨table.lastId + 1, locale, scope?, source, false, now, none⟩
    return db.change name fun t => { t with lastId := row.id, sources := t.sources ++ [row] }

def insertRows (db : Database) (name locale : String) (now : Instant) :
    List String → Except DatabaseError Database
  | [] => .ok db
  | source :: sources => do
    let db ← db.insertRow name locale none source now
    db.insertRows name locale now sources

def reference (kind other : SourceKind) (id : Int) : Option Int := if kind = other then some id else none

def parent? (shape : Shape) (kind : SourceKind) : Option String :=
  match shape, kind with
  | .messages grouped _, .grouped => some grouped
  | .messages _ text, .text => some text
  | _, _ => none

def referenceColumn : SourceKind → String
  | .grouped => "source_grouped_id"
  | .text => "source_text_id"

def insertMessage (db : Database) (name : String) (kind : SourceKind) (sourceId : Int)
    (locale message : String) : Except DatabaseError Database := do
  let table ← db.table name
  needToFill table name [referenceColumn kind, "locale", "message", "review", "created_at"]
  let parentIds := ((parent? table.shape kind).bind db.table?).map (·.ids)
  if !(parentIds.any (·.contains sourceId)) then throw .noParent
  let row : MessageRow :=
    ⟨table.lastId + 1, reference kind .grouped sourceId, reference kind .text sourceId, locale, message,
      false⟩
  return db.change name fun t => { t with lastId := row.id, messages := t.messages ++ [row] }

def updateRows (db : Database) (name : String) (ids : List Int) (test : SourceRow → Bool)
    (f : SourceRow → SourceRow) : Change := do
  let table ← db.table name
  need table ["missing", "missing_at"]
  let chosen (row : SourceRow) := test row && ids.contains row.id
  let changed := db.change name fun t =>
    { t with sources := t.sources.map fun row => if chosen row then f row else row }
  return (changed, table.sources.countP chosen)

abbrev Gone := List (String × List Int)

def dangling (gone : Gone) (parent : String) (reference : Option Int) : Bool :=
  reference.any fun id => gone.any fun (name, ids) => sameName name parent && ids.contains id

/-- Removes the messages whose sources are gone, and what refers to these messages in turn. -/
def cascade (gone : Gone) : List Table → List Table
  | [] => []
  | table :: tables =>
    match table.shape with
    | .messages grouped text =>
      let lost (row : MessageRow) := dangling gone grouped row.groupedId || dangling gone text row.textId
      { table with messages := table.messages.filter (!lost ·) } ::
        cascade ((table.name, (table.messages.filter lost).map (·.id)) :: gone) tables
    | _ => table :: cascade gone tables

def Table.without (table : Table) (ids : List Int) : Table :=
  { table with
    sources := table.sources.filter (!ids.contains ·.id)
    messages := table.messages.filter (!ids.contains ·.id) }

def deleteRows (db : Database) (name : String) (ids : List Int) : Change := do
  let table ← db.table name
  let gone := table.ids.filter ids.contains
  let db := db.change name (Table.without · ids)
  return ({ db with tables := cascade [(name, gone)] db.tables }, gone.length)

end Database

open Database

def Statement.run (db : Database) : Statement → Change
  | .createTable name shape => (db.createTable name shape).map (·, 0)
  | .createIndex name table columns => (db.createIndex name table columns).map (·, 0)
  | .insertSource table locale scope? source now => do
    needToFill (← db.table table) table
      (["locale"] ++ scope?.toList.map (fun _ => "namespace") ++ ["source", "missing", "created_at"])
    (db.insertRow table locale scope? source now).map (·, 1)
  | .insertSources table locale sources now => do
    needToFill (← db.table table) table ["locale", "source", "missing", "created_at"]
    (db.insertRows table locale now sources).map (·, sources.length)
  | .insertMessage table kind id locale message => (db.insertMessage table kind id locale message).map (·, 1)
  | .renew table ids =>
    db.updateRows table ids (fun _ => true) fun row => { row with missing := false, missingAt := none }
  | .mark table ids now =>
    db.updateRows table ids (·.missingAt.isNone) fun row =>
      { row with missing := true, missingAt := some now }
  | .delete table ids => db.deleteRows table ids

/-- Runs statements in order until one fails. Answers the database as it then is, and how many rows were
changed or why a statement failed. -/
def runAll (db : Database) : List Statement → Database × Except DatabaseError Nat
  | [] => (db, .ok 0)
  | statement :: statements =>
    match statement.run db with
    | .error e => (db, .error e)
    | .ok (changed, count) =>
      let (final, result) := runAll changed statements
      (final, result.map (count + ·))

end Phrasebook
