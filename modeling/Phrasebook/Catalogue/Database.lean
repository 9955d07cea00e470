import Phrasebook.Catalogue.Instant
import Phrasebook.Source.Kind

/-!
# Tables of a catalogue's database

A table holds sources, grouped or free text, or messages; a table of messages refers to two tables of
sources by their names. Names are compared without regard to ASCII case. A database keeps its tables in
the order in which they were created, so that a table comes after those it refers to.
-/

namespace Phrasebook

def sameName (a b : String) : Bool := a.toList.map lowerAscii == b.toList.map lowerAscii

structure SourceRow where
  id : Int
  locale : String
  scope? : Option String
  source : String
  missing : Bool
  createdAt : Instant
  missingAt : Option Instant
  deriving DecidableEq, Repr

/-- A translated message. Of its two references one is set. -/
structure MessageRow where
  id : Int
  groupedId : Option Int
  textId : Option Int
  locale : String
  message : String
  review : Bool
  deriving DecidableEq, Repr

inductive Shape
  | grouped
  | text
  | messages (grouped text : String)
  deriving DecidableEq, Repr

def Shape.columns : Shape → List String
  | .grouped => ["id", "locale", "namespace", "source", "missing", "created_at", "missing_at"]
  | .text => ["id", "locale", "source", "missing", "created_at", "missing_at"]
  | .messages .. =>
    ["id", "source_grouped_id", "source_text_id", "locale", "message", "review", "created_at"]

/-- A table has rows of sources or of messages, by its shape. Ids are given in ascending order, and `lastId`
is the last that was given, also if its row is gone. -/
structure Table where
  name : String
  shape : Shape
  lastId : Int
  sources : List SourceRow
  messages : List MessageRow
  deriving DecidableEq, Repr

namespace Table

def empty (name : String) (shape : Shape) : Table := ⟨name, shape, 0, [], []⟩

def ids (table : Table) : List Int := table.sources.map (·.id) ++ table.messages.map (·.id)

def size (table : Table) : Nat := table.sources.length + table.messages.length

def lacking? (table : Table) (columns : List String) : Option String :=
  columns.find? (!table.shape.columns.contains ·)

end Table

structure Database where
  tables : List Table
  indexes : List String
  deriving DecidableEq, Repr

namespace Database

def empty : Database := ⟨[], []⟩

def table? (db : Database) (name : String) : Option Table := db.tables.find? (sameName name ·.name)

def hasIndex (db : Database) (name : String) : Bool := db.indexes.any (sameName name)

def change (db : Database) (name : String) (f : Table → Table) : Database :=
  { db with tables := db.tables.map fun table => if sameName name table.name then f table else table }

end Database

inductive DatabaseError
  | reservedWord (word : String)
  | reservedName (name : String)
  /-- A name under which the text that makes a table cannot be read again. -/
  | malformedSchema (name : String)
  | noTable (name : String)
  | noColumn (column : String)
  | noColumnIn (table column : String)
  | tableExists (name : String)
  | indexExists (name : String)
  | notUnique (table : String) (columns : List String)
  | noParent
  | patternTooLong
  | notDatabase
  | cannotOpen (path : String)
  deriving DecidableEq, Repr

namespace DatabaseError

def message : DatabaseError → String
  | .reservedWord word => s!"near \"{word}\": syntax error"
  | .reservedName name => s!"object name reserved for internal use: {name}"
  | .malformedSchema name => s!"malformed database schema ({name}) - near \"(\": syntax error"
  | .noTable name => s!"no such table: {name}"
  | .noColumn column => s!"no such column: {column}"
  | .noColumnIn table column => s!"table {table} has no column named {column}"
  | .tableExists name => s!"there is already a table named {name}"
  | .indexExists name => s!"there is already an index named {name}"
  | .notUnique table columns =>
    "UNIQUE constraint failed: " ++ ", ".intercalate (columns.map fun column => s!"{table}.{column}")
  | .noParent => "FOREIGN KEY constraint failed"
  | .patternTooLong => "LIKE or GLOB pattern too complex"
  | .notDatabase => "file is not a database"
  | .cannotOpen path => s!"unable to open database file: {path}"

end DatabaseError

end Phrasebook
