import Phrasebook.Catalogue.Database
import Phrasebook.Text.Digits
import Phrasebook.Text.Utf8

namespace Phrasebook.Storage

def header : List Char := "phrasebook catalogue".toList ++ ['\x00', '\n']

def writeFields (fields : List String) : List Char :=
  fields.flatMap fun field => (toString field.length).toList ++ ':' :: field.toList ++ ['\n']

def readFields? (text : List Char) : (bound : Nat) → Option (List String)
  | 0 => none
  | bound + 1 =>
    if text = [] then some []
    else
      let digits := text.takeWhile Char.isDigit
      let size := numeral 10 digits
      match text.drop digits.length with
      | ':' :: rest =>
        if digits = [] ∨ (rest.drop size).head? ≠ some '\n' then none
        else (readFields? (rest.drop (size + 1)) bound).map (String.ofList (rest.take size) :: ·)
      | _ => none

def listFields {α : Type} (fields : α → List String) (list : List α) : List String :=
  toString list.length :: list.flatMap fields

def optionFields {α : Type} (fields : α → List String) : Option α → List String
  | none => ["-"]
  | some a => "+" :: fields a

def intFields (n : Int) : List String := [toString n]

def boolFields (b : Bool) : List String := [if b then "yes" else "no"]

def instantFields (t : Instant) : List String := [toString t.seconds, toString t.nanos]

def sourceFields (row : SourceRow) : List String :=
  intFields row.id ++ [row.locale] ++ optionFields ([·]) row.scope? ++ [row.source] ++
    boolFields row.missing ++ instantFields row.createdAt ++ optionFields instantFields row.missingAt

def messageFields (row : MessageRow) : List String :=
  intFields row.id ++ optionFields intFields row.groupedId ++ optionFields intFields row.textId ++
    [row.locale, row.message] ++ boolFields row.review

def shapeFields : Shape → List String
  | .grouped => ["grouped"]
  | .text => ["text"]
  | .messages grouped text => ["messages", grouped, text]

def tableFields (table : Table) : List String :=
  table.name :: shapeFields table.shape ++ intFields table.lastId ++
    listFields sourceFields table.sources ++ listFields messageFields table.messages

def encode (db : Database) : List UInt8 :=
  Utf8.encode (header ++ writeFields (listFields tableFields db.tables ++ listFields ([·]) db.indexes))

abbrev Reader (α : Type) := List String → Option (α × List String)

def readText : Reader String
  | [] => none
  | field :: fields => some (field, fields)

def readInt : Reader Int := fun fields => do
  let (field, fields) ← readText fields
  return (← field.toInt?, fields)

def readNat : Reader Nat := fun fields => do
  let (field, fields) ← readText fields
  return (← field.toNat?, fields)

def readBool : Reader Bool := fun fields => do
  let (field, fields) ← readText fields
  return (field == "yes", fields)

def readOption {α : Type} (read : Reader α) : Reader (Option α) := fun fields => do
  let (field, fields) ← readText fields
  if field = "-" then return (none, fields)
  let (value, fields) ← read fields
  return (some value, fields)

def readCount {α : Type} (read : Reader α) : Nat → Reader (List α)
  | 0, fields => some ([], fields)
  | count + 1, fields => do
    let (value, fields) ← read fields
    let (values, fields) ← readCount read count fields
    return (value :: values, fields)

def readList {α : Type} (read : Reader α) : Reader (List α) := fun fields => do
  let (count, fields) ← readNat fields
  readCount read count fields

def readInstant : Reader Instant := fun fields => do
  let (seconds, fields) ← readInt fields
  let (nanos, fields) ← readNat fields
  return (⟨seconds, nanos⟩, fields)

def readSource : Reader SourceRow := fun fields => do
  let (id, fields) ← readInt fields
  let (locale, fields) ← readText fields
  let (scope?, fields) ← readOption readText fields
  let (source, fields) ← readText fields
  let (missing, fields) ← readBool fields
  let (createdAt, fields) ← readInstant fields
  let (missingAt, fields) ← readOption readInstant fields
  return (⟨id, locale, scope?, source, missing, createdAt, missingAt⟩, fields)

def readMessage : Reader MessageRow := fun fields => do
  let (id, fields) ← readInt fields
  let (groupedId, fields) ← readOption readInt fields
  let (textId, fields) ← readOption readInt fields
  let (locale, fields) ← readText fields
  let (message, fields) ← readText fields
  let (review, fields) ← readBool fields
  return (⟨id, groupedId, textId, locale, message, review⟩, fields)

def readShape : Reader Shape := fun fields => do
  let (shape, fields) ← readText fields
  match shape with
  | "grouped" => return (.grouped, fields)
  | "text" => return (.text, fields)
  | _ => do
    let (grouped, fields) ← readText fields
    let (text, fields) ← readText fields
    return (.messages grouped text, fields)

def readTable : Reader Table := fun fields => do
  let (name, fields) ← readText fields
  let (shape, fields) ← readShape fields
  let (lastId, fields) ← readInt fields
  let (sources, fields) ← readList readSource fields
  let (messages, fields) ← readList readMessage fields
  return (⟨name, shape, lastId, sources, messages⟩, fields)

def decode? (bytes : List UInt8) : Option Database := do
  let text ← Utf8.decode? bytes
  if text.take header.length ≠ header then failure
  let body := text.drop header.length
  let fields ← readFields? body (body.length + 1)
  let (tables, fields) ← readList readTable fields
  let (indexes, _) ← readList readText fields
  return ⟨tables, indexes⟩

end Phrasebook.Storage
