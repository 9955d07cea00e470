import Phrasebook.Config.TableNames
import Phrasebook.Files.Path
import Phrasebook.Flag
import Phrasebook.Source.FunctionTable
import Phrasebook.Source.MissingPolicy
import Phrasebook.Text.Utf8
import Phrasebook.Toml.Parse

namespace Phrasebook

structure Settings where
  sourceLocale : String
  parseRoots : List String
  deleteMissing : Bool
  markMissing : Bool
  database : String
  tables : TableNames
  functions : List TranslationFunction
  deriving DecidableEq, Repr

abbrev Environment := List (String × String)

inductive FileText
  | absent
  | unreadable (reason : String)
  | bytes (content : List UInt8)

namespace Settings

def standard : Settings where
  sourceLocale := "en"
  parseRoots := ["app", "resources", "routes", "database", "config", "bootstrap"]
  deleteMissing := false
  markMissing := true
  database := ".transcat/catalog.db"
  tables := TableNames.standard
  functions := FunctionTable.standardFunctions

def path : String := ".transcat/config.toml"

open Toml

abbrev Reading (α : Type) := Value → Except SettingError α

/-- A string, or a date or time as it is written. -/
def readString : Reading String
  | .string text => .ok text
  | .datetime text => .ok text
  | _ => .error .malformed

def readBool : Reading Bool
  | .boolean value => .ok value
  | _ => .error .malformed

def readIndex : Reading Nat
  | .integer value => if 0 ≤ value then .ok value.toNat else .error .malformed
  | _ => .error .malformed

def readKind : Reading SourceKind
  | .string text =>
    match SourceKind.parse? text with
    | some kind => .ok kind
    | none => .error .malformed
  | _ => .error .malformed

def readList {α : Type} (read : Reading α) : Reading (List α)
  | .array _ values => values.mapM read
  | _ => .error .malformed

def readOr {α : Type} (standard : α) (read : Reading α) : Option Value → Except SettingError α
  | none => .ok standard
  | some value => read value

def readNeeded {α : Type} (read : Reading α) : Option Value → Except SettingError α
  | none => .error .malformed
  | some value => read value

/-- How the fields of a value are found: by their names in a table, or by their places in an array that has
no more places than there are names. -/
def fieldsOf (names : List String) : Value → Except SettingError (String → Option Value)
  | .table _ entries => .ok fun name => entries.lookup name
  | .array _ values =>
    if values.length ≤ names.length then .ok fun name => (names.zip values).lookup name
    else .error .malformed
  | _ => .error .malformed

def readTables : Reading TableNames := fun value => do
  let field ← fieldsOf ["source_grouped", "source_text", "translations"] value
  let grouped ← readOr TableNames.standard.grouped readString (field "source_grouped")
  let text ← readOr TableNames.standard.text readString (field "source_text")
  let messages ← readOr TableNames.standard.messages readString (field "translations")
  return ⟨grouped, text, messages⟩

def readFunction : Reading TranslationFunction := fun value => do
  let field ← fieldsOf ["name", "argument", "kind"] value
  let name ← readNeeded readString (field "name")
  let argument ← readOr 0 readIndex (field "argument")
  let kind ← readNeeded readKind (field "kind")
  return ⟨name, argument, kind⟩

def ofEntries (entries : Entries) : Except SettingError Settings := do
  let field (name : String) := entries.lookup name
  let sourceLocale ← readOr standard.sourceLocale readString (field "source_locale")
  let parseRoots ← readOr standard.parseRoots (readList readString) (field "parse_roots")
  let deleteMissing ← readOr standard.deleteMissing readBool (field "delete_missing")
  let markMissing ← readOr standard.markMissing readBool (field "mark_missing")
  let database ← readOr standard.database readString (field "database")
  let tables ← readOr standard.tables readTables (field "tables")
  let functions ← readOr standard.functions (readList readFunction) (field "functions")
  return { sourceLocale, parseRoots, deleteMissing, markMissing, database, tables, functions }

def kindTexts (entries : Entries) : List String :=
  match entries.lookup "functions" with
  | some (.array _ values) =>
    values.filterMap fun
      | .table _ fields =>
        match fields.lookup "kind" with
        | some (.string text) => some text
        | _ => none
      | _ => none
  | _ => []

def checkKinds (texts : List String) : Except SettingError Unit :=
  texts.forM fun text => (SourceKind.parse text).map fun _ => ()

def ofToml (text : List Char) : Except SettingError Settings :=
  match Toml.parse? text with
  | none => .error .malformed
  | some entries => do
    checkKinds (kindTexts entries)
    ofEntries entries

def ofFile (path : String) : FileText → Except SettingError Settings
  | .absent => .ok standard
  | .unreadable reason => .error (.unreadable path reason)
  | .bytes content =>
    match Utf8.decode? content with
    | none => .error (.unreadable path "stream did not contain valid UTF-8")
    | some text => ofToml text

def variableNames : List String :=
  ["TRANSCAT_SOURCE_LOCALE", "TRANSCAT_DATABASE", "TRANSCAT_DELETE_MISSING", "TRANSCAT_MARK_MISSING"]

/-- A flag from the environment; one that cannot be read counts for nothing. -/
def flagOr (old : Bool) (text? : Option String) : Bool := (text?.bind Flag.parse?).getD old

def override (environment : Environment) (settings : Settings) : Settings :=
  { settings with
    sourceLocale := (environment.lookup "TRANSCAT_SOURCE_LOCALE").getD settings.sourceLocale
    database := (environment.lookup "TRANSCAT_DATABASE").getD settings.database
    deleteMissing := flagOr settings.deleteMissing (environment.lookup "TRANSCAT_DELETE_MISSING")
    markMissing := flagOr settings.markMissing (environment.lookup "TRANSCAT_MARK_MISSING") }

def functionTable (settings : Settings) : Except SettingError FunctionTable :=
  FunctionTable.ofList settings.functions

def validate (settings : Settings) : Except SettingError Unit := do
  if (trimBlanks settings.sourceLocale.toList).isEmpty then throw .emptyLocale
  settings.tables.validate
  discard settings.functionTable

def load (path : String) (file : FileText) (environment : Environment) : Except SettingError Settings := do
  let settings := (← ofFile path file).override environment
  settings.validate
  return settings

def policy (settings : Settings) (delete? mark? : Option Bool) : MissingPolicy :=
  .ofFlags (delete?.getD settings.deleteMissing) (mark?.getD settings.markMissing)

def roots (settings : Settings) (project : String) (given : List String) : List String :=
  (if given.isEmpty then settings.parseRoots else given).map (Path.join project)

def databasePath (settings : Settings) (project : String) : String :=
  Path.join project settings.database

end Settings

end Phrasebook
