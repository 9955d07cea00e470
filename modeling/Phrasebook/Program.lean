import Phrasebook.CommandLine
import Phrasebook.Workspace

namespace Phrasebook

structure Report where
  exit : Nat
  output : String
  error? : Option String
  deriving DecidableEq, Repr

namespace Report

def refused : Report := ⟨2, "", none⟩

def failed (failure : Failure) : Report := ⟨1, "", some ("Error: " ++ failure.context)⟩

def lines (output : List String) : Report := ⟨0, String.join (output.map (· ++ "\n")), none⟩

end Report

def hexDigit (n : Nat) : Char := "0123456789abcdef".toList.getD n '0'

def jsonChar (c : Char) : List Char :=
  if c = '"' then ['\\', '"']
  else if c = '\\' then ['\\', '\\']
  else if c = '\n' then ['\\', 'n']
  else if c = '\r' then ['\\', 'r']
  else if c = '\t' then ['\\', 't']
  else if c = '\x08' then ['\\', 'b']
  else if c = '\x0c' then ['\\', 'f']
  else if c.toNat < 0x20 then "\\u00".toList ++ [hexDigit (c.toNat / 16), hexDigit (c.toNat % 16)]
  else [c]

def jsonString (text : String) : String :=
  "\"" ++ String.ofList (text.toList.flatMap jsonChar) ++ "\""

def jsonObject (dictionary : Dictionary) : String :=
  if dictionary.isEmpty then "\x7b\x7d"
  else
    let pairs := dictionary.map fun (key, value) => "  " ++ jsonString key ++ ": " ++ jsonString value
    "\x7b\n" ++ ",\n".intercalate pairs ++ "\n\x7d"

namespace Workspace

def tablesLine (project : String) (settings : Settings) : String :=
  let names := ", ".intercalate [settings.tables.grouped, settings.tables.text, settings.tables.messages]
  "Catalog tables ready in " ++ settings.databasePath project ++ " (" ++ names ++ ")."

def carryOut (workspace : Workspace) (project : String) (environment : Environment) (now : Instant) :
    Command → Workspace × Except Failure (List String)
  | .scan roots delete? mark? =>
    let (workspace, result) := workspace.scan project environment ⟨roots, delete?, mark?, now⟩ id
    (workspace, result.map fun (_, summary) => summary.lines)
  | .tables =>
    workspace.withCatalogue project environment fun settings _ catalogue =>
      (catalogue, [tablesLine project settings])
  | .load locale group scope? =>
    let action (settings : Settings) (_ : Workspace) (catalogue : Catalogue) :=
      (catalogue, catalogue.load settings.sourceLocale locale group scope?)
    match workspace.withCatalogue project environment action with
    | (workspace, .error failure) => (workspace, .error failure)
    | (workspace, .ok (.error cause)) => (workspace, .error (.loading locale group cause))
    | (workspace, .ok (.ok dictionary)) => (workspace, .ok [jsonObject dictionary])

def run (workspace : Workspace) (arguments : List String) (environment : Environment) (now : Instant) :
    Workspace × Report :=
  match CommandLine.parse arguments with
  | .error .refused => (workspace, .refused)
  | .error .help => (workspace, .lines [])
  | .ok invocation =>
    let project := invocation.project?.getD workspace.directory
    match workspace.carryOut project environment now invocation.command with
    | (workspace, .ok output) => (workspace, .lines output)
    | (workspace, .error failure) => (workspace, .failed failure)

end Workspace

end Phrasebook
