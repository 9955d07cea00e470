import Std.Time.DateTime.Timestamp
import Phrasebook.Program

namespace Phrasebook

/-- Stands for the content of a file that no command looks into. -/
def unread : Content := .bytes [0]

/-- Whether a command may look into the file at a place. -/
def isLookedInto (place : List String) : Bool :=
  place.getLast?.any isScanned || place == Path.components Settings.path

def readContent (path : String) (place : List String) : IO Content := do
  let head ← IO.FS.withFile path .read fun file => file.read 64
  let header := Utf8.encode Storage.header
  if head.toList.take header.length == header then
    let bytes := (← IO.FS.readBinFile path).toList
    return match Storage.decode? bytes with
      | some db => .catalogue db
      | none => .bytes bytes
  else if isLookedInto place then return .bytes (← IO.FS.readBinFile path).toList
  else return if head.isEmpty then .bytes [] else unread

def readLink (top path : String) (place : List String) : IO Entry := do
  try
    let target := (← IO.FS.realPath path).toString.toList
    let lead := top.toList ++ ['/']
    let up := String.join (place.map fun _ => "../")
    if begins lead target then return .link (up ++ String.ofList (target.drop lead.length))
    else return .link "/"
  catch _ => return .link "/"

partial def readDirectory (top path : String) (place : List String) : IO Entry := do
  let mut entries := []
  for entry in ← (← IO.FS.realPath path).readDir do
    let inner := path ++ "/" ++ entry.fileName
    let innerPlace := place ++ [entry.fileName]
    match (← entry.path.symlinkMetadata).type with
    | .symlink => entries := (entry.fileName, ← readLink top inner place) :: entries
    | .dir => entries := (entry.fileName, ← readDirectory top inner innerPlace) :: entries
    | .file => entries := (entry.fileName, .file (← readContent inner innerPlace)) :: entries
    | .other => pure ()
  return .directory entries

def readTop (path : String) : IO Entry := do
  try readDirectory (← IO.FS.realPath path).toString path []
  catch _ => return .directory []

def readEnvironment : IO Environment := do
  let mut environment := []
  for name in Settings.variableNames do
    if let some value ← IO.getEnv name then environment := (name, value) :: environment
  return environment

def readClock : IO Instant := do
  let now ← Std.Time.Timestamp.now
  return ⟨now.val.second.val, now.val.nano.val.toNat⟩

def isSameCatalogue : Option Entry → Database → Bool
  | some (.file (.catalogue old)), db => old == db
  | _, _ => false

partial def writeChanges (path : String) (old : Option Entry) : Entry → IO Unit
  | .directory entries => do
    if !(old.any Entry.isDirectory) then IO.FS.createDirAll path
    for (name, entry) in entries do
      writeChanges (path ++ "/" ++ name) (old.bind (·.at? [name])) entry
  | .file (.catalogue db) => do
    if !isSameCatalogue old db then IO.FS.writeBinFile path ⟨(Storage.encode db).toArray⟩
  | _ => pure ()

def projectDirectory (arguments : List String) : IO String := do
  match CommandLine.parse arguments with
  | .ok ⟨some project, _⟩ => return project
  | _ => return (← IO.currentDir).toString

end Phrasebook

open Phrasebook in
def main (arguments : List String) : IO UInt32 := do
  let directory ← projectDirectory arguments
  let accepted := (CommandLine.parse arguments).toOption.isSome
  let tree ← if accepted then readTop directory else pure (.directory [])
  let workspace : Workspace := ⟨directory, tree⟩
  let (result, report) := workspace.run arguments (← readEnvironment) (← readClock)
  writeChanges directory (some workspace.tree) result.tree
  IO.print report.output
  if let some line := report.error? then IO.eprintln line
  return report.exit.toUInt32
