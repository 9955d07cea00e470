import Phrasebook.Catalogue.Database
import Phrasebook.Files.Path

namespace Phrasebook

inductive Content
  | bytes (bytes : List UInt8)
  | catalogue (database : Database)

inductive Entry
  | file (content : Content)
  /-- A link to a path seen from the directory that the link is in. -/
  | link (target : String)
  | directory (entries : List (String × Entry))

inductive FileFault
  | notFound
  | notDirectory
  | isDirectory
  | exists
  | tooManyLinks
  deriving DecidableEq, Repr

def FileFault.message : FileFault → String
  | .notFound => "No such file or directory (os error 2)"
  | .notDirectory => "Not a directory (os error 20)"
  | .isDirectory => "Is a directory (os error 21)"
  | .exists => "File exists (os error 17)"
  | .tooManyLinks => "Too many levels of symbolic links (os error 40)"

/-- The steps of a path: its pieces between slashes. A slash at the end asks for a directory. -/
def Path.steps (path : String) : List String :=
  let names := (Path.pieces path.toList).filter (· ≠ [])
  names.map String.ofList ++ if path.toList.getLast? = some '/' then ["."] else []

namespace Entry

def entries : Entry → List (String × Entry)
  | .directory entries => entries
  | _ => []

def isDirectory : Entry → Bool
  | .directory _ => true
  | _ => false

def at? (root : Entry) : List String → Option Entry
  | [] => some root
  | name :: place => (root.entries.lookup name).bind (·.at? place)

def replace (name : String) (new? : Option Entry) (entries : List (String × Entry)) :
    List (String × Entry) :=
  entries.filter (·.1 != name) ++ (new?.map (name, ·)).toList

def set (root : Entry) (new? : Option Entry) : List String → Entry
  | [] => new?.getD root
  | name :: place =>
    match root, place with
    | .directory entries, [] => .directory (replace name new? entries)
    | .directory entries, place =>
      match entries.lookup name with
      | some inner => .directory (replace name (some (inner.set new? place)) entries)
      | none => root
    | _, _ => root

def linkLimit : Nat := 40

/-- Where steps lead from the directory at the place `here`. -/
def follow (root : Entry) (links : Nat) (here : List String) (steps : List String) :
    Except FileFault (List String) :=
  match steps with
  | [] => .ok here
  | step :: steps =>
    if step = "." then follow root links here steps
    else if step = ".." then
      if here = [] then .error .notFound else follow root links here.dropLast steps
    else
      match root.at? (here ++ [step]) with
      | none => .error .notFound
      | some (.directory _) => follow root links (here ++ [step]) steps
      | some (.file _) => if steps = [] then .ok (here ++ [step]) else .error .notDirectory
      | some (.link target) =>
        match links with
        | 0 => .error .tooManyLinks
        | links + 1 =>
          if Path.isAbsolute target then .error .notFound
          else follow root links here (Path.steps target ++ steps)
termination_by (links, steps.length)

def locate (root : Entry) (steps : List String) : Except FileFault (List String) :=
  root.follow linkLimit [] steps

def find (root : Entry) (steps : List String) : Except FileFault Entry := do
  match root.at? (← root.locate steps) with
  | some entry => return entry
  | none => throw .notFound

def exists? (root : Entry) (steps : List String) : Bool := (root.find steps).toBool

def read (root : Entry) (steps : List String) : Except FileFault Content := do
  match ← root.find steps with
  | .file content => return content
  | _ => throw .isDirectory

def named? (root : Entry) (steps : List String) : Option Entry :=
  match steps.getLast? with
  | none => some root
  | some name =>
    if name = "." ∨ name = ".." then (root.find steps).toOption
    else
      match root.locate steps.dropLast with
      | .ok place => root.at? (place ++ [name])
      | .error _ => none

def makeDirectoriesFrom (root : Entry) (here : List String) : List String → Except FileFault Entry
  | [] => .ok root
  | step :: steps =>
    match root.follow linkLimit here [step] with
    | .ok place =>
      if (root.at? place).any isDirectory then makeDirectoriesFrom root place steps else .error .exists
    | .error .notFound =>
      if (root.at? (here ++ [step])).isSome then .error .exists
      else
        let place := here ++ [step]
        makeDirectoriesFrom (root.set (some (.directory [])) place) place steps
    | .error fault => .error fault

def makeDirectories (root : Entry) (steps : List String) : Except FileFault Entry :=
  root.makeDirectoriesFrom [] steps

def placeFor (root : Entry) (steps : List String) : Except FileFault (List String) :=
  match root.locate steps, steps.getLast? with
  | .error .notFound, some name => do
    let place ← root.locate steps.dropLast
    if (root.at? (place ++ [name])).isSome then throw .notFound
    return place ++ [name]
  | result, _ => result

def write (root : Entry) (steps : List String) (content : Content) : Except FileFault Entry := do
  let place ← root.placeFor steps
  if (root.at? place).any isDirectory then throw .isDirectory
  return root.set (some (.file content)) place

def putNew (root : Entry) (steps : List String) (entry : Entry) : Except FileFault Entry := do
  let root ← root.makeDirectories steps.dropLast
  match steps.getLast? with
  | none => throw .exists
  | some name =>
    let place ← root.locate steps.dropLast
    if (root.at? (place ++ [name])).isSome then throw .exists
    return root.set (some entry) (place ++ [name])

def remove (root : Entry) (steps : List String) : Except FileFault Entry := do
  match steps.getLast? with
  | none => throw .notFound
  | some name =>
    let place ← root.locate steps.dropLast
    if (root.at? (place ++ [name])).isNone then throw .notFound
    return root.set none (place ++ [name])

end Entry

end Phrasebook
