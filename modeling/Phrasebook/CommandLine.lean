import Phrasebook.Flag

namespace Phrasebook

inductive Command
  | scan (roots : List String) (delete? mark? : Option Bool)
  | tables
  | load (locale group : String) (scope? : Option String)
  deriving DecidableEq, Repr

structure Invocation where
  project? : Option String
  command : Command
  deriving DecidableEq, Repr

inductive Halt
  | refused
  | help
  deriving DecidableEq, Repr

namespace CommandLine

inductive Arity
  | needed
  | possible
  deriving DecidableEq, Repr

structure OptionSpec where
  long : String
  short? : Option Char
  arity : Arity
  deriving DecidableEq, Repr

inductive Argument
  | option (long : String) (value? : Option String)
  | word (text : String)
  deriving DecidableEq, Repr

def isValue (text : String) : Bool := text = "-" || text.toList.head? != some '-'

/-- The value of an option, which may be joined to it, and the arguments that remain. -/
def takeValue (arity : Arity) (joined? : Option String) (rest : List String) :
    Except Halt (Option String × List String) :=
  match joined?, arity, rest with
  | some value, _, rest => .ok (some value, rest)
  | none, .needed, value :: rest => if isValue value then .ok (some value, rest) else .error .refused
  | none, .needed, [] => .error .refused
  | none, .possible, value :: rest =>
    if isValue value then .ok (some value, rest) else .ok (none, value :: rest)
  | none, .possible, [] => .ok (none, [])

def dropEquals : List Char → List Char
  | '=' :: rest => rest
  | text => text

def joinedLong? : List Char → Option String
  | '=' :: value => some (String.ofList value)
  | _ => none

def readLong (specs : List OptionSpec) (text : List Char) (rest : List String) :
    Except Halt (Argument × List String) :=
  let name := text.takeWhile (· != '=')
  let joined? := joinedLong? (text.drop name.length)
  match specs.find? (·.long.toList == name) with
  | some spec =>
    (takeValue spec.arity joined? rest).map fun (value?, rest) => (.option spec.long value?, rest)
  | none => .error (if name = "help".toList ∧ joined?.isNone then .help else .refused)

def readShort (specs : List OptionSpec) (name : Char) (text : List Char) (rest : List String) :
    Except Halt (Argument × List String) :=
  let joined? := if text = [] then none else some (String.ofList (dropEquals text))
  match specs.find? (·.short? == some name) with
  | some spec =>
    (takeValue spec.arity joined? rest).map fun (value?, rest) => (.option spec.long value?, rest)
  | none => .error (if name = 'h' then .help else .refused)

/-- Reads the next argument; `none` at the end. After `--` all arguments are words, and `ended` says so. -/
def readNext (specs : List OptionSpec) (ended : Bool) :
    List String → Except Halt (Option (Argument × Bool × List String))
  | [] => .ok none
  | text :: rest =>
    if ended then .ok (some (.word text, true, rest))
    else
      match text.toList with
      | ['-', '-'] =>
        match rest with
        | [] => .ok none
        | word :: rest => .ok (some (.word word, true, rest))
      | '-' :: '-' :: name =>
        (readLong specs name rest).map fun (argument, rest) => some (argument, false, rest)
      | '-' :: name :: joined =>
        (readShort specs name joined rest).map fun (argument, rest) => some (argument, false, rest)
      | _ => .ok (some (.word text, false, rest))

def readAll {α : Type} (specs : List OptionSpec) (step : α → Argument → Except Halt α) (state : α)
    (ended : Bool) (arguments : List String) : (bound : Nat) → Except Halt α
  | 0 => .ok state
  | bound + 1 => do
    match ← readNext specs ended arguments with
    | none => return state
    | some (argument, ended, rest) => readAll specs step (← step state argument) ended rest bound

def projectSpec : OptionSpec := ⟨"project", some 'p', .needed⟩

def scanSpecs : List OptionSpec :=
  [projectSpec, ⟨"root", none, .needed⟩, ⟨"delete", none, .possible⟩, ⟨"mark", none, .possible⟩]

def loadSpecs : List OptionSpec := [projectSpec, ⟨"namespace", some 'n', .needed⟩]

def setOnce {α : Type} (old : Option α) (value : α) : Except Halt (Option α) :=
  if old.isSome then .error .refused else .ok (some value)

def path (value? : Option String) : Except Halt String :=
  match value? with
  | some value => if value = "" then .error .refused else .ok value
  | none => .error .refused

def flag (value? : Option String) : Except Halt Bool :=
  match Flag.parse? (value?.getD "true") with
  | some value => .ok value
  | none => .error .refused

structure Given where
  project? : Option String
  roots : List String
  delete? : Option Bool
  mark? : Option Bool
  scope? : Option String
  words : List String

def Given.none : Given := ⟨.none, [], .none, .none, .none, []⟩

/-- Takes in an argument, `words` being the number of words that the command has. -/
def Given.step (words : Nat) (given : Given) : Argument → Except Halt Given
  | .word text =>
    if given.words.length < words then .ok { given with words := given.words ++ [text] }
    else .error .refused
  | .option long value? =>
    match long with
    | "project" => do return { given with project? := ← setOnce given.project? (← path value?) }
    | "root" => do return { given with roots := given.roots ++ [← path value?] }
    | "delete" => do return { given with delete? := ← setOnce given.delete? (← flag value?) }
    | "mark" => do return { given with mark? := ← setOnce given.mark? (← flag value?) }
    | _ => do return { given with scope? := ← setOnce given.scope? (value?.getD "") }

def readGiven (specs : List OptionSpec) (words : Nat) (arguments : List String) : Except Halt Given :=
  readAll specs (Given.step words) .none false arguments (arguments.length + 1)

def readCommand (name : String) (arguments : List String) : Except Halt (Option String × Command) := do
  match name with
  | "parse" => do
    let given ← readGiven scanSpecs 0 arguments
    return (given.project?, .scan given.roots given.delete? given.mark?)
  | "tables" => do
    let given ← readGiven [projectSpec] 0 arguments
    return (given.project?, .tables)
  | "load" => do
    let given ← readGiven loadSpecs 2 arguments
    match given.words with
    | [locale, group] => return (given.project?, .load locale group given.scope?)
    | _ => throw .refused
  | "help" =>
    match arguments with
    | [] => throw .help
    | [topic] => throw (if topic ∈ ["parse", "tables", "load", "help"] then .help else .refused)
    -- A further topic would be a command within the first one, and there is none.
    | _ => throw .refused
  | _ => throw .refused

def readLine (project? : Option String) (arguments : List String) :
    (bound : Nat) → Except Halt Invocation
  | 0 => .error .refused
  | bound + 1 => do
    match ← readNext [projectSpec] false arguments with
    | none => throw .refused
    | some (.option _ value?, _, rest) => readLine (← setOnce project? (← path value?)) rest bound
    | some (.word name, ended, rest) =>
      if ended then throw .refused
      let (inner?, command) ← readCommand name rest
      return ⟨inner? <|> project?, command⟩

def parse (arguments : List String) : Except Halt Invocation :=
  readLine none arguments (arguments.length + 1)

end CommandLine

end Phrasebook
