import Phrasebook.Toml.Scalar
import Phrasebook.Toml.Text

namespace Phrasebook.Toml

def depthLimit : Nat := 79

def elements {α : Type} (closer : Char) (read : α → List Char → Option (α × List Char))
    (before : α) (text : List Char) : (bound : Nat) → Option (α × List Char)
  | 0 => none
  | bound + 1 =>
    match skipLines text text.length with
    | [] => none
    | c :: rest =>
      if c = closer then some (before, rest)
      else
        match read before (c :: rest) with
        | none => none
        | some (now, rest) =>
          match skipLines rest rest.length with
          | ',' :: rest => elements closer read now rest bound
          | c :: rest => if c = closer then some (now, rest) else none
          | [] => none

def equals? (text : List Char) : Option (List Char) :=
  (after? '=' (skipBlanks text)).map skipBlanks

/-- The value that a text begins with, `depth` being how deep it may yet be nested. -/
def value? : (depth : Nat) → List Char → Option (Value × List Char)
  | depth, text =>
    match text with
    | '[' :: rest =>
      match depth with
      | 0 => none
      | depth + 1 =>
        let read (before : List Value) (text : List Char) := do
          let (value, rest) ← value? depth text
          return (before ++ [value], rest)
        (elements ']' read [] rest (rest.length + 1)).map fun (values, rest) => (.array false values, rest)
    | '{' :: rest =>
      match depth with
      | 0 => none
      | depth + 1 =>
        let read (before : Entries) (text : List Char) := do
          let (path, key, rest) ← key? text text.length
          let (value, rest) ← value? depth (← equals? rest)
          return (← before.assign true value path key, rest)
        (elements '}' read [] rest (rest.length + 1)).map fun (entries, rest) =>
          (.table .braces entries, rest)
    | c :: rest =>
      if c = '"' ∨ c = '\'' then
        (string? (c :: rest)).map fun (text, rest) => (.string (String.ofList text), rest)
      else (scalar? (word text)).map (·, text.drop (word text).length)
    | [] => none

inductive Statement
  | table (path : List String) (key : String)
  | element (path : List String) (key : String)
  | pair (path : List String) (key : String) (value : Value)
  deriving Repr

def statement? (text : List Char) : Option (Statement × List Char) :=
  match text with
  | '[' :: '[' :: rest => do
    let (path, key, rest) ← key? rest rest.length
    return (.element path key, ← after? ']' (← after? ']' rest))
  | '[' :: rest => do
    let (path, key, rest) ← key? rest rest.length
    return (.table path key, ← after? ']' rest)
  | _ => do
    let (path, key, rest) ← key? text text.length
    let (value, rest) ← value? depthLimit (← equals? rest)
    return (.pair path key value, rest)

def statements? (text : List Char) : (bound : Nat) → Option (List Statement)
  | 0 => none
  | bound + 1 =>
    match skipLines text text.length with
    | [] => some []
    | c :: rest => do
      let (statement, rest) ← statement? (c :: rest)
      match skipComment rest with
      | [] => return [statement]
      | rest => do
        let more ← statements? (← newline? rest) bound
        return statement :: more

/-- Where the statements of a document have got to: its table, and the table that keys are put in. -/
structure Progress where
  root : Entries
  current : List String

def Progress.step (progress : Progress) : Statement → Option Progress
  | .table path key => (progress.root.define path key).map (⟨·, path ++ [key]⟩)
  | .element path key => (progress.root.append path key).map (⟨·, path ++ [key]⟩)
  | .pair path key value =>
    (progress.root.within (Entries.assign true value path key) progress.current).map
      (⟨·, progress.current⟩)

def dropByteOrderMark : List Char → List Char
  | '\uFEFF' :: rest => rest
  | text => text

def parse? (source : List Char) : Option Entries := do
  let text := dropByteOrderMark source
  let statements ← statements? text (text.length + 1)
  let progress ← statements.foldlM Progress.step ⟨[], []⟩
  return progress.root

end Phrasebook.Toml
