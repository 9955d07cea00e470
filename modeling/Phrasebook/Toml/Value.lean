namespace Phrasebook.Toml

/-- How a table came about. -/
inductive Origin
  | passed
  | dotted
  | header
  | braces
  deriving DecidableEq, Repr

inductive Value
  | string (text : String)
  | integer (value : Int)
  | float (text : String)
  | boolean (value : Bool)
  | datetime (text : String)
  | array (growing : Bool) (elements : List Value)
  | table (origin : Origin) (entries : List (String × Value))
  deriving Repr

abbrev Entries := List (String × Value)

namespace Entries

def get? (key : String) (entries : Entries) : Option Value := entries.lookup key

def set (key : String) (value : Value) : Entries → Entries
  | [] => [(key, value)]
  | (other, old) :: entries =>
    if other = key then (key, value) :: entries else (other, old) :: set key value entries

def changeLast (f : Entries → Option Entries) (elements : List Value) : Option (List Value) :=
  match elements.getLast? with
  | some (.table origin entries) =>
    (f entries).map fun changed => elements.dropLast ++ [.table origin changed]
  | _ => none

/-- Changes the table at a path of headers, passing through tables that are not there yet. -/
def within (f : Entries → Option Entries) : List String → Entries → Option Entries
  | [], entries => f entries
  | key :: path, entries =>
    match entries.get? key with
    | none => (within f path []).map fun inner => entries.set key (.table .passed inner)
    | some (.table origin inner) =>
      if origin = .braces then none
      else (within f path inner).map fun changed => entries.set key (.table origin changed)
    | some (.array true elements) =>
      (changeLast (within f path) elements).map fun changed => entries.set key (.array true changed)
    | some _ => none

def define (path : List String) (key : String) : Entries → Option Entries :=
  within (fun entries =>
    match entries.get? key with
    | none => some (entries.set key (.table .header []))
    | some (.table .passed inner) => some (entries.set key (.table .header inner))
    | some _ => none) path

def append (path : List String) (key : String) : Entries → Option Entries :=
  within (fun entries =>
    match entries.get? key with
    | none => some (entries.set key (.array true [.table .header []]))
    | some (.array true elements) =>
      some (entries.set key (.array true (elements ++ [.table .header []])))
    | some _ => none) path

/-- Gives the key at the end of a dotted path its value. The table it is put in is the one at hand or one
that came about by dots; `open?` says whether the present one is. -/
def assign (open? : Bool) (value : Value) (path : List String) (key : String) (entries : Entries) :
    Option Entries :=
  match path with
  | [] => if open? ∧ (entries.get? key).isNone then some (entries.set key value) else none
  | first :: path =>
    match entries.get? first with
    | none => (assign true value path key []).map fun inner => entries.set first (.table .dotted inner)
    | some (.table .dotted inner) =>
      (assign true value path key inner).map fun changed => entries.set first (.table .dotted changed)
    | some (.table .passed inner) =>
      (assign false value path key inner).map fun changed => entries.set first (.table .passed changed)
    | some (.array true elements) =>
      (changeLast (assign false value path key) elements).map fun changed =>
        entries.set first (.array true changed)
    | some _ => none

end Entries

end Phrasebook.Toml
