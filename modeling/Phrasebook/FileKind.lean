namespace Phrasebook

inductive FileKind
  | template
  | code
  deriving DecidableEq, Repr

namespace FileKind

def suffixes : List (List Char × FileKind) :=
  [(".blade.php".toList, .template), (".php".toList, .code)]

/-- The kind that a table of suffixes gives to the longest of the tails of `name` that begin with a dot. -/
def ofTail? (table : List (List Char × FileKind)) : List Char → Option FileKind
  | [] => none
  | c :: rest =>
    if c = '.' then
      match table.find? (·.1 == c :: rest) with
      | some (_, kind) => some kind
      | none => ofTail? table rest
    else ofTail? table rest

def ofName? (name : String) : Option FileKind := ofTail? suffixes name.toList

end FileKind

end Phrasebook
