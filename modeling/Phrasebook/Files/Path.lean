import Phrasebook.FileKind

namespace Phrasebook.Path

def pieces : List Char → List (List Char)
  | [] => [[]]
  | c :: rest =>
    if c = '/' then [] :: pieces rest
    else
      match pieces rest with
      | [] => [[c]]
      | piece :: others => (c :: piece) :: others

/-- What is left of the components of a path behind the directory that it is joined to. -/
def names (path : String) : List String :=
  (pieces path.toList).filterMap fun piece =>
    if piece = [] ∨ piece = ['.'] then none else some (String.ofList piece)

def components (path : String) : List String :=
  if (pieces path.toList).head? = some ['.'] then "." :: names path else names path

def isAbsolute (path : String) : Bool := path.toList.head? == some '/'

def join (base path : String) : String :=
  if isAbsolute path then path
  else if base = "" ∨ base.toList.getLast? = some '/' then base ++ path
  else base ++ "/" ++ path

def fileName? (path : String) : Option String :=
  match (components path).getLast? with
  | some ".." | some "." => none
  | name? => name?

def dropLastPiece (reversed : List Char) : List Char :=
  let trimmed := reversed.dropWhile (· == '/')
  let last := trimmed.takeWhile (· != '/')
  let rest := trimmed.drop last.length
  if last = ['.'] ∧ rest ≠ [] then (rest.dropWhile (· == '/')).dropWhile (· != '/') else rest

def parent (path : String) : String :=
  let rest := dropLastPiece path.toList.reverse
  let trimmed := rest.dropWhile (· == '/')
  String.ofList (if trimmed = [] then rest.take 1 else trimmed).reverse

end Phrasebook.Path

namespace Phrasebook

def FileKind.ofPath? (path : String) : Option FileKind := (Path.fileName? path).bind ofName?

end Phrasebook
