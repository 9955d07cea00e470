import Phrasebook.Text.Blank

namespace Phrasebook.Pattern

inductive Part
  | char (c : Char)
  | one
  | many
  deriving DecidableEq, Repr

/-- The parts of a pattern; `none` if it ends in a backslash that takes nothing. -/
def parts? : List Char → Option (List Part)
  | [] => some []
  | c :: rest =>
    if c = '\\' then
      match rest with
      | [] => none
      | d :: rest => (parts? rest).map (.char d :: ·)
    else (parts? rest).map ((if c = '%' then .many else if c = '_' then .one else .char c) :: ·)

/-- A character as it is compared. The last two characters of the first plane are read as the replacement
character. -/
def compared (c : Char) : Char := if c = '\uFFFE' ∨ c = '\uFFFF' then '\uFFFD' else lowerAscii c

def fits : List Part → List Char → Bool
  | [], text => text.isEmpty
  | .char _ :: _, [] => false
  | .char c :: parts, d :: text => compared c == compared d && fits parts text
  | .one :: _, [] => false
  | .one :: parts, _ :: text => fits parts text
  | .many :: parts, text => (List.range (text.length + 1)).any fun n => fits parts (text.drop n)

def beforeNul (text : List Char) : List Char := text.takeWhile (· ≠ '\x00')

def selects (pattern text : List Char) : Bool := (parts? (beforeNul pattern)).any (fits · (beforeNul text))

def escape (text : List Char) : List Char :=
  text.flatMap fun c => if c ∈ ['%', '_', '\\'] then ['\\', c] else [c]

end Phrasebook.Pattern
