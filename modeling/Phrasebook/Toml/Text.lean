import Phrasebook.Text.Search
import Phrasebook.Text.Digits

namespace Phrasebook.Toml

def isBlankChar (c : Char) : Bool := c == ' ' || c == '\t'

def isPrintable (c : Char) : Bool := c == '\t' || (0x20 ≤ c.toNat && c.toNat != 0x7F)

def skipBlanks (text : List Char) : List Char := text.dropWhile isBlankChar

def newline? : List Char → Option (List Char)
  | '\n' :: rest => some rest
  | '\r' :: '\n' :: rest => some rest
  | _ => none

def skipComment (text : List Char) : List Char :=
  match skipBlanks text with
  | '#' :: rest => rest.dropWhile isPrintable
  | rest => rest

def skipLines (text : List Char) : (bound : Nat) → List Char
  | 0 => text
  | bound + 1 =>
    match newline? (skipComment text) with
    | some rest => skipLines rest bound
    | none => skipComment text

def hexChar? (count : Nat) (text : List Char) : Option Char :=
  let digits := text.take count
  let n := numeral 16 digits
  if digits.length = count ∧ digits.all isHexDigit ∧ n.isValidChar then some (Char.ofNat n) else none

/-- The character that the text after a backslash stands for, and the number of characters it takes. -/
def escape? : List Char → Option (Char × Nat)
  | 'b' :: _ => some ('\x08', 1)
  | 't' :: _ => some ('\t', 1)
  | 'n' :: _ => some ('\n', 1)
  | 'f' :: _ => some ('\x0c', 1)
  | 'r' :: _ => some ('\r', 1)
  | 'e' :: _ => some ('\x1b', 1)
  | '"' :: _ => some ('"', 1)
  | '\\' :: _ => some ('\\', 1)
  | 'x' :: rest => (hexChar? 2 rest).map (·, 3)
  | 'u' :: rest => (hexChar? 4 rest).map (·, 5)
  | 'U' :: rest => (hexChar? 8 rest).map (·, 9)
  | _ => none

def push (c : Char) (read : List Char × List Char) : List Char × List Char := (c :: read.1, read.2)

def basic? : List Char → Option (List Char × List Char)
  | [] => none
  | c :: rest =>
    if c = '"' then some ([], rest)
    else if c = '\\' then
      match escape? rest with
      | some (e, n) => (basic? (rest.drop n)).map (push e)
      | none => none
    else if isPrintable c then (basic? rest).map (push c)
    else none
termination_by text => text.length
decreasing_by all_goals simp only [List.length_cons, List.length_drop]; omega

def literal? : List Char → Option (List Char × List Char)
  | [] => none
  | c :: rest =>
    if c = '\'' then some ([], rest)
    else if isPrintable c then (literal? rest).map (push c)
    else none

/-- The end of a string of several lines: up to two quotes before the closing three belong to it. -/
def closing? (quote : Char) (text : List Char) : Option (List Char × List Char) :=
  let quotes := min 5 (text.takeWhile (· == quote)).length
  if 3 ≤ quotes then some (List.replicate (quotes - 3) quote, text.drop quotes) else none

def isMultilineChar (c : Char) (rest : List Char) : Bool :=
  isPrintable c || c == '\n' || (c == '\r' && rest.head? == some '\n')

def lineContinuation? (text : List Char) : Option Nat :=
  let gap := text.takeWhile fun c => isBlankChar c || c == '\n' || c == '\r'
  if (newline? (skipBlanks text)).isSome then some gap.length else none

def basicLines? : List Char → Option (List Char × List Char)
  | [] => none
  | c :: rest =>
    match closing? '"' (c :: rest) with
    | some read => some read
    | none =>
      if c = '\\' then
        match lineContinuation? rest with
        | some n => basicLines? (rest.drop n)
        | none =>
          match escape? rest with
          | some (e, n) => (basicLines? (rest.drop n)).map (push e)
          | none => none
      else if isMultilineChar c rest then (basicLines? rest).map (push c)
      else none
termination_by text => text.length
decreasing_by all_goals simp only [List.length_cons, List.length_drop]; omega

def literalLines? : List Char → Option (List Char × List Char)
  | [] => none
  | c :: rest =>
    match closing? '\'' (c :: rest) with
    | some read => some read
    | none => if isMultilineChar c rest then (literalLines? rest).map (push c) else none

def dropNewline (text : List Char) : List Char := (newline? text).getD text

def string? (text : List Char) : Option (List Char × List Char) :=
  if begins "\"\"\"".toList text then basicLines? (dropNewline (text.drop 3))
  else if begins "'''".toList text then literalLines? (dropNewline (text.drop 3))
  else
    match text with
    | '"' :: rest => basic? rest
    | '\'' :: rest => literal? rest
    | _ => none

def isBareChar (c : Char) : Bool := c.isAlphanum || c == '_' || c == '-'

def simpleKey? (text : List Char) : Option (String × List Char) :=
  match text with
  | '"' :: rest => (basic? rest).map fun (key, rest) => (String.ofList key, rest)
  | '\'' :: rest => (literal? rest).map fun (key, rest) => (String.ofList key, rest)
  | _ =>
    let key := text.takeWhile isBareChar
    if key.isEmpty then none else some (String.ofList key, text.drop key.length)

def key? (text : List Char) : (bound : Nat) → Option (List String × String × List Char)
  | 0 => none
  | bound + 1 => do
    let (key, rest) ← simpleKey? (skipBlanks text)
    match skipBlanks rest with
    | '.' :: rest => do
      let (path, last, rest) ← key? rest bound
      return (key :: path, last, rest)
    | rest => return ([], key, rest)

end Phrasebook.Toml
