import Phrasebook.Text.Search
import Phrasebook.Php.Token

namespace Phrasebook.Php

def isSpace (c : Char) : Bool :=
  let n := c.toNat
  (9 ≤ n && n ≤ 13) || n == 0x20 || n == 0xA0 || n == 0x200B || n == 0x2060 || n == 0xFEFF

def isLabelStart (c : Char) : Bool :=
  c.isAlpha || c == '_' || (0x80 ≤ c.toNat && !isSpace c)

def isLabelChar (c : Char) : Bool := isLabelStart c || c.isDigit

/-- Names, unlike the labels of heredocs, end at a character beyond U+FFFF. -/
def isNameStart (c : Char) : Bool := isLabelStart c && c.toNat ≤ 0xFFFF

def isNameChar (c : Char) : Bool := isNameStart c || c.isDigit

/-- The character at which reading stops wherever it stands in code. -/
def nul : Char := '\x00'

/-- The length of the rest of a one-line comment. A question mark is taken together with the character after
it, unless it belongs to `?>` or ends the line. -/
def lineRest : List Char → Nat
  | [] => 0
  | '?' :: rest =>
    match rest with
    | '\n' :: _ => 2
    | '\r' :: '\n' :: _ => 3
    | c :: rest => if c = '>' ∨ c = '\r' ∨ c = nul then 0 else 2 + lineRest rest
    | [] => 0
  | c :: rest => if c = '\r' ∨ c = '\n' ∨ c = nul then 0 else 1 + lineRest rest

def comment? : List Char → Option Nat
  | '/' :: '/' :: rest => some (2 + lineRest rest)
  | '/' :: '*' :: rest =>
    match find? "*/".toList rest with
    | some n => if (rest.take n).contains nul then none else some (n + 4)
    | none => none
  | '#' :: rest =>
    match rest with
    | [] => some 1
    | c :: after =>
      if c = '[' then none
      else if c = '?' ∨ c = '\r' ∨ c = '\n' ∨ c = nul then some 1
      else some (2 + lineRest after)
  | _ => none

def tagLength (text : List Char) : Nat :=
  let rest := text.drop 2
  if ((rest.take 3).map Char.toLower) == "php".toList then 5
  else if begins "=".toList rest then 3
  else 2

/-- The length of the markup that a text begins with, up to and including an opening tag; `none` if the
markup holds a NUL. -/
def markupLength? (text : List Char) : Option Nat :=
  match find? "<?".toList text with
  | some n => if (text.take n).contains nul then none else some (n + tagLength (text.drop n))
  | none => if text.contains nul then none else some text.length

/-- The separator that a text begins with: its kind, and its length less one. -/
def separator? : List Char → Option (SkippedKind × Nat)
  | [] => none
  | c :: rest =>
    if isSpace c then some (.blank, 0)
    else if begins "?>".toList (c :: rest) then
      (markupLength? (rest.drop 1)).map fun n => (.markup, n + 1)
    else (comment? (c :: rest)).map fun n => (.comment, n - 1)

def separators (text : List Char) : List Skipped :=
  match text with
  | [] => []
  | c :: rest =>
    match separator? (c :: rest) with
    | none => []
    | some (kind, more) => ⟨kind, c :: rest.take more⟩ :: separators (rest.drop more)
termination_by text.length
decreasing_by simp only [List.length_cons, List.length_drop]; omega

end Phrasebook.Php
