import Phrasebook.Text.Digits
import Phrasebook.Php.Skipped

/-!
# From source to tokens

The lexer keeps a stack of `Frame`s: the strings and brackets that the current position lies in. Inside a
string it reads text up to the next substitution; inside code it skips separators and reads one lexeme.
`lex` ends with a token of kind `finish`.
-/

namespace Phrasebook.Php

/-! ## Numbers and words -/

def exponentLength (text : List Char) : Nat :=
  match text with
  | e :: rest =>
    if e = 'e' ∨ e = 'E' then
      let sign := match rest with
        | c :: _ => if c = '+' ∨ c = '-' then 1 else 0
        | [] => 0
      let digits := groupsLength Char.isDigit (rest.drop sign)
      if (rest.drop sign).head?.any Char.isDigit then 1 + sign + digits else 0
    else 0
  | [] => 0

def integerLength : List Char → Nat
  | '0' :: x :: rest =>
    if (x = 'x' ∨ x = 'X') ∧ rest.head?.any isHexDigit then 2 + groupsLength isHexDigit rest
    else if (x = 'b' ∨ x = 'B') ∧ rest.head?.any isBinaryDigit then 2 + groupsLength isBinaryDigit rest
    else if x = 'o' ∨ x = 'O' then 2 + groupsLength isOctalDigit rest
    else 1 + groupsLength isOctalDigit (x :: rest)
  | text => groupsLength Char.isDigit text

def floatLength (text : List Char) : Nat :=
  let whole := groupsLength Char.isDigit text
  match text.drop whole with
  | '.' :: rest =>
    let fraction := groupsLength Char.isDigit rest
    if whole + fraction = 0 then 0 else whole + 1 + fraction + exponentLength (rest.drop fraction)
  | rest => if exponentLength rest = 0 ∨ whole = 0 then 0 else whole + exponentLength rest

def numberLength (text : List Char) : Nat := max (integerLength text) (floatLength text)

/-! ## Symbols -/

def symbols : List (List Char) :=
  ["**=", "...", "<=>", "===", "!==", "<<=", ">>=", "??=", "?->",
   "=>", "->", "::", "++", "--", "&&", "||", "??", "==", "!=", "<>", "<=", ">=", "<<", ">>",
   "+=", "-=", "*=", "/=", ".=", "%=", "&=", "|=", "^=", "**", "|>", "#[",
   "+", "-", "*", "/", "%", "=", "<", ">", "!", ".", "(", ")", "[", "]", "\x7b", "\x7d", ",", ";",
   "?", ":", "&", "|", "^", "~", "@", "$", "\\"].map String.toList

/-! ## Strings -/

inductive Frame
  | braces
  | index
  | quoted (quote : Char)
  | heredoc (label : List Char)
  deriving DecidableEq, Repr

def inCode : List Frame → Bool
  | .quoted _ :: _ => false
  | .heredoc _ :: _ => false
  | _ => true

def substitution : List Char → Bool
  | '$' :: c :: _ => isLabelStart c || c == '{'
  | '{' :: '$' :: _ => true
  | _ => false

/-- The length of the text up to the next substitution or the closing quote. A backslash hides the character
after it. -/
def quotedLength (quote : Char) : List Char → Nat
  | [] => 0
  | c :: rest =>
    if c = quote ∨ substitution (c :: rest) then 0
    else if c = '\\' then
      match rest with
      | [] => 1
      | _ :: rest => 2 + quotedLength quote rest
    else 1 + quotedLength quote rest

def closesHeredoc (label text : List Char) : Bool :=
  begins label text && !(text.drop label.length).head?.any isLabelChar

def isIndent (c : Char) : Bool := c == ' ' || c == '\t'

/-- The length of the text up to the next substitution or the closing label of a heredoc, and whether it is
the label that ends it. The line break and the indentation before the label belong to the text. -/
def heredocLength (label : List Char) : List Char → Nat × Bool
  | [] => (0, false)
  | c :: rest =>
    if substitution (c :: rest) then (0, false)
    else
      let indent := (rest.takeWhile isIndent).length
      if (c = '\n' ∨ (c = '\r' ∧ rest.head? ≠ some '\n')) ∧
          closesHeredoc label (rest.drop indent) then (1 + indent, true)
      else if c = '\\' then
        match rest with
        | [] => (1, false)
        | x :: rest =>
          let (n, ended) := heredocLength label (if x = '\n' ∨ x = '\r' then x :: rest else rest)
          (n + (if x = '\n' ∨ x = '\r' then 1 else 2), ended)
      else
        let (n, ended) := heredocLength label rest
        (n + 1, ended)
termination_by text => text.length
decreasing_by all_goals grind

def nowdocLength (label : List Char) : List Char → Option Nat
  | [] => none
  | c :: rest =>
    let indent := (rest.takeWhile isIndent).length
    if (c = '\n' ∨ (c = '\r' ∧ rest.head? ≠ some '\n')) ∧
        closesHeredoc label (rest.drop indent) then some (1 + indent + label.length)
    else (nowdocLength label rest).map (· + 1)

/-- The header of a heredoc after `<<<`: its length, its label, and whether substitutions are read in it. A
line break has to follow the header. -/
def header? (text : List Char) : Option (Nat × List Char × Bool) :=
  let gap := (text.takeWhile isIndent).length
  let rest := text.drop gap
  let quote := match rest.head? with
    | some c => if c = '\'' ∨ c = '"' then [c] else []
    | none => []
  let label := (rest.drop quote.length).takeWhile isLabelChar
  let after := rest.drop (quote.length + label.length)
  let tail := after.drop quote.length
  let final := tail.drop (tail.takeWhile isIndent).length
  if label.head?.any isLabelStart ∧ begins quote after ∧
      (final.head?.any fun c => c = '\n' ∨ c = '\r') then
    some (gap + quote.length + label.length + quote.length, label, quote ≠ ['\''])
  else none

def singleLength : List Char → Option Nat
  | [] => none
  | c :: rest =>
    if c = '\'' then some 1
    else if c = nul then none
    else if c = '\\' then
      match rest with
      | [] => none
      | x :: rest => if x = nul then none else (singleLength rest).map (· + 2)
    else (singleLength rest).map (· + 1)

/-! ## One step -/

/-- The lexemes read at a position, the frames after them, and the number of characters they take less
one. -/
structure Reading where
  lexemes : List Lexeme
  frames : List Frame
  more : Nat

def Reading.one (kind : LexemeKind) (frames : List Frame) (count : Nat) (text : List Char) : Reading :=
  ⟨[⟨kind, text.take count⟩], frames, count - 1⟩

def framesAfter (symbol : List Char) (frames : List Frame) : List Frame :=
  if symbol = ['{'] then .braces :: frames
  else
    match frames with
    | .braces :: outer => if symbol = ['}'] then outer else frames
    | .index :: outer => if symbol = [']'] then outer else frames
    | _ => frames

def readSymbol (frames : List Frame) (text : List Char) : Reading :=
  match symbols.find? (begins · text) with
  | some symbol => ⟨[⟨.symbol, symbol⟩], framesAfter symbol frames, symbol.length - 1⟩
  | none => .one .stray frames 1 text

/-- Reads at a quote, `mark` being the length of the binary mark before it. -/
def readQuote (frames : List Frame) (mark : Nat) (text : List Char) : Reading :=
  match text.drop mark with
  | '\'' :: rest =>
    match singleLength rest with
    | some n => .one .single frames (mark + 1 + n) text
    | none => .one .stray frames (mark + 1) text
  | quote :: _ => .one .opener (.quoted quote :: frames) (mark + 1) text
  | [] => .one .stray frames 1 text

def readCode (frames : List Frame) (text : List Char) : Reading :=
  let name := text.takeWhile isNameChar
  if (text.head?.any isNameStart) then
    if (name = ['b'] ∨ name = ['B']) ∧
        ((text.drop 1).head?.any fun c => c = '\'' ∨ c = '"') then readQuote frames 1 text
    else .one .word frames name.length text
  else if 0 < numberLength text then .one .number frames (numberLength text) text
  else if begins ['\''] text ∨ begins ['"'] text ∨ begins ['\x60'] text then readQuote frames 0 text
  else if begins "<<<".toList text then
    match header? (text.drop 3) with
    | some (n, label, true) => .one .opener (.heredoc label :: frames) (3 + n) text
    | some (n, label, false) =>
      match nowdocLength label (text.drop (3 + n)) with
      | some m => .one .nowdoc frames (3 + n + m) text
      | none => .one .stray frames 1 text
    | none => readSymbol frames text
  else readSymbol frames text

def nameAt (text : List Char) : Lexeme :=
  if text.head?.any isNameStart then ⟨.word, text.takeWhile isNameChar⟩ else ⟨.stray, text.take 1⟩

def readVariable (frames : List Frame) (name : Lexeme) (tail : List Char) : Reading :=
  let named : List Lexeme := [⟨.symbol, ['$']⟩, name]
  if begins "[".toList tail then
    ⟨named ++ [⟨.symbol, ['[']⟩], .index :: frames, name.text.length + 1⟩
  else if begins "->".toList tail ∧ ((tail.drop 2).head?.any isLabelChar) then
    let property := nameAt (tail.drop 2)
    ⟨named ++ [⟨.symbol, "->".toList⟩, property], frames, name.text.length + 2 + property.text.length⟩
  else ⟨named, frames, name.text.length⟩

def readSubstitution (frames : List Frame) (text : List Char) : Reading :=
  match text with
  | '$' :: '{' :: _ => ⟨[⟨.symbol, ['$']⟩, ⟨.symbol, ['{']⟩], .braces :: frames, 1⟩
  | '{' :: _ => ⟨[⟨.symbol, ['{']⟩], .braces :: frames, 0⟩
  | _ => readVariable frames (nameAt (text.drop 1)) (text.drop (1 + (nameAt (text.drop 1)).text.length))

def read (frames : List Frame) (text : List Char) : Reading :=
  match frames with
  | .quoted quote :: outer =>
    if begins [quote] text then .one .closer outer 1 text
    else if substitution text then readSubstitution frames text
    else .one .chunk frames (quotedLength quote text) text
  | .heredoc label :: outer =>
    if substitution text then readSubstitution frames text
    else
      match heredocLength label text with
      | (n, true) =>
        ⟨[⟨.chunk, text.take n⟩, ⟨.closer, label⟩], outer, n + label.length - 1⟩
      | (n, false) => .one .chunk frames n text
  | _ => readCode frames text

def Reading.tokens (reading : Reading) (before : List Skipped) : List Token :=
  match reading.lexemes with
  | [] => []
  | first :: others => ⟨before, first⟩ :: others.map (⟨[], ·⟩)

def separatorsIn (frames : List Frame) (text : List Char) : List Skipped :=
  if inCode frames then separators text else []

def lengthOf (skipped : List Skipped) : Nat := (skipped.flatMap (·.text)).length

/-- The tokens of a text, `before` being separators already read. -/
def lexFrom (frames : List Frame) (before : List Skipped) (text : List Char) : List Token :=
  let gap := separatorsIn frames text
  match _h : text.drop (lengthOf gap) with
  | [] => [⟨before ++ gap, ⟨.finish, []⟩⟩]
  | c :: rest =>
    let reading := read frames (c :: rest)
    reading.tokens (before ++ gap) ++ lexFrom reading.frames [] (rest.drop reading.more)
termination_by text.length
decreasing_by
  have shorter := congrArg List.length _h
  simp only [List.length_drop, List.length_cons] at shorter ⊢
  omega

/-- The tokens of a file: markup up to the first opening tag, then code. -/
def lex (source : List Char) : List Token :=
  match markupLength? source with
  | some n => lexFrom [] [⟨.markup, source.take n⟩] (source.drop n)
  | none => [⟨[], ⟨.stray, source⟩⟩, ⟨[], ⟨.finish, []⟩⟩]

end Phrasebook.Php
