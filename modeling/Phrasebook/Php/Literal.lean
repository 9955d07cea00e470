import Phrasebook.Text.Utf8
import Phrasebook.Php.Lexer
import Phrasebook.Php.Tree

namespace Phrasebook.Php

def unquote? (quote : Char) (text : List Char) : Option (List Char) :=
  let quoted := if begins ['b'] text ∨ begins ['B'] text then text.drop 1 else text
  match quoted with
  | c :: inner =>
    if c = quote ∧ inner.getLast? = some quote then some inner.dropLast else none
  | [] => none

def decodeSingle : List Char → List Char
  | [] => []
  | [c] => [c]
  | c :: next :: rest =>
    if c = '\\' ∧ (next = '\\' ∨ next = '\'') then next :: decodeSingle rest
    else c :: decodeSingle (next :: rest)

def byteOf (c : Char) : UInt8 := UInt8.ofNat c.toNat

def simpleEscapes (inHeredoc : Bool) : List (UInt8 × UInt8) :=
  [(byteOf 'n', 0x0A), (byteOf 't', 0x09), (byteOf 'r', 0x0D), (byteOf 'v', 0x0B), (byteOf 'e', 0x1B),
    (byteOf 'f', 0x0C), (byteOf '\\', 0x5C), (byteOf '$', 0x24)] ++
  if inHeredoc then [] else [(byteOf '"', 0x22)]

def charOf (b : UInt8) : Char := Char.ofNat b.toNat

def isOctalByte (b : UInt8) : Bool := isOctalDigit (charOf b)

def isHexByte (b : UInt8) : Bool := isHexDigit (charOf b)

def byteNumeral (base : Nat) (digits : List UInt8) : Nat := numeral base (digits.map charOf)

/-- The code point between braces that a text begins with, as bytes, and the length with the braces. -/
def codePoint? (bytes : List UInt8) : Option (List UInt8 × Nat) :=
  match bytes with
  | [] => none
  | opening :: rest =>
    let digits := rest.takeWhile isHexByte
    let n := byteNumeral 16 digits
    if opening = byteOf '{' ∧ digits ≠ [] ∧ (rest.drop digits.length).head? = some (byteOf '}') ∧
        n.isValidChar then
      some (Utf8.encodeChar (Char.ofNat n), digits.length + 2)
    else none

/-- What the bytes after a backslash stand for, and how many of them belong to the escape. -/
def escape? (inHeredoc : Bool) (bytes : List UInt8) : Option (List UInt8 × Nat) :=
  match bytes with
  | [] => none
  | letter :: rest =>
    match (simpleEscapes inHeredoc).lookup letter with
    | some byte => some ([byte], 1)
    | none =>
      if isOctalByte letter then
        let digits := (bytes.take 3).takeWhile isOctalByte
        some ([UInt8.ofNat (byteNumeral 8 digits)], digits.length)
      else if letter = byteOf 'x' ∧ rest.head?.any isHexByte then
        let digits := (rest.take 2).takeWhile isHexByte
        some ([UInt8.ofNat (byteNumeral 16 digits)], digits.length + 1)
      else if letter = byteOf 'u' then (codePoint? rest).map fun (code, n) => (code, n + 1)
      else none

/-- Bytes with their escapes replaced. A backslash that begins none stays. -/
def unescape (inHeredoc : Bool) : List UInt8 → List UInt8
  | [] => []
  | b :: rest =>
    if b = byteOf '\\' then
      match escape? inHeredoc rest with
      | some (bytes, n) => bytes ++ unescape inHeredoc (rest.drop n)
      | none => b :: unescape inHeredoc rest
    else b :: unescape inHeredoc rest
termination_by bytes => bytes.length
decreasing_by all_goals simp only [List.length_cons, List.length_drop]; omega

def decodeDouble (inHeredoc : Bool) (text : List Char) : List Char :=
  Utf8.decodeLossy (unescape inHeredoc (Utf8.encode text))

def lines : List Char → List (List Char)
  | [] => [[]]
  | c :: rest =>
    if c = '\n' then [] :: lines rest
    else
      match lines rest with
      | [] => [[c]]
      | line :: others => (c :: line) :: others

def unindent (width : Nat) (line : List Char) : List Char :=
  line.drop (min width (line.takeWhile isIndent).length)

def dropReturn (text : List Char) : List Char :=
  if text.getLast? = some '\r' then text.dropLast else text

/-- The body of a heredoc, given all of it from its header to its closing label. -/
def heredocBody? (text : List Char) : Option (List Char) :=
  match lines text with
  | _header :: line :: others =>
    let body := (line :: others).dropLast
    let closing := (line :: others).getLast (by simp)
    let raw := dropReturn (['\n'].intercalate body)
    some (['\n'].intercalate ((lines raw).map (unindent (closing.takeWhile isIndent).length)))
  | _ => none

def isPlainPart : Node → Bool
  | .leaf _ => true
  | _ => false

def literal? (node : Node) : Option (List Char) :=
  match node with
  | .branch .string _ => (unquote? '\'' node.text).map decodeSingle
  | .branch .encapsed parts =>
    if parts.all isPlainPart then (unquote? '"' node.text).map (decodeDouble false) else none
  | .branch .nowdoc _ => heredocBody? node.text
  | .branch .heredoc parts =>
    if parts.all isPlainPart then (heredocBody? node.text).map (decodeDouble true) else none
  | _ => none

end Phrasebook.Php
