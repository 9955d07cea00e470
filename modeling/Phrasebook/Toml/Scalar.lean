import Phrasebook.Toml.Value
import Phrasebook.Text.Blank
import Phrasebook.Text.Fields

namespace Phrasebook.Toml

def plainDigits? (digit : Char → Bool) (text : List Char) : Option (List Char) :=
  if text.head?.any digit ∧ groupsLength digit text = text.length then some (text.filter (· != '_'))
  else none

def sign (text : List Char) : Bool × List Char :=
  match text with
  | '-' :: rest => (true, rest)
  | '+' :: rest => (false, rest)
  | _ => (false, text)

def decimal? (text : List Char) : Option (List Char) :=
  if text.head? = some '0' ∧ 1 < text.length then none else plainDigits? Char.isDigit text

/-- The digits of an integer with their base and sign. -/
def integerParts? (text : List Char) : Option (Bool × Nat × List Char) :=
  match text with
  | '0' :: 'x' :: rest => (plainDigits? isHexDigit rest).map (false, 16, ·)
  | '0' :: 'o' :: rest => (plainDigits? isOctalDigit rest).map (false, 8, ·)
  | '0' :: 'b' :: rest => (plainDigits? isBinaryDigit rest).map (false, 2, ·)
  | _ => (decimal? (sign text).2).map ((sign text).1, 10, ·)

def integer? (text : List Char) : Option Int := do
  let (negative, base, digits) ← integerParts? text
  let n : Int := numeral base digits
  let value := if negative then -n else n
  if -signedLimit ≤ value ∧ value < signedLimit then some value else none

def exponent? (text : List Char) : Option (Int × List Char) :=
  let mantissa := text.takeWhile fun c => c != 'e' && c != 'E'
  match text.drop mantissa.length with
  | [] => some (0, mantissa)
  | _ :: rest =>
    (plainDigits? Char.isDigit (sign rest).2).map fun digits =>
      let n : Int := numeral 10 digits
      (if (sign rest).1 then -n else n, mantissa)

/-- Whether `m * 10 ^ e` is too large for a float of 64 bits, even after rounding. The first two cases decide
extreme exponents without computing the power. -/
def overflows (m : Nat) (e : Int) : Bool :=
  let size : Int := Nat.log2 m
  if m = 0 ∨ e + size + 1 < 0 then false
  else if 400 < e + size / 4 then true
  else if e < 0 then
    Nat.pow 2 1024 * Nat.pow 10 e.natAbs ≤ m + Nat.pow 2 970 * Nat.pow 10 e.natAbs
  else Nat.pow 2 1024 ≤ m * Nat.pow 10 e.natAbs + Nat.pow 2 970

def isFloat (text : List Char) : Bool :=
  let unsigned := (sign text).2
  if unsigned = "inf".toList ∨ unsigned = "nan".toList then true
  else
    match exponent? unsigned with
    | none => false
    | some (e, mantissa) =>
      let whole := mantissa.takeWhile (· != '.')
      match decimal? whole, mantissa.drop whole.length with
      | some w, [] => mantissa.length != unsigned.length && !overflows (numeral 10 w) e
      | some w, _ :: rest =>
        match plainDigits? Char.isDigit rest with
        | some fraction => !overflows (numeral 10 (w ++ fraction)) (e - fraction.length)
        | none => false
      | none, _ => false

def date? (text : List Char) : Option (List Char) := do
  let (year, rest) ← field? 4 9999 text
  let (month, rest) ← field? 2 12 (← after? '-' rest)
  let (day, rest) ← field? 2 (daysIn year month) (← after? '-' rest)
  if month = 0 ∨ day = 0 then none else some rest

def fraction? (text : List Char) : Option (List Char × List Char) :=
  match text with
  | '.' :: rest =>
    let digits := rest.takeWhile Char.isDigit
    let places := dropTrailing (· == '0') (digits.take 9)
    if digits.isEmpty then none
    else some (if places.isEmpty then [] else '.' :: places, rest.drop digits.length)
  | _ => some ([], text)

def time? (text : List Char) : Option (List Char × List Char) := do
  let (_, rest) ← field? 2 23 text
  let (_, rest) ← field? 2 59 (← after? ':' rest)
  match rest with
  | ':' :: rest => do
    let (_, rest) ← field? 2 60 rest
    let (fraction, rest) ← fraction? rest
    return (text.take 8 ++ fraction, rest)
  | _ => some (text.take 5 ++ ":00".toList, rest)

def offset? (text : List Char) : Option (List Char) :=
  match text with
  | [] => some []
  | c :: rest =>
    if c = 'Z' ∨ c = 'z' then
      if rest.isEmpty then some ['Z'] else none
    else if c = '+' ∨ c = '-' then do
      let (hours, rest) ← field? 2 24 rest
      let (minutes, rest) ← field? 2 59 (← after? ':' rest)
      if hours * 60 + minutes ≤ 24 * 60 ∧ rest.isEmpty then
        some (if hours + minutes = 0 then "+00:00".toList else text)
      else none
    else none

/-- The date, the time, or both with an optional offset, that a word stands for, in one way of writing it. -/
def datetime? (text : List Char) : Option (List Char) :=
  match date? text with
  | some [] => some text
  | some (c :: rest) =>
    if c = 'T' ∨ c = 't' ∨ c = ' ' then do
      let (time, rest) ← time? rest
      let offset ← offset? rest
      return text.take 10 ++ 'T' :: time ++ offset
    else none
  | none =>
    match time? text with
    | some (time, []) => some time
    | _ => none

def isWordChar (c : Char) : Bool :=
  c.isAlphanum || c == '+' || c == '-' || c == '_' || c == '.' || c == ':'

/-- The word that a text begins with. A time may follow a date after one space. -/
def word (text : List Char) : List Char :=
  let first := text.takeWhile isWordChar
  match text.drop first.length with
  | ' ' :: rest =>
    if date? first = some [] ∧ rest.head?.any Char.isDigit then
      first ++ ' ' :: rest.takeWhile isWordChar
    else first
  | _ => first

def scalar? (text : List Char) : Option Value :=
  if text = "true".toList then some (.boolean true)
  else if text = "false".toList then some (.boolean false)
  else
    match integer? text with
    | some n => some (.integer n)
    | none =>
      if (integerParts? text).isSome then none
      else if isFloat text then some (.float (String.ofList text))
      else (datetime? text).map fun text => .datetime (String.ofList text)

end Phrasebook.Toml
