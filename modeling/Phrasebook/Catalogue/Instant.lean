import Phrasebook.Text.Fields

namespace Phrasebook

structure Instant where
  seconds : Int
  nanos : Nat
  deriving DecidableEq, Repr

namespace Instant

/-- The number of days from the beginning of 1970 to a date. The year is taken to begin in March, so that the
leap day comes last. -/
def daysOfDate (year : Int) (month day : Nat) : Int :=
  let y := if month ≤ 2 then year - 1 else year
  let m : Int := (month + 9) % 12
  365 * y + y / 4 - y / 100 + y / 400 + (153 * m + 2) / 5 + day - 1 - 719468

def dateOfDays (days : Int) : Int × Nat × Nat :=
  let z := days + 719468
  let era := z / 146097
  let dayOfEra := z % 146097
  let yearOfEra := (dayOfEra - dayOfEra / 1460 + dayOfEra / 36524 - dayOfEra / 146096) / 365
  let dayOfYear := dayOfEra - (365 * yearOfEra + yearOfEra / 4 - yearOfEra / 100)
  let m := (5 * dayOfYear + 2) / 153
  let day := dayOfYear - (153 * m + 2) / 5 + 1
  let month := if m < 10 then m + 3 else m - 9
  (yearOfEra + era * 400 + (if month ≤ 2 then 1 else 0), month.toNat, day.toNat)

def padded (width n : Nat) : String :=
  let digits := toString n
  "".pushn '0' (width - digits.length) ++ digits

def fraction (nanos : Nat) : String :=
  if nanos = 0 then ""
  else if nanos % 1000000 = 0 then "." ++ padded 3 (nanos / 1000000)
  else if nanos % 1000 = 0 then "." ++ padded 6 (nanos / 1000)
  else "." ++ padded 9 nanos

def toText (t : Instant) : String :=
  let (year, month, day) := dateOfDays (t.seconds / 86400)
  let second := (t.seconds % 86400).toNat
  let leap := t.nanos / 1000000000
  padded 4 year.toNat ++ "-" ++ padded 2 month ++ "-" ++ padded 2 day ++ "T" ++
    padded 2 (second / 3600) ++ ":" ++ padded 2 (second / 60 % 60) ++ ":" ++ padded 2 (second % 60 + leap) ++
    fraction (t.nanos % 1000000000) ++ "Z"

def readFraction (text : List Char) : Nat × List Char :=
  match text with
  | '.' :: rest =>
    let digits := rest.takeWhile Char.isDigit
    (numeral 10 ((digits ++ List.replicate 9 '0').take 9), rest.drop digits.length)
  | _ => (0, text)

def readOffset? (text : List Char) : Option Int :=
  match text with
  | ['Z'] => some 0
  | ['z'] => some 0
  | c :: rest => do
    let (hours, rest) ← field? 2 23 rest
    let (minutes, rest) ← field? 2 59 (← after? ':' rest)
    let total : Int := hours * 60 + minutes
    if rest ≠ [] then none
    else if c = '+' then some total
    else if c = '-' then some (-total)
    else none
  | [] => none

def ofText? (text : String) : Option Instant := do
  let (year, rest) ← field? 4 9999 text.toList
  let (month, rest) ← field? 2 12 (← after? '-' rest)
  let (day, rest) ← field? 2 (daysIn year month) (← after? '-' rest)
  let (hour, rest) ← field? 2 23 (rest.drop 1)
  let (minute, rest) ← field? 2 59 (← after? ':' rest)
  let (second, rest) ← field? 2 60 (← after? ':' rest)
  let (nanos, rest) := readFraction rest
  let offset ← readOffset? rest
  let clock : Int := hour * 3600 + minute * 60 + min second 59
  let leap := if second = 60 then 1000000000 else 0
  return ⟨daysOfDate year month day * 86400 + clock - offset * 60, nanos + leap⟩

end Instant

end Phrasebook
