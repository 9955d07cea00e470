import Phrasebook.Text.Digits

namespace Phrasebook

def field? (count high : Nat) (text : List Char) : Option (Nat × List Char) :=
  let digits := text.take count
  if digits.length = count ∧ digits.all Char.isDigit ∧ numeral 10 digits ≤ high then
    some (numeral 10 digits, text.drop count)
  else none

def after? (c : Char) (text : List Char) : Option (List Char) :=
  if text.head? = some c then some (text.drop 1) else none

def daysIn (year month : Nat) : Nat :=
  if month = 2 then
    if (year % 4 = 0 ∧ year % 100 ≠ 0) ∨ year % 400 = 0 then 29 else 28
  else if month ∈ [4, 6, 9, 11] then 30 else 31

end Phrasebook
