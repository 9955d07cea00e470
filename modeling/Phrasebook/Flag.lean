import Phrasebook.Config.Error
import Phrasebook.Text.Blank
import Phrasebook.Text.Digits

namespace Phrasebook.Flag

def digits? (cs : List Char) : Option Nat :=
  if cs.isEmpty || !cs.all Char.isDigit then none
  else some (numeral 10 cs)

def integer? (cs : List Char) : Option Int :=
  match cs with
  | '-' :: ds => (digits? ds).bind fun n => if n ≤ signedLimit then some (-(n : Int)) else none
  | '+' :: ds => (digits? ds).bind fun n => if n < signedLimit then some (n : Int) else none
  | ds => (digits? ds).bind fun n => if n < signedLimit then some (n : Int) else none

def parse? (text : String) : Option Bool :=
  let word := (trimBlanks text.toList).map lowerAscii
  if word ∈ ["true".toList, "yes".toList, "on".toList] then some true
  else if word ∈ ["false".toList, "no".toList, "off".toList] then some false
  else (integer? word).map (· != 0)

def parse (text : String) : Except SettingError Bool :=
  match parse? text with
  | some value => .ok value
  | none => .error (.invalidFlag text)

end Phrasebook.Flag
