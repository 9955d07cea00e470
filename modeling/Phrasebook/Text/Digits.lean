namespace Phrasebook

def isHexDigit (c : Char) : Bool :=
  c.isDigit || ('a' ≤ c && c ≤ 'f') || ('A' ≤ c && c ≤ 'F')

def isOctalDigit (c : Char) : Bool := '0' ≤ c && c ≤ '7'

def isBinaryDigit (c : Char) : Bool := c == '0' || c == '1'

def digitValue (c : Char) : Nat := if c.isDigit then c.toNat - 0x30 else c.toNat % 32 + 9

def numeral (base : Nat) (digits : List Char) : Nat :=
  digits.foldl (fun n c => n * base + digitValue c) 0

def signedLimit : Nat := 0x8000000000000000

def groupsLength (digit : Char → Bool) : List Char → Nat
  | [] => 0
  | c :: rest =>
    if digit c then 1 + groupsLength digit rest
    else if c = '_' ∧ rest.head?.any digit then 1 + groupsLength digit rest
    else 0

end Phrasebook
