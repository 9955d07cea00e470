namespace Phrasebook.Utf8

def encodeChar (c : Char) : List UInt8 := String.utf8EncodeChar c

def encode (text : List Char) : List UInt8 := text.flatMap encodeChar

def replacement : Char := '\uFFFD'

def isContinuation (b : UInt8) : Bool := 0x80 ≤ b && b ≤ 0xBF

/-- The range allowed for the byte after `lead`, the first byte of a sequence of three or four. The ends
rule out overlong forms, surrogates and code points above `10FFFF`. -/
def secondByteRange (lead : UInt8) : UInt8 × UInt8 :=
  if lead == 0xE0 then (0xA0, 0xBF)
  else if lead == 0xED then (0x80, 0x9F)
  else if lead == 0xF0 then (0x90, 0xBF)
  else if lead == 0xF4 then (0x80, 0x8F)
  else (0x80, 0xBF)

def codePoint (lead : Nat) (tail : List UInt8) : Nat :=
  tail.foldl (fun n b => n * 64 + (b.toNat - 0x80)) lead

/-- One step of reading: the character that the bytes begin with, `none` for an ill-formed beginning,
and the number of bytes, besides the first, that belong to it. -/
def next (lead : UInt8) (rest : List UInt8) : Option Char × Nat :=
  if lead < 0x80 then (some (Char.ofNat lead.toNat), 0)
  else if 0xC2 ≤ lead && lead ≤ 0xDF then
    match rest with
    | b :: _ =>
      if isContinuation b then (some (Char.ofNat (codePoint (lead.toNat - 0xC0) [b])), 1) else (none, 0)
    | [] => (none, 0)
  else if 0xE0 ≤ lead && lead ≤ 0xF4 then
    let (low, high) := secondByteRange lead
    match rest with
    | b :: rest =>
      if low ≤ b && b ≤ high then
        match rest with
        | b₂ :: rest =>
          if isContinuation b₂ then
            if lead < 0xF0 then
              (some (Char.ofNat (codePoint (lead.toNat - 0xE0) [b, b₂])), 2)
            else
              match rest with
              | b₃ :: _ =>
                if isContinuation b₃ then
                  (some (Char.ofNat (codePoint (lead.toNat - 0xF0) [b, b₂, b₃])), 3)
                else (none, 2)
              | [] => (none, 2)
          else (none, 1)
        | [] => (none, 1)
      else (none, 0)
    | [] => (none, 0)
  else (none, 0)

/-- The text that the bytes spell, with a replacement character for each ill-formed stretch. -/
def decodeLossy : List UInt8 → List Char
  | [] => []
  | lead :: rest =>
    let (c?, used) := next lead rest
    c?.getD replacement :: decodeLossy (rest.drop used)
termination_by bytes => bytes.length
decreasing_by simp only [List.length_cons, List.length_drop]; omega

def decode? : List UInt8 → Option (List Char)
  | [] => some []
  | lead :: rest =>
    match next lead rest with
    | (some c, used) => (decode? (rest.drop used)).map (c :: ·)
    | (none, _) => none
termination_by bytes => bytes.length
decreasing_by simp only [List.length_cons, List.length_drop]; omega

end Phrasebook.Utf8
