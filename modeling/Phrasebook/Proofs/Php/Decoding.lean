import Mathlib.Algebra.Group.Nat.Defs
import Phrasebook.Proofs.Php.Escapes
import Phrasebook.Proofs.Text.Offsets

namespace Phrasebook.Php

open Utf8

section Radix

variable {radix : Nat} {b : UInt8} {digits : List UInt8} {c : Char}

def greatest : Nat := 2 ^ 32 - 1

def saturate (n : Nat) : UInt32 := UInt32.ofNat (min n greatest)

def radixDigit? (radix : Nat) (c : Char) : Option Nat :=
  if c.isAlphanum ∧ digitValue c < radix then some (digitValue c) else none

/-- A byte that is no digit counts as zero. -/
def parseRadix (radix : Nat) (digits : List UInt8) : UInt32 :=
  digits.foldl (fun n b =>
    saturate ((saturate (n.toNat * radix)).toNat + (radixDigit? radix (charOf b)).getD 0)) 0

def radixValue (radix : Nat) (digits : List UInt8) : Nat :=
  digits.foldl (fun n b => n * radix + (radixDigit? radix (charOf b)).getD 0) 0

theorem toNat_saturate (n : Nat) : (saturate n).toNat = min n greatest := by
  rw [saturate, UInt32.toNat_ofNat', Nat.mod_eq_of_lt]
  exact Nat.lt_of_le_of_lt (Nat.min_le_right n greatest) (by decide)

theorem saturated_step (n d : Nat) :
    min (min (min n greatest * radix) greatest + d) greatest = min (n * radix + d) greatest := by
  rcases Nat.eq_zero_or_pos radix with rfl | positive
  · simp
  rcases Nat.le_total n greatest with small | great
  · rw [Nat.min_eq_left small]
    omega
  · have first : greatest ≤ greatest * radix := Nat.le_mul_of_pos_right _ positive
    have second : greatest ≤ n * radix := great.trans (Nat.le_mul_of_pos_right _ positive)
    rw [Nat.min_eq_right great]
    omega

theorem toNat_parseRadix (radix : Nat) (digits : List UInt8) :
    (parseRadix radix digits).toNat = min (radixValue radix digits) greatest := by
  apply List.foldl_rel (r := fun word n => UInt32.toNat word = min n greatest) rfl
  intro b _ word n same
  rw [toNat_saturate, toNat_saturate, same, saturated_step]

theorem radixDigit?_hex (digit : isHexDigit c = true) : radixDigit? 16 c = some (digitValue c) := by
  have all : ∀ n : Fin 128, isHexDigit (Char.ofNat n) = true →
      (Char.ofNat n).isAlphanum = true ∧ digitValue (Char.ofNat n) < 16 := by decide
  have here := all ⟨c.toNat, isAsciiClass_hex c digit⟩
  rw [Char.ofNat_toNat] at here
  exact if_pos (here digit)

theorem radixDigit?_octal (digit : isOctalDigit c = true) : radixDigit? 8 c = some (digitValue c) := by
  have all : ∀ n : Fin 128, isOctalDigit (Char.ofNat n) = true →
      (Char.ofNat n).isAlphanum = true ∧ digitValue (Char.ofNat n) < 8 := by decide
  have here := all ⟨c.toNat, isAsciiClass_octal c digit⟩
  rw [Char.ofNat_toNat] at here
  exact if_pos (here digit)

theorem lt_of_radixDigit? {value : Nat} (digit : radixDigit? radix c = some value) : value < radix := by
  rw [radixDigit?] at digit
  split at digit
  · rename_i small
    cases digit
    exact small.2
  · cases digit

theorem radixValue_eq (all : ∀ b ∈ digits, radixDigit? radix (charOf b) = some (digitValue (charOf b))) :
    radixValue radix digits = byteNumeral radix digits := by
  rw [radixValue, byteNumeral, numeral, List.foldl_map]
  exact List.foldl_ext _ _ 0 fun n b mem => by rw [all b mem, Option.getD_some]

theorem byteNumeral_lt (small : ∀ b ∈ digits, digitValue (charOf b) < radix) :
    byteNumeral radix digits < radix ^ digits.length := by
  have from_any (n : Nat) : digits.foldl (fun n b => n * radix + digitValue (charOf b)) n <
      (n + 1) * radix ^ digits.length := by
    induction digits generalizing n with
    | nil => simp
    | cons b digits ih =>
        rw [List.forall_mem_cons] at small
        have step : n * radix + digitValue (charOf b) + 1 ≤ (n + 1) * radix := by
          rw [Nat.add_mul, Nat.one_mul]
          omega
        rw [List.length_cons, Nat.pow_succ', ← Nat.mul_assoc]
        exact (ih small.2 _).trans_le (Nat.mul_le_mul_right _ step)
  rw [byteNumeral, numeral, List.foldl_map]
  simpa using from_any 0

end Radix

section Parts

variable {front inside back : List UInt8}

def byteAt (bytes : List UInt8) (i : Nat) : Checked UInt8 :=
  match bytes[i]? with
  | some b => .ok b
  | none => .error (.index i)

def part (bytes : List UInt8) (start stop : Nat) : Checked (List UInt8) :=
  if start ≤ stop ∧ stop ≤ bytes.length then .ok ((bytes.take stop).drop start) else .error (.slice start stop)

theorem byteAt_front (front : List UInt8) (b : UInt8) (back : List UInt8) :
    byteAt (front ++ b :: back) front.length = .ok b := by
  rw [byteAt, List.getElem?_append_right (Nat.le_refl _), Nat.sub_self]
  rfl

theorem part_between (front inside back : List UInt8) :
    part (front ++ (inside ++ back)) front.length (front.length + inside.length) = .ok inside := by
  have within : front.length + inside.length ≤ (front ++ (inside ++ back)).length := by
    rw [List.length_append, List.length_append]
    omega
  rw [part, if_pos ⟨Nat.le_add_right _ _, within⟩, List.take_length_add_append, List.take_left, List.drop_left]

theorem part_behind (front back : List UInt8) :
    part (front ++ back) front.length (front ++ back).length = .ok back := by
  have all := part_between front back []
  rwa [List.append_nil, ← List.length_append] at all

end Parts

structure Decoder where
  index : Nat
  out : List UInt8
  deriving DecidableEq, Repr

def character? (value : UInt32) : Option Char :=
  if value.toNat.isValidChar then some (Char.ofNat value.toNat) else none

namespace Decoder

def start : Decoder := ⟨0, []⟩

section Turns

variable (bytes : List UInt8) (decoder : Decoder)

def keep (b : UInt8) : Decoder := ⟨decoder.index + 1, decoder.out ++ [b]⟩

def number (radix most : Nat) (isDigit : UInt8 → Bool) (first : Nat) : Checked Decoder := do
  let behind ← part bytes first bytes.length
  let count := ((behind.take most).takeWhile isDigit).length
  let digits ← part bytes first (first + count)
  return ⟨first + count, decoder.out ++ [(parseRadix radix digits &&& 0xFF).toUInt8]⟩

def braced : Checked Decoder := do
  let behind ← part bytes (decoder.index + 3) bytes.length
  match behind.findIdx? (· == byteOf '\x7d') with
  | none => return decoder.keep (byteOf '\\')
  | some n =>
    let digits ← part bytes (decoder.index + 3) (decoder.index + 3 + n)
    match if digits ≠ [] ∧ digits.all isHexByte then character? (parseRadix 16 digits) else none with
    | some c => return ⟨decoder.index + 3 + n + 1, decoder.out ++ encodeChar c⟩
    | none => return decoder.keep (byteOf '\\')

def escape (inHeredoc : Bool) : Checked Decoder := do
  let next ← byteAt bytes (decoder.index + 1)
  match (simpleEscapes inHeredoc).lookup next with
  | some b => return ⟨decoder.index + 2, decoder.out ++ [b]⟩
  | none =>
    if isOctalByte next then decoder.number bytes 8 3 isOctalByte (decoder.index + 1)
    else if next = byteOf 'x' ∧ bytes[decoder.index + 2]?.any isHexByte then
      decoder.number bytes 16 2 isHexByte (decoder.index + 2)
    else if next = byteOf 'u' ∧ bytes[decoder.index + 2]? = some (byteOf '\x7b') then decoder.braced bytes
    else return decoder.keep (byteOf '\\')

def turn (inHeredoc : Bool) : Checked Decoder := do
  let first ← byteAt bytes decoder.index
  if first ≠ byteOf '\\' ∨ bytes.length ≤ decoder.index + 1 then return decoder.keep first
  else decoder.escape bytes inHeredoc

def run (inHeredoc : Bool) (turns : Nat) : Checked Decoder :=
  loop index bytes.length (turn bytes · inHeredoc) turns decoder

end Turns

section Turns

variable {inHeredoc : Bool} {front rest out digits : List UInt8} {radix most : Nat} {isDigit : UInt8 → Bool}

theorem number_eq (value : ∀ b, isDigit b = true → radixDigit? radix (charOf b) = some (digitValue (charOf b)))
    (positive : 1 ≤ radix) (fits : radix ^ most ≤ greatest) (front rest out : List UInt8) (index : Nat) :
    number (front ++ rest) ⟨index, out⟩ radix most isDigit front.length =
      .ok ⟨front.length + ((rest.take most).takeWhile isDigit).length,
        out ++ [UInt8.ofNat (byteNumeral radix ((rest.take most).takeWhile isDigit))]⟩ := by
  rw [number, part_behind, ok_bind]
  have short := (List.takeWhile_prefix isDigit (l := rest.take most)).length_le.trans (List.length_take_le _ _)
  have all := List.all_eq_true.1 (List.all_takeWhile (p := isDigit) (l := rest.take most))
  have lead := (List.takeWhile_prefix isDigit).trans (List.take_prefix most rest)
  generalize (rest.take most).takeWhile isDigit = digits at short all lead ⊢
  obtain ⟨back, rfl⟩ := lead
  have below : byteNumeral radix digits ≤ greatest := by
    have small : ∀ b ∈ digits, digitValue (charOf b) < radix := fun b mem => lt_of_radixDigit? (value b (all b mem))
    exact (byteNumeral_lt small).le.trans ((Nat.pow_le_pow_right positive short).trans fits)
  have low : (parseRadix radix digits &&& 0xFF).toUInt8 = UInt8.ofNat (byteNumeral radix digits) := by
    rw [← UInt8.toNat_inj, UInt32.toNat_toUInt8, UInt32.toNat_and, toNat_parseRadix,
      radixValue_eq fun b mem => value b (all b mem), Nat.min_eq_left below, UInt8.toNat_ofNat',
      show UInt32.toNat 0xFF = 2 ^ 8 - 1 from rfl, Nat.and_two_pow_sub_one_eq_mod, Nat.mod_mod]
  dsimp only
  rw [part_between, ok_bind, low]
  rfl

theorem character?_parseRadix (digits : List UInt8) :
    character? (parseRadix 16 digits) =
      if (radixValue 16 digits).isValidChar then some (Char.ofNat (radixValue 16 digits)) else none := by
  rw [character?, toNat_parseRadix]
  rcases Nat.le_total (radixValue 16 digits) greatest with small | great
  · rw [Nat.min_eq_left small]
  · have beyond (n : Nat) (great : greatest ≤ n) : ¬ n.isValidChar := by
      simp only [greatest] at great
      rintro (low | ⟨-, high⟩) <;> omega
    rw [Nat.min_eq_right great, if_neg (beyond _ (Nat.le_refl _)), if_neg (beyond _ great)]

theorem codePoint?_brace (rest : List UInt8) :
    codePoint? (byteOf '\x7b' :: rest) =
      match rest.findIdx? (· == byteOf '\x7d') with
      | none => none
      | some n =>
        (if rest.take n ≠ [] ∧ (rest.take n).all isHexByte then character? (parseRadix 16 (rest.take n)) else none).map
          fun c => (encodeChar c, n + 2) := by
  rw [codePoint?]
  -- The decoder looks for the brace first and for digits before it; the definition takes digits and looks for the
  -- brace behind them.
  cases found : rest.findIdx? (· == byteOf '\x7d') with
  | none =>
      have noBrace : byteOf '\x7d' ∉ rest := by
        intro mem
        simpa using List.findIdx?_eq_none_iff.1 found _ mem
      refine if_neg fun closed => noBrace ?_
      exact List.mem_of_mem_drop (List.mem_of_head? closed.2.2.1)
  | some n =>
      obtain ⟨inside, b, after, rfl, rfl, closing, others⟩ := exists_cut found
      obtain rfl : b = byteOf '\x7d' := by simpa using closing
      dsimp only
      rw [List.take_left]
      cases stop : inside.findIdx? (fun b => !isHexByte b) with
      | none =>
          have hex : ∀ b ∈ inside, isHexByte b = true := by simpa using List.findIdx?_eq_none_iff.1 stop
          have digits : (inside ++ byteOf '\x7d' :: after).takeWhile isHexByte = inside :=
            takeWhile_append_of_head (List.all_eq_true.2 hex) rfl
          have value : radixValue 16 inside = byteNumeral 16 inside :=
            radixValue_eq fun b mem => radixDigit?_hex (hex b mem)
          rw [digits, List.drop_left, List.head?_cons, character?_parseRadix, value]
          by_cases braced : inside ≠ [] ∧ (byteNumeral 16 inside).isValidChar
          · rw [if_pos ⟨rfl, braced.1, rfl, braced.2⟩, if_pos ⟨braced.1, List.all_eq_true.2 hex⟩, if_pos braced.2]
            rfl
          · rw [if_neg fun all => braced ⟨all.2.1, all.2.2.2⟩]
            split
            · rename_i some
              rw [if_neg fun valid => braced ⟨some.1, valid⟩]
              rfl
            · rfl
      | some n =>
          -- A byte before the brace is no digit, and the digits end there.
          obtain ⟨digits, c, more, rfl, -, noDigit, hex⟩ := exists_cut stop
          have other : c ≠ byteOf '\x7d' := by simpa using others c (by simp)
          have read : (digits ++ c :: more ++ byteOf '\x7d' :: after).takeWhile isHexByte = digits := by
            rw [List.append_assoc]
            exact takeWhile_append_of_head (List.all_eq_true.2 (by simpa using hex)) (by simpa using noDigit)
          have notAll : (digits ++ c :: more).all isHexByte ≠ true := by
            simp only [Bool.not_eq_true'] at noDigit
            simp [noDigit]
          rw [read, List.append_assoc, List.drop_left, if_neg fun all => other (Option.some.inj all.2.2.1),
            if_neg fun all => notAll all.2]
          rfl

theorem braced_eq (rest : List UInt8) :
    braced (front ++ (byteOf '\\' :: byteOf 'u' :: byteOf '\x7b' :: rest)) ⟨front.length, out⟩ =
      .ok (match codePoint? (byteOf '\x7b' :: rest) with
        | some (code, n) => ⟨front.length + 1 + (n + 1), out ++ code⟩
        | none => keep ⟨front.length, out⟩ (byteOf '\\')) := by
  have opening : front ++ (byteOf '\\' :: byteOf 'u' :: byteOf '\x7b' :: rest) =
      (front ++ [byteOf '\\', byteOf 'u', byteOf '\x7b']) ++ rest := by simp
  have index : front.length + 3 = (front ++ [byteOf '\\', byteOf 'u', byteOf '\x7b']).length := by simp
  rw [braced, codePoint?_brace, opening]
  dsimp only
  rw [index, part_behind, ok_bind]
  cases found : rest.findIdx? (· == byteOf '\x7d') with
  | none => rfl
  | some n =>
      obtain ⟨inside, b, after, rfl, rfl, -⟩ := exists_cut found
      dsimp only
      rw [part_between, ok_bind, List.take_left]
      cases if inside ≠ [] ∧ inside.all isHexByte = true then character? (parseRadix 16 inside) else none with
      | none => rfl
      | some c =>
          rw [← index]
          exact congrArg (fun i => Except.ok (⟨i, out ++ encodeChar c⟩ : Decoder)) (by omega)

theorem escape_eq (front : List UInt8) (letter : UInt8) (rest : List UInt8) :
    escape (front ++ byteOf '\\' :: letter :: rest) ⟨front.length, out⟩ inHeredoc =
      .ok (match escape? inHeredoc (letter :: rest) with
        | some (written, n) => ⟨front.length + 1 + n, out ++ written⟩
        | none => keep ⟨front.length, out⟩ (byteOf '\\')) := by
  have second : front ++ byteOf '\\' :: letter :: rest = (front ++ [byteOf '\\']) ++ letter :: rest := by simp
  have third : front ++ byteOf '\\' :: letter :: rest = (front ++ [byteOf '\\', letter]) ++ rest := by simp
  have letterAt : byteAt (front ++ byteOf '\\' :: letter :: rest) (front.length + 1) = .ok letter := by
    rw [second, ← byteAt_front (front ++ [byteOf '\\']) letter rest, List.length_append]
    rfl
  have next : (front ++ byteOf '\\' :: letter :: rest)[front.length + 2]? = rest.head? := by
    rw [third, List.getElem?_append_right (by simp), List.head?_eq_getElem?]
    simp
  rw [escape, letterAt, ok_bind, escape?]
  -- In the order of the decoder: letters, octal digits, `x` with a digit, `u` with a brace.
  cases (simpleEscapes inHeredoc).lookup letter with
  | some byte => rfl
  | none =>
      dsimp only
      rw [next]
      by_cases octal : isOctalByte letter = true
      · have read := number_eq (fun b => @radixDigit?_octal (charOf b)) (by decide) (by decide : 8 ^ 3 ≤ greatest)
          (front ++ [byteOf '\\']) (letter :: rest) out front.length
        rw [← second, List.length_append] at read
        rw [if_pos octal, if_pos octal]
        exact read
      rw [if_neg octal, if_neg octal]
      by_cases hex : letter = byteOf 'x' ∧ rest.head?.any isHexByte = true
      · have read := number_eq (fun b => @radixDigit?_hex (charOf b)) (by decide) (by decide : 16 ^ 2 ≤ greatest)
          (front ++ [byteOf '\\', letter]) rest out front.length
        have index (n : Nat) : front.length + 2 + n = front.length + 1 + (n + 1) := by omega
        rw [← third, List.length_append, List.length_cons, List.length_singleton, index] at read
        rw [if_pos hex, if_pos hex]
        exact read
      rw [if_neg hex, if_neg hex]
      by_cases point : letter = byteOf 'u' ∧ rest.head? = some (byteOf '\x7b')
      · obtain ⟨rfl, brace⟩ := point
        obtain ⟨more, rfl⟩ := List.head?_eq_some_iff.1 brace
        rw [if_pos ⟨rfl, rfl⟩, if_pos rfl, braced_eq]
        cases codePoint? (byteOf '\x7b' :: more) <;> rfl
      rw [if_neg point]
      by_cases unicode : letter = byteOf 'u'
      · have none : codePoint? rest = none :=
          Option.not_isSome_iff_eq_none.1 fun some => point ⟨unicode, head?_of_codePoint? some⟩
        rw [if_pos unicode, none]
        rfl
      · rw [if_neg unicode]
        rfl

theorem turn_eq (inHeredoc : Bool) (out front : List UInt8) (b : UInt8) (rest : List UInt8) :
    turn (front ++ b :: rest) ⟨front.length, out⟩ inHeredoc =
      .ok (match if b = byteOf '\\' then escape? inHeredoc rest else none with
        | some (written, n) => ⟨front.length + 1 + n, out ++ written⟩
        | none => keep ⟨front.length, out⟩ b) := by
  rw [turn, byteAt_front, ok_bind]
  by_cases backslash : b = byteOf '\\'
  · subst backslash
    rw [if_pos rfl]
    match rest with
    | [] =>
        have last : (front ++ [byteOf '\\']).length ≤ front.length + 1 := by simp
        rw [if_pos (.inr last)]
        rfl
    | letter :: rest =>
        rw [if_neg (by simp)]
        exact escape_eq front letter rest
  · rw [if_pos (.inl backslash), if_neg backslash]
    rfl

theorem unescape_cons (b : UInt8) (rest : List UInt8) :
    unescape inHeredoc (b :: rest) =
      match if b = byteOf '\\' then escape? inHeredoc rest else none with
      | some (written, n) => written ++ unescape inHeredoc (rest.drop n)
      | none => b :: unescape inHeredoc rest := by
  rw [unescape]
  split <;> rfl

end Turns

section Runs

variable {inHeredoc : Bool} {bytes : List UInt8} {decoder : Decoder}

/-- At a byte or at the end, with what the rest still stands for. -/
def Stands (inHeredoc : Bool) (bytes : List UInt8) (decoder : Decoder) : Prop :=
  ∃ front rest, bytes = front ++ rest ∧ decoder.index = front.length ∧
    decoder.out ++ unescape inHeredoc rest = unescape inHeredoc bytes

theorem start_stands (inHeredoc : Bool) (bytes : List UInt8) : start.Stands inHeredoc bytes :=
  ⟨[], bytes, rfl, rfl, rfl⟩

theorem Stands.index_le (stands : decoder.Stands inHeredoc bytes) : decoder.index ≤ bytes.length := by
  obtain ⟨front, rest, rfl, place, -⟩ := stands
  rw [place, List.length_append]
  exact Nat.le_add_right _ _

theorem Stands.turn (stands : decoder.Stands inHeredoc bytes) (inside : decoder.index < bytes.length) :
    ∃ next, decoder.turn bytes inHeredoc = .ok next ∧ next.Stands inHeredoc bytes ∧ decoder.index < next.index := by
  obtain ⟨front, rest, rfl, place, written⟩ := stands
  obtain ⟨index, out⟩ := decoder
  dsimp only at place inside written ⊢
  subst place
  -- A turn goes behind one byte, or behind the bytes of an escape as well.
  match rest with
  | [] => simp at inside
  | b :: rest =>
      refine ⟨_, turn_eq inHeredoc out front b rest, ?_⟩
      rw [unescape_cons] at written
      cases read : if b = byteOf '\\' then escape? inHeredoc rest else none with
      | none =>
          rw [read] at written
          refine ⟨⟨front ++ [b], rest, by simp, by simp [keep], ?_⟩, Nat.lt_succ_self _⟩
          rwa [keep, List.append_assoc]
      | some found =>
          obtain ⟨bytes, n⟩ := found
          rw [read] at written
          have within : n ≤ rest.length := by
            split at read
            · exact escape?_le read
            · cases read
          have index : front.length + 1 + n = (front ++ b :: rest.take n).length := by
            rw [List.length_append, List.length_cons, List.length_take_of_le within]
            omega
          refine ⟨⟨front ++ b :: rest.take n, rest.drop n, by simp, index, ?_⟩, Nat.lt_add_right n (Nat.lt_succ_self _)⟩
          rwa [List.append_assoc]

theorem Stands.run (turns : Nat) (stands : decoder.Stands inHeredoc bytes) :
    ∃ last, decoder.run bytes inHeredoc turns = .ok last ∧ last.Stands inHeredoc bytes ∧
      (last.index = bytes.length ∨ decoder.index + turns ≤ last.index) :=
  exists_loop (fun _ stands => stands.index_le) (fun _ stands => stands.turn) turns stands

theorem Stands.out_eq (stands : decoder.Stands inHeredoc bytes) (last : decoder.index = bytes.length) :
    decoder.out = unescape inHeredoc bytes := by
  obtain ⟨front, rest, rfl, place, written⟩ := stands
  have empty : rest = [] := by
    rw [place, List.length_append] at last
    exact List.length_eq_zero_iff.1 (by omega)
  rwa [empty, unescape, List.append_nil, ← empty] at written

end Runs

end Decoder

end Phrasebook.Php
