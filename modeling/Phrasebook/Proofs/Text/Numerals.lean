import Mathlib.Algebra.Group.Int.Defs
import Mathlib.Data.List.Basic
import Mathlib.Data.List.Induction
import Phrasebook.Text.Digits

namespace Phrasebook

variable {digits : List Char} {c : Char} {n : Nat}

structure IsNumeral (digits : List Char) (n : Nat) : Prop where
  nonempty : digits ≠ []
  digit : ∀ c ∈ digits, c.isDigit = true
  value : Nat.ofDigitChars 10 digits 0 = n

theorem isDigit_bounds (digit : c.isDigit = true) : 48 ≤ c.toNat ∧ c.toNat ≤ 57 := Char.isDigit_iff_toNat.1 digit

theorem digitValue_of_isDigit (digit : c.isDigit = true) : digitValue c = c.toNat - '0'.toNat := if_pos digit

theorem digitChar_digitValue (digit : c.isDigit = true) : Nat.digitChar (digitValue c) = c := by
  have bounds := isDigit_bounds digit
  have value : digitValue c = c.toNat - 48 := digitValue_of_isDigit digit
  apply Char.toNat_inj.1
  rw [Nat.toNat_digitChar_of_lt_ten (by omega)]
  omega

theorem digitValue_lt_ten (digit : c.isDigit = true) : digitValue c < 10 := by
  have bounds := isDigit_bounds digit
  have value : digitValue c = c.toNat - 48 := digitValue_of_isDigit digit
  omega

theorem numeral_concat (base : Nat) (digits : List Char) (c : Char) :
    numeral base (digits ++ [c]) = numeral base digits * base + digitValue c := by
  rw [numeral, List.foldl_append]
  rfl

theorem numeral_ten (all : ∀ c ∈ digits, c.isDigit = true) : numeral 10 digits = Nat.ofDigitChars 10 digits 0 := by
  rw [Nat.ofDigitChars_eq_foldl, numeral]
  exact List.foldl_ext _ _ 0 fun n c mem => by rw [digitValue_of_isDigit (all c mem), Nat.mul_comm]

namespace IsNumeral

theorem toDigits (n : Nat) : IsNumeral (Nat.toDigits 10 n) n where
  nonempty := Nat.toDigits_ne_nil
  digit _ mem := Nat.isDigit_of_mem_toDigits (by decide) (by decide) mem
  value := Nat.ofDigitChars_ten_toDigits

theorem zeros (zeros : Nat) (numeral : IsNumeral digits n) : IsNumeral (List.replicate zeros '0' ++ digits) n where
  nonempty := List.append_ne_nil_of_right_ne_nil _ numeral.nonempty
  digit c mem := by
    rcases List.mem_append.1 mem with zero | mem
    · rw [List.eq_of_mem_replicate zero]
      rfl
    · exact numeral.digit c mem
  value := by rw [Nat.ofDigitChars_append, Nat.ofDigitChars_replicate_zero, Nat.mul_zero, numeral.value]

end IsNumeral

theorem toDigits_append (positive : 0 < n) (all : ∀ c ∈ digits, c.isDigit = true) :
    Nat.toDigits 10 n ++ digits = Nat.toDigits 10 (Nat.ofDigitChars 10 digits n) := by
  induction digits generalizing n with
  | nil => rw [List.append_nil, Nat.ofDigitChars_nil]
  | cons c digits ih =>
      obtain ⟨digit, all⟩ := List.forall_mem_cons.1 all
      have small := digitValue_lt_ten digit
      have next : Nat.toDigits 10 n ++ [c] = Nat.toDigits 10 (10 * n + digitValue c) := by
        rw [← Nat.toDigits_append_toDigits (by decide) positive small, Nat.toDigits_of_lt_base small,
          digitChar_digitValue digit]
      calc Nat.toDigits 10 n ++ c :: digits
        _ = Nat.toDigits 10 (10 * n + digitValue c) ++ digits := by rw [List.append_cons, next]
        _ = Nat.toDigits 10 (Nat.ofDigitChars 10 digits (10 * n + digitValue c)) := ih (by omega) all
        _ = Nat.toDigits 10 (Nat.ofDigitChars 10 (c :: digits) n) := by
            rw [Nat.ofDigitChars_cons, digitValue_of_isDigit digit]

theorem isNumeral_iff :
    IsNumeral digits n ↔ ∃ zeros, digits = List.replicate zeros '0' ++ Nat.toDigits 10 n := by
  constructor
  · rintro ⟨nonempty, all, rfl⟩
    -- The zeros end at the first digit that is not zero, or before the last one if there is none.
    induction digits with
    | nil => exact absurd rfl nonempty
    | cons c digits ih =>
        obtain ⟨digit, rest⟩ := List.forall_mem_cons.1 all
        rw [Nat.ofDigitChars_cons, ← digitValue_of_isDigit digit, Nat.mul_zero, Nat.zero_add]
        by_cases zero : c = '0'
        · subst zero
          by_cases last : digits = []
          · exact ⟨0, by rw [last]; rfl⟩
          · obtain ⟨zeros, split⟩ := ih last rest
            exact ⟨zeros + 1, congrArg ('0' :: ·) split⟩
        · have positive : 0 < digitValue c := Nat.pos_of_ne_zero fun value =>
            zero ((digitChar_digitValue digit).symm.trans (congrArg Nat.digitChar value))
          refine ⟨0, ?_⟩
          rw [← toDigits_append positive rest, Nat.toDigits_of_lt_base (digitValue_lt_ten digit),
            digitChar_digitValue digit]
          rfl
  · rintro ⟨zeros, rfl⟩
    exact .zeros zeros (.toDigits n)

def checked? (z : Int) : Option Int64 :=
  if Int64.minValue.toInt ≤ z ∧ z ≤ Int64.maxValue.toInt then some (.ofInt z) else none

def counted : (down : Bool) → Nat → Int
  | true, n => -n
  | false, n => n

/-- Takes in one more digit. Neither the product nor the sum may be beyond 64 bits. -/
def takeDigit? (down : Bool) (number : Int64) (c : Char) : Option Int64 :=
  if c.isDigit then do
    let product ← checked? (number.toInt * 10)
    checked? (product.toInt + counted down (digitValue c))
  else none

def readDigits? (down : Bool) (digits : List Char) : Option Int64 := digits.foldlM (takeDigit? down) 0

section Checked

variable {z : Int} {down : Bool}

theorem le_signedLimit_iff : n ≤ signedLimit ↔ -2 ^ 63 ≤ counted true n ∧ counted true n < 2 ^ 63 := by
  rw [counted, signedLimit]
  omega

theorem lt_signedLimit_iff : n < signedLimit ↔ -2 ^ 63 ≤ counted false n ∧ counted false n < 2 ^ 63 := by
  rw [counted, signedLimit]
  omega

theorem checked?_eq_some {number : Int64} : checked? z = some number ↔ number.toInt = z := by
  rw [checked?, Int64.toInt_minValue, Int64.toInt_maxValue]
  constructor
  · intro held
    split at held
    · cases held
      exact Int64.toInt_ofInt_of_le (by omega) (by omega)
    · cases held
  · rintro rfl
    have least := Int64.le_toInt number
    have greatest := Int64.toInt_lt number
    rw [if_pos (by omega), Int64.ofInt_toInt]

theorem checked?_eq_none : checked? z = none ↔ z < -2 ^ 63 ∨ 2 ^ 63 ≤ z := by
  rw [checked?, Int64.toInt_minValue, Int64.toInt_maxValue, ite_eq_right_iff]
  simp only [reduceCtorEq, imp_false]
  omega

theorem map_checked? : (checked? z).map Int64.toInt = if -2 ^ 63 ≤ z ∧ z < 2 ^ 63 then some z else none := by
  cases held : checked? z with
  | none => rw [Option.map_none, if_neg (by have := checked?_eq_none.1 held; omega)]
  | some number =>
      have value := checked?_eq_some.1 held
      have least := Int64.le_toInt number
      have greatest := Int64.toInt_lt number
      rw [Option.map_some, if_pos (by omega), value]

theorem checked?_step (digit : c.isDigit = true) :
    (checked? (counted down n)).bind (takeDigit? down · c) = checked? (counted down (n * 10 + digitValue c)) := by
  have next : counted down (n * 10 + digitValue c) = counted down n * 10 + counted down (digitValue c) := by
    cases down <;> simp only [counted] <;> omega
  have outwards : counted down n * 10 < -2 ^ 63 ∨ 2 ^ 63 ≤ counted down n * 10 →
      checked? (counted down (n * 10 + digitValue c)) = none := by
    rw [checked?_eq_none]
    cases down <;> simp only [counted] <;> omega
  cases held : checked? (counted down n) with
  | none =>
      have beyond := checked?_eq_none.1 held
      exact (outwards (by omega)).symm
  | some number =>
      rw [Option.bind_some, takeDigit?, if_pos digit, checked?_eq_some.1 held]
      cases product : checked? (counted down n * 10) with
      | none => exact (outwards (checked?_eq_none.1 product)).symm
      | some number =>
          change checked? (number.toInt + counted down (digitValue c)) = _
          rw [checked?_eq_some.1 product, next]

theorem readDigits?_eq (all : ∀ c ∈ digits, c.isDigit = true) :
    readDigits? down digits = checked? (counted down (Nat.ofDigitChars 10 digits 0)) := by
  rw [← numeral_ten all]
  -- The last digit is the last one taken in, so the induction removes digits at the end.
  induction digits using List.reverseRecOn with
  | nil => cases down <;> rfl
  | append_singleton digits c ih =>
      obtain ⟨all, digit⟩ := List.forall_mem_append.1 all
      rw [readDigits?, List.foldlM_append, ← readDigits?, ih all, numeral_concat]
      simp only [List.foldlM_cons, List.foldlM_nil, bind_pure]
      exact checked?_step (digit c (List.mem_singleton_self c))

theorem readDigits?_eq_none (mem : c ∈ digits) (other : c.isDigit = false) : readDigits? down digits = none := by
  obtain ⟨before, after, rfl⟩ := List.append_of_mem mem
  have refused (number : Int64) : takeDigit? down number c = none := if_neg (by simp [other])
  rw [readDigits?, List.foldlM_append]
  simp [refused]

end Checked

inductive IsDecimal : List Char → Int → Prop
  | bare {digits : List Char} {n : Nat} (numeral : IsNumeral digits n) : IsDecimal digits n
  | plus {digits : List Char} {n : Nat} (numeral : IsNumeral digits n) : IsDecimal ('+' :: digits) n
  | minus {digits : List Char} {n : Nat} (numeral : IsNumeral digits n) : IsDecimal ('-' :: digits) (-n)

def signs (z : Int) : List (List Char) :=
  (if 0 ≤ z then [[], ['+']] else []) ++ if z ≤ 0 then [['-']] else []

def spelling (sign : List Char) (zeros : Nat) (z : Int) : List Char :=
  sign ++ (List.replicate zeros '0' ++ Nat.toDigits 10 z.natAbs)

def unsigned : List Char → Bool × List Char
  | '-' :: digits => (true, digits)
  | '+' :: digits => (false, digits)
  | digits => (false, digits)

def readInteger? (text : List Char) : Option Int64 :=
  if (unsigned text).2 = [] then none else readDigits? (unsigned text).1 (unsigned text).2

section Integers

variable {text sign : List Char} {z : Int}

theorem mem_signs : sign ∈ signs z ↔ 0 ≤ z ∧ (sign = [] ∨ sign = ['+']) ∨ z ≤ 0 ∧ sign = ['-'] := by
  rw [signs, List.mem_append]
  apply or_congr
  · by_cases upwards : 0 ≤ z <;> simp [upwards]
  · by_cases downwards : z ≤ 0 <;> simp [downwards]

theorem isDecimal_iff_spelling : IsDecimal text z ↔ ∃ sign ∈ signs z, ∃ zeros, text = spelling sign zeros z := by
  constructor
  · intro decimal
    cases decimal with
    | bare numeral =>
        obtain ⟨zeros, rfl⟩ := isNumeral_iff.1 numeral
        exact ⟨[], mem_signs.2 (.inl ⟨Int.natCast_nonneg _, .inl rfl⟩), zeros, rfl⟩
    | plus numeral =>
        obtain ⟨zeros, rfl⟩ := isNumeral_iff.1 numeral
        exact ⟨['+'], mem_signs.2 (.inl ⟨Int.natCast_nonneg _, .inr rfl⟩), zeros, rfl⟩
    | minus numeral =>
        obtain ⟨zeros, rfl⟩ := isNumeral_iff.1 numeral
        refine ⟨['-'], mem_signs.2 (.inr ⟨by omega, rfl⟩), zeros, ?_⟩
        rw [spelling, Int.natAbs_neg, Int.natAbs_natCast]
        rfl
  · rintro ⟨sign, suits, zeros, rfl⟩
    have numeral : IsNumeral (List.replicate zeros '0' ++ Nat.toDigits 10 z.natAbs) z.natAbs :=
      isNumeral_iff.2 ⟨zeros, rfl⟩
    rcases mem_signs.1 suits with ⟨upwards, rfl | rfl⟩ | ⟨downwards, rfl⟩
    · have decimal := IsDecimal.bare numeral
      rwa [Int.natAbs_of_nonneg upwards] at decimal
    · have decimal := IsDecimal.plus numeral
      rwa [Int.natAbs_of_nonneg upwards] at decimal
    · have decimal := IsDecimal.minus numeral
      rwa [Int.ofNat_natAbs_of_nonpos downwards, Int.neg_neg] at decimal

theorem IsNumeral.unsigned_eq (numeral : IsNumeral digits n) : unsigned digits = (false, digits) := by
  have noSign (c : Char) (rest : List Char) (split : digits = c :: rest) : c.isDigit = true :=
    numeral.digit c (split ▸ List.mem_cons_self)
  rw [unsigned.eq_def]
  split
  · exact absurd (noSign _ _ rfl) (by decide)
  · exact absurd (noSign _ _ rfl) (by decide)
  · rfl

theorem isDecimal_iff_unsigned :
    IsDecimal text z ↔ ∃ n, IsNumeral (unsigned text).2 n ∧ counted (unsigned text).1 n = z := by
  constructor
  · intro decimal
    cases decimal with
    | bare numeral => exact ⟨_, by rw [numeral.unsigned_eq]; exact numeral, by rw [numeral.unsigned_eq]; rfl⟩
    | plus numeral => exact ⟨_, numeral, rfl⟩
    | minus numeral => exact ⟨_, numeral, rfl⟩
  · rintro ⟨n, numeral, rfl⟩
    revert numeral
    rw [unsigned.eq_def]
    split
    · exact .minus
    · exact .plus
    · exact .bare

theorem readInteger?_eq_some_iff :
    (readInteger? text).map Int64.toInt = some z ↔ IsDecimal text z ∧ -2 ^ 63 ≤ z ∧ z < 2 ^ 63 := by
  rw [isDecimal_iff_unsigned, readInteger?]
  generalize (unsigned text).1 = down
  generalize (unsigned text).2 = digits
  by_cases numeral : digits ≠ [] ∧ ∀ c ∈ digits, c.isDigit = true
  · obtain ⟨nonempty, all⟩ := numeral
    rw [if_neg nonempty, readDigits?_eq all, map_checked?, Option.ite_none_right_eq_some, Option.some_inj]
    constructor
    · rintro ⟨held, rfl⟩
      exact ⟨⟨_, ⟨nonempty, all, rfl⟩, rfl⟩, held⟩
    · rintro ⟨⟨n, ⟨-, -, rfl⟩, rfl⟩, held⟩
      exact ⟨held, rfl⟩
  · have refused : (if digits = [] then none else readDigits? down digits) = none := by
      split
      · rfl
      · rename_i nonempty
        obtain ⟨c, mem, other⟩ : ∃ c ∈ digits, ¬ c.isDigit = true := by
          simpa [nonempty] using numeral
        exact readDigits?_eq_none mem (by simpa using other)
    rw [refused, Option.map_none]
    constructor
    · intro read
      cases read
    · rintro ⟨⟨n, written, -⟩, -⟩
      exact absurd ⟨written.nonempty, written.digit⟩ numeral

end Integers

end Phrasebook
