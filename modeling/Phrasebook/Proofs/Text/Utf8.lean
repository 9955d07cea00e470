import Phrasebook.Text.Utf8

namespace Phrasebook.Utf8

theorem toNat_ofNat {n : Nat} (small : n < 256) : (UInt8.ofNat n).toNat = n := Nat.mod_eq_of_lt small

theorem within_ofNat {n : Nat} (small : n < 256) (low high : UInt8) :
    (low ≤ UInt8.ofNat n && UInt8.ofNat n ≤ high) = decide (low.toNat ≤ n ∧ n ≤ high.toNat) := by
  rw [Bool.eq_iff_iff]
  simp only [Bool.and_eq_true, decide_eq_true_iff, UInt8.le_iff_toNat_le, toNat_ofNat small]

theorem isContinuation_ofNat {n : Nat} (six : n < 64) : isContinuation (UInt8.ofNat (n + 128)) = true := by
  rw [isContinuation, within_ofNat (by omega), decide_eq_true_iff]
  exact ⟨Nat.le_add_left 128 n, Nat.le_of_lt_succ (Nat.add_lt_add_right six 128)⟩

theorem ofNat_not_ascii {n : Nat} (small : n < 256) (high : 128 ≤ n) : ¬ UInt8.ofNat n < 0x80 := by
  rw [UInt8.lt_iff_toNat_lt, toNat_ofNat small]
  exact Nat.not_lt.2 high

section Sequences

variable {n a b c d : Nat} {rest : List UInt8}

theorem next_one (ascii : n < 128) : next (UInt8.ofNat n) rest = (some (Char.ofNat n), 0) := by
  have small : UInt8.ofNat n < 0x80 := by
    rw [UInt8.lt_iff_toNat_lt, toNat_ofNat (by omega)]
    exact ascii
  unfold next
  rw [if_pos small, toNat_ofNat (by omega)]

theorem next_two (lead : 2 ≤ a ∧ a < 32) (six : b < 64) :
    next (UInt8.ofNat (a + 192)) (UInt8.ofNat (b + 128) :: rest) = (some (Char.ofNat (a * 64 + b)), 1) := by
  have range : (0xC2 ≤ UInt8.ofNat (a + 192) && UInt8.ofNat (a + 192) ≤ 0xDF) = true := by
    rw [within_ofNat (by omega), decide_eq_true_iff]
    exact ⟨show 194 ≤ _ by omega, show _ ≤ 223 by omega⟩
  unfold next
  rw [if_neg (ofNat_not_ascii (by omega) (by omega)), if_pos range]
  simp only [isContinuation_ofNat six, if_true, codePoint, List.foldl_cons, List.foldl_nil,
    toNat_ofNat (show a + 192 < 256 by omega), toNat_ofNat (show b + 128 < 256 by omega)]
  rw [show (a + 192 - 0xC0) * 64 + (b + 128 - 0x80) = a * 64 + b by omega]

def inRange (lead : UInt8) (n : Nat) : Prop :=
  (secondByteRange lead).1.toNat ≤ n ∧ n ≤ (secondByteRange lead).2.toNat

theorem next_long (lead : 224 ≤ n ∧ n ≤ 244) (six : b < 64) (second : inRange (UInt8.ofNat n) (b + 128))
    (third : c < 64) :
    next (UInt8.ofNat n) (UInt8.ofNat (b + 128) :: UInt8.ofNat (c + 128) :: rest) =
      if n < 240 then (some (Char.ofNat ((n - 224) * 4096 + b * 64 + c)), 2)
      else
        match rest with
        | d :: _ =>
          if isContinuation d then
            (some (Char.ofNat ((n - 240) * 262144 + b * 4096 + c * 64 + (d.toNat - 0x80))), 3)
          else (none, 2)
        | [] => (none, 2) := by
  have notTwo : ¬ (0xC2 ≤ UInt8.ofNat n && UInt8.ofNat n ≤ 0xDF) = true := by
    rw [within_ofNat (by omega), decide_eq_true_iff]
    exact fun both => absurd (show n ≤ 223 from both.2) (by omega)
  have range : (0xE0 ≤ UInt8.ofNat n && UInt8.ofNat n ≤ 0xF4) = true := by
    rw [within_ofNat (by omega), decide_eq_true_iff]
    exact lead
  have inner : ((secondByteRange (UInt8.ofNat n)).1 ≤ UInt8.ofNat (b + 128) &&
      UInt8.ofNat (b + 128) ≤ (secondByteRange (UInt8.ofNat n)).2) = true := by
    rw [within_ofNat (by omega), decide_eq_true_iff]
    exact second
  have three : UInt8.ofNat n < 0xF0 ↔ n < 240 := by
    rw [UInt8.lt_iff_toNat_lt, toNat_ofNat (by omega)]
    rfl
  unfold next
  rw [if_neg (ofNat_not_ascii (by omega) (by omega)), if_neg notTwo, if_pos range]
  simp only [inner, isContinuation_ofNat third, if_true, three, codePoint, List.foldl_cons, List.foldl_nil,
    toNat_ofNat (show n < 256 by omega), toNat_ofNat (show b + 128 < 256 by omega),
    toNat_ofNat (show c + 128 < 256 by omega)]
  split
  · rw [show ((n - 0xE0) * 64 + (b + 128 - 0x80)) * 64 + (c + 128 - 0x80) = (n - 224) * 4096 + b * 64 + c by omega]
  · cases rest with
    | nil => rfl
    | cons d rest =>
        dsimp only
        rw [show (((n - 0xF0) * 64 + (b + 128 - 0x80)) * 64 + (c + 128 - 0x80)) * 64 + (d.toNat - 0x80) =
          (n - 240) * 262144 + b * 4096 + c * 64 + (d.toNat - 0x80) by omega]

theorem inRange_of (lead : 224 ≤ n ∧ n ≤ 244) (six : b < 64)
    (least : (n = 224 → 32 ≤ b) ∧ (n = 240 → 16 ≤ b)) (greatest : (n = 237 → b < 32) ∧ (n = 244 → b < 16)) :
    inRange (UInt8.ofNat n) (b + 128) := by
  have same (k : UInt8) : (UInt8.ofNat n == k) = decide (n = k.toNat) := by
    rw [Bool.eq_iff_iff, beq_iff_eq, decide_eq_true_iff, ← UInt8.toNat_inj, toNat_ofNat (by omega)]
  unfold inRange secondByteRange
  simp only [same, UInt8.reduceToNat, decide_eq_true_eq]
  repeat' split
  all_goals
    simp only [UInt8.reduceToNat]
    omega

end Sequences

theorem encode_append {text rest : List Char} : encode (text ++ rest) = encode text ++ encode rest :=
  List.flatMap_append

theorem codePoint_valid (c : Char) : c.val.toNat < 0xD800 ∨ 0xDFFF < c.val.toNat ∧ c.val.toNat < 0x110000 :=
  c.valid

theorem encodeChar_ascii {c : Char} (ascii : c.toNat < 128) : encodeChar c = [UInt8.ofNat c.toNat] := by
  unfold encodeChar String.utf8EncodeChar
  exact if_pos (Nat.le_of_lt_succ ascii)

theorem high_of_mem_encodeChar {c : Char} (other : 128 ≤ c.toNat) {b : UInt8} (member : b ∈ encodeChar c) :
    128 ≤ b.toNat := by
  have valid := codePoint_valid c
  change 128 ≤ c.val.toNat at other
  unfold encodeChar String.utf8EncodeChar at member
  generalize c.val.toNat = v at valid other member
  dsimp only at member
  rw [if_neg (by omega)] at member
  split at member
  · simp only [List.mem_cons, List.not_mem_nil, or_false] at member
    rcases member with rfl | rfl
    all_goals
      rw [toNat_ofNat (by omega)]
      omega
  · split at member
    · simp only [List.mem_cons, List.not_mem_nil, or_false] at member
      rcases member with rfl | rfl | rfl
      all_goals
        rw [toNat_ofNat (by omega)]
        omega
    · simp only [List.mem_cons, List.not_mem_nil, or_false] at member
      rcases member with rfl | rfl | rfl | rfl
      all_goals
        rw [toNat_ofNat (by omega)]
        omega

theorem next_encodeChar (c : Char) :
    ∃ lead tail, encodeChar c = lead :: tail ∧ ∀ rest, next lead (tail ++ rest) = (some c, tail.length) := by
  have valid := codePoint_valid c
  have back : Char.ofNat c.val.toNat = c := Char.ofNat_toNat c
  unfold encodeChar String.utf8EncodeChar
  generalize c.val.toNat = v at valid back
  subst back
  dsimp only
  split
  · rename_i one
    exact ⟨_, _, rfl, fun rest => next_one (by omega)⟩
  · split
    · refine ⟨_, _, rfl, fun rest => (next_two (by omega) (by omega)).trans ?_⟩
      rw [show v / 64 % 32 * 64 + v % 64 = v by omega]
      rfl
    · split
      · refine ⟨_, _, rfl, fun rest => ?_⟩
        have second : inRange (UInt8.ofNat (v / 4096 % 16 + 224)) (v / 64 % 64 + 128) :=
          inRange_of (by omega) (by omega) (by omega) (by omega)
        rw [List.cons_append, List.cons_append, next_long (by omega) (by omega) second (by omega), if_pos (by omega),
          show (v / 4096 % 16 + 224 - 224) * 4096 + v / 64 % 64 * 64 + v % 64 = v by omega]
        rfl
      · refine ⟨_, _, rfl, fun rest => ?_⟩
        have second : inRange (UInt8.ofNat (v / 262144 % 8 + 240)) (v / 4096 % 64 + 128) :=
          inRange_of (by omega) (by omega) (by omega) (by omega)
        have last : isContinuation (UInt8.ofNat (v % 64 + 128)) = true := isContinuation_ofNat (by omega)
        rw [List.cons_append, List.cons_append, next_long (by omega) (by omega) second (by omega), if_neg (by omega)]
        simp only [List.cons_append, last, if_true, toNat_ofNat (show v % 64 + 128 < 256 by omega)]
        rw [show (v / 262144 % 8 + 240 - 240) * 262144 + v / 4096 % 64 * 4096 + v / 64 % 64 * 64 +
          (v % 64 + 128 - 0x80) = v by omega]
        rfl

theorem decodeLossy_encode (text : List Char) : decodeLossy (encode text) = text := by
  induction text with
  | nil => rw [encode, List.flatMap_nil, decodeLossy]
  | cons c text ih =>
      obtain ⟨lead, tail, bytes, read⟩ := next_encodeChar c
      rw [encode, List.flatMap_cons, bytes, List.cons_append, decodeLossy, read]
      dsimp only
      rw [List.drop_left]
      exact congrArg (c :: ·) ih

theorem decode?_encode (text : List Char) : decode? (encode text) = some text := by
  induction text with
  | nil => rw [encode, List.flatMap_nil, decode?]
  | cons c text ih =>
      obtain ⟨lead, tail, bytes, read⟩ := next_encodeChar c
      rw [encode, List.flatMap_cons, bytes, List.cons_append, decode?, read]
      dsimp only
      rw [List.drop_left]
      exact congrArg (Option.map (c :: ·)) ih

section Ascii

variable {b : UInt8}

theorem isContinuation_ascii (ascii : b < 0x80) : isContinuation b = false := by
  rw [isContinuation, Bool.and_eq_false_iff, decide_eq_false_iff_not, UInt8.not_le]
  exact .inl ascii

theorem ascii_lt_secondByte (lead : UInt8) (ascii : b < 0x80) : b < (secondByteRange lead).1 := by
  have least : 0x80 ≤ (secondByteRange lead).1 := by
    unfold secondByteRange
    repeat' split
    all_goals decide
  rw [UInt8.lt_iff_toNat_lt] at ascii ⊢
  rw [UInt8.le_iff_toNat_le] at least
  omega

theorem next_append (lead : UInt8) (bytes rest : List UInt8) (ascii : b < 0x80) :
    next lead (bytes ++ b :: rest) = next lead bytes := by
  have noTail := isContinuation_ascii ascii
  have noSecond : ((secondByteRange lead).1 ≤ b && b ≤ (secondByteRange lead).2) = false := by
    rw [Bool.and_eq_false_iff, decide_eq_false_iff_not, UInt8.not_le]
    exact .inl (ascii_lt_secondByte lead ascii)
  unfold next
  match bytes with
  | [] => simp only [List.nil_append, noTail, noSecond]; simp
  | [x] => simp only [List.cons_append, List.nil_append, noTail]; simp
  | [x, y] => simp only [List.cons_append, List.nil_append, noTail]; simp
  | x :: y :: z :: bytes => rfl

theorem next_le (lead : UInt8) (bytes : List UInt8) : (next lead bytes).2 ≤ bytes.length := by
  unfold next
  repeat' split
  all_goals simp

theorem decodeLossy_append (bytes rest : List UInt8) (ascii : b < 0x80) :
    decodeLossy (bytes ++ b :: rest) = decodeLossy bytes ++ Char.ofNat b.toNat :: decodeLossy rest := by
  match bytes with
  | [] =>
      have one : next b rest = (some (Char.ofNat b.toNat), 0) := if_pos ascii
      have empty : decodeLossy [] = [] := by rw [decodeLossy]
      rw [List.nil_append, empty, decodeLossy, one]
      rfl
  | lead :: bytes =>
      have used := next_le lead bytes
      rw [List.cons_append, decodeLossy, decodeLossy, next_append lead bytes rest ascii]
      simp only [List.drop_append_of_le_length used]
      rw [decodeLossy_append (bytes.drop (next lead bytes).2) rest ascii, List.cons_append]
termination_by bytes.length
decreasing_by simp only [List.length_cons, List.length_drop]; omega

end Ascii

end Phrasebook.Utf8
