import Phrasebook.Proofs.Php.Quoting

/-!
# Escapes and what they stand for

A double-quoted string can spell its bytes in several ways: as they are, by letters, in octal, in hexadecimal, and by
the code point of a character. A segment is one such spelling. Segments can stand next to each other unless one goes
on with what begins the next, since the decoder takes as many digits as it can get.
-/

namespace Phrasebook.Php

open Utf8

/-! ## Bytes of ASCII characters -/

section Ascii

variable {c : Char} {text rest digits : List Char} {p : Char → Bool}

theorem charOf_byteOf (ascii : c.toNat < 128) : charOf (byteOf c) = c := by
  rw [charOf, byteOf, toNat_ofNat (by omega), Char.ofNat_toNat]

theorem toNat_charOf (b : UInt8) : (charOf b).toNat = b.toNat := by
  have valid : b.toNat.isValidChar := .inl (by have := b.toNat_lt; omega)
  rw [charOf, Char.ofNat, dif_pos valid]
  rfl

theorem encode_cons (ascii : c.toNat < 128) : encode (c :: text) = byteOf c :: encode text := by
  rw [encode, List.flatMap_cons, encodeChar_ascii ascii]
  rfl

def IsAsciiClass (p : Char → Bool) : Prop := ∀ c, p c = true → c.toNat < 128

theorem isAsciiClass_hex : IsAsciiClass isHexDigit := by
  intro c digit
  simp only [isHexDigit, Char.isDigit, Bool.or_eq_true, Bool.and_eq_true, decide_eq_true_eq, Char.le_def,
    UInt32.le_iff_toNat_le, ge_iff_le] at digit
  change c.val.toNat < 128
  have bounds : '9'.val.toNat < 128 ∧ 'f'.val.toNat < 128 ∧ 'F'.val.toNat < 128 := by decide
  omega

theorem isHexDigit_of_isOctalDigit (digit : isOctalDigit c = true) : isHexDigit c = true := by
  simp only [isOctalDigit, isHexDigit, Char.isDigit, Bool.or_eq_true, Bool.and_eq_true, decide_eq_true_eq, Char.le_def,
    UInt32.le_iff_toNat_le, ge_iff_le] at digit ⊢
  have order : '7'.val.toNat ≤ '9'.val.toNat := by decide
  exact .inl (.inl ⟨digit.1, digit.2.trans order⟩)

theorem isAsciiClass_octal : IsAsciiClass isOctalDigit :=
  fun c digit => isAsciiClass_hex c (isHexDigit_of_isOctalDigit digit)

theorem IsAsciiClass.ascii (isClass : IsAsciiClass p) (all : digits.all p = true) : ∀ c ∈ digits, c.toNat < 128 :=
  fun c mem => isClass c (List.all_eq_true.1 all c mem)

theorem encode_ascii (ascii : ∀ c ∈ text, c.toNat < 128) : encode text = text.map byteOf := by
  induction text with
  | nil => rfl
  | cons c text ih =>
      rw [List.forall_mem_cons] at ascii
      rw [encode_cons ascii.1, ih ascii.2, List.map_cons]

theorem drop_encode (ascii : ∀ c ∈ text, c.toNat < 128) : (encode (text ++ rest)).drop text.length = encode rest := by
  rw [encode_append, encode_ascii ascii]
  exact List.drop_left' (List.length_map _)

theorem map_charOf_byteOf (ascii : ∀ c ∈ text, c.toNat < 128) : (text.map byteOf).map charOf = text := by
  rw [List.map_map]
  exact (List.map_congr_left fun c mem => charOf_byteOf (ascii c mem)).trans (List.map_id text)

theorem all_byteOf (isClass : IsAsciiClass p) (all : digits.all p = true) :
    (digits.map byteOf).all (fun b => p (charOf b)) = true := by
  have chars := List.all_map (f := charOf) (l := digits.map byteOf) (p := p)
  rw [map_charOf_byteOf (isClass.ascii all), all] at chars
  exact chars.symm

theorem byteNumeral_byteOf (ascii : ∀ c ∈ digits, c.toNat < 128) (base : Nat) :
    byteNumeral base (digits.map byteOf) = numeral base digits := by
  rw [byteNumeral, map_charOf_byteOf ascii]

theorem head?_encode (isClass : IsAsciiClass p) :
    (encode text).head?.any (fun b => p (charOf b)) = text.head?.any p := by
  cases text with
  | nil => rfl
  | cons c text =>
      by_cases small : c.toNat < 128
      · rw [encode_cons small, List.head?_cons, List.head?_cons, Option.any_some, Option.any_some, charOf_byteOf small]
      · obtain ⟨lead, tail, bytes, -⟩ := next_encodeChar c
        have high : 128 ≤ lead.toNat :=
          high_of_mem_encodeChar (Nat.le_of_not_lt small) (bytes ▸ List.mem_cons_self ..)
        have beyond : 128 ≤ (charOf lead).toNat := by rwa [toNat_charOf]
        have noByte : p (charOf lead) = false := Bool.eq_false_iff.2 fun member => absurd (isClass _ member) (by omega)
        have noChar : p c = false := Bool.eq_false_iff.2 fun member => small (isClass _ member)
        rw [encode, List.flatMap_cons, bytes, List.cons_append, List.head?_cons, List.head?_cons, Option.any_some,
          Option.any_some, noByte, noChar]

theorem head?_encode_eq_some {d : Char} (ascii : d.toNat < 128) :
    (encode text).head? = some (byteOf d) ↔ text.head? = some d := by
  have single : IsAsciiClass (· == d) := fun c same => by rwa [beq_iff_eq.1 same]
  have byte (b : UInt8) : charOf b = d ↔ b = byteOf d := by
    constructor
    · rintro rfl
      rw [byteOf, toNat_charOf, UInt8.ofNat_toNat]
    · rintro rfl
      exact charOf_byteOf ascii
  have same := @head?_encode text (· == d) single
  rw [Bool.eq_iff_iff, Option.any_eq_true, Option.any_eq_true] at same
  simpa [byte] using same

end Ascii

/-! ## Runs of digits -/

theorem takeWhile_take {α : Type} {p : α → Bool} {digits rest : List α} {n : Nat} (all : digits.all p = true)
    (short : digits.length ≤ n) (ends : digits.length < n → rest.head?.any p = false) :
    ((digits ++ rest).take n).takeWhile p = digits := by
  have behind : (rest.take (n - digits.length)).head?.any p = false := by
    rw [List.head?_take]
    split
    · rfl
    · exact ends (by omega)
  rw [List.take_append, List.take_of_length_le short, takeWhile_append_of_head all behind]

theorem takeWhile_take_encode {p : Char → Bool} {digits rest : List Char} {n : Nat} (isClass : IsAsciiClass p)
    (all : digits.all p = true) (short : digits.length ≤ n)
    (ends : digits.length < n → rest.head?.any p = false) :
    ((encode (digits ++ rest)).take n).takeWhile (fun b => p (charOf b)) = digits.map byteOf := by
  rw [encode_append, encode_ascii (isClass.ascii all)]
  refine takeWhile_take (all_byteOf isClass all) (by rwa [List.length_map]) fun less => ?_
  rw [List.length_map] at less
  exact (head?_encode isClass).trans (ends less)

/-! ## Letters -/

inductive Mnemonic
  | lineFeed
  | tab
  | carriageReturn
  | verticalTab
  | escape
  | formFeed
  | backslash
  | dollar
  | quote
  deriving DecidableEq, Repr

namespace Mnemonic

def letter : Mnemonic → Char
  | lineFeed => 'n'
  | tab => 't'
  | carriageReturn => 'r'
  | verticalTab => 'v'
  | escape => 'e'
  | formFeed => 'f'
  | backslash => '\\'
  | dollar => '$'
  | quote => '"'

def byte : Mnemonic → UInt8
  | lineFeed => 0x0A
  | tab => 0x09
  | carriageReturn => 0x0D
  | verticalTab => 0x0B
  | escape => 0x1B
  | formFeed => 0x0C
  | backslash => 0x5C
  | dollar => 0x24
  | quote => 0x22

end Mnemonic

def mnemonics (inHeredoc : Bool) : List Mnemonic :=
  [.lineFeed, .tab, .carriageReturn, .verticalTab, .escape, .formFeed, .backslash, .dollar] ++
    if inHeredoc then [] else [.quote]

/-! ## Reading one escape -/

section Reading

variable {inHeredoc : Bool} {c : Char} {text rest digits : List Char} {bytes out : List UInt8} {n : Nat}

theorem unescape_known (known : escape? inHeredoc bytes = some (out, n)) :
    unescape inHeredoc (byteOf '\\' :: bytes) = out ++ unescape inHeredoc (bytes.drop n) := by
  rw [unescape, if_pos rfl, known]

theorem unescape_unknown (unknown : escape? inHeredoc bytes = none) :
    unescape inHeredoc (byteOf '\\' :: bytes) = byteOf '\\' :: unescape inHeredoc bytes := by
  rw [unescape, if_pos rfl, unknown]

theorem escape?_mnemonic {mnemonic : Mnemonic} (known : mnemonic ∈ mnemonics inHeredoc) :
    escape? inHeredoc (byteOf mnemonic.letter :: bytes) = some ([mnemonic.byte], 1) := by
  cases inHeredoc <;> cases mnemonic <;> first | rfl | exact absurd known (by decide)

theorem simpleEscapes_eq :
    simpleEscapes inHeredoc = (mnemonics inHeredoc).map fun mnemonic => (byteOf mnemonic.letter, mnemonic.byte) := by
  cases inHeredoc <;> rfl

theorem lookup_simpleEscapes {b : UInt8} (other : ∀ mnemonic ∈ mnemonics inHeredoc, b ≠ byteOf mnemonic.letter) :
    (simpleEscapes inHeredoc).lookup b = none := by
  rw [simpleEscapes_eq, List.lookup_eq_none_iff]
  intro entry mem
  obtain ⟨mnemonic, known, rfl⟩ := List.mem_map.1 mem
  exact bne_iff_ne.2 (other mnemonic known)

theorem lookup_digit {b : UInt8} (digit : isOctalByte b = true) : (simpleEscapes inHeredoc).lookup b = none := by
  apply lookup_simpleEscapes
  rintro mnemonic - rfl
  cases mnemonic <;> exact absurd digit (by decide)

theorem escape?_octal (some : digits ≠ []) (short : digits.length ≤ 3) (octal : digits.all isOctalDigit = true)
    (ends : digits.length < 3 → rest.head?.any isOctalDigit = false) :
    escape? inHeredoc (encode (digits ++ rest)) = Option.some ([UInt8.ofNat (numeral 8 digits)], digits.length) := by
  have ascii := isAsciiClass_octal.ascii octal
  have read : ((encode (digits ++ rest)).take 3).takeWhile isOctalByte = digits.map byteOf :=
    takeWhile_take_encode isAsciiClass_octal octal short ends
  have value := byteNumeral_byteOf ascii 8
  have bytes : (digits.map byteOf).all isOctalByte = true := all_byteOf isAsciiClass_octal octal
  obtain ⟨d, digits, rfl⟩ := List.exists_cons_of_ne_nil some
  rw [List.map_cons, List.all_cons, Bool.and_eq_true] at bytes
  rw [List.cons_append, encode_cons (ascii d (List.mem_cons_self ..))] at read ⊢
  rw [escape?, lookup_digit bytes.1]
  dsimp only
  rw [if_pos bytes.1, read, value, List.length_map]

theorem lookup_x : (simpleEscapes inHeredoc).lookup (byteOf 'x') = none := by cases inHeredoc <;> rfl

theorem lookup_u : (simpleEscapes inHeredoc).lookup (byteOf 'u') = none := by cases inHeredoc <;> rfl

theorem escape?_hex (some : digits ≠ []) (short : digits.length ≤ 2) (hex : digits.all isHexDigit = true)
    (ends : digits.length < 2 → rest.head?.any isHexDigit = false) :
    escape? inHeredoc (encode ('x' :: (digits ++ rest))) =
      Option.some ([UInt8.ofNat (numeral 16 digits)], digits.length + 1) := by
  have read : ((encode (digits ++ rest)).take 2).takeWhile isHexByte = digits.map byteOf :=
    takeWhile_take_encode isAsciiClass_hex hex short ends
  have first : (encode (digits ++ rest)).head?.any isHexByte = true := by
    obtain ⟨d, digits, rfl⟩ := List.exists_cons_of_ne_nil some
    rw [List.all_cons, Bool.and_eq_true] at hex
    exact (head?_encode isAsciiClass_hex).trans hex.1
  rw [encode_cons (by decide), escape?, lookup_x]
  dsimp only
  rw [if_neg (by decide), if_pos ⟨rfl, first⟩, read, byteNumeral_byteOf (isAsciiClass_hex.ascii hex), List.length_map]

theorem codePoint?_encode : codePoint? (encode ('{' :: text)) =
    if text.takeWhile isHexDigit ≠ [] ∧ (text.dropWhile isHexDigit).head? = some '}' ∧
        (numeral 16 (text.takeWhile isHexDigit)).isValidChar then
      some (encodeChar (Char.ofNat (numeral 16 (text.takeWhile isHexDigit))), (text.takeWhile isHexDigit).length + 2)
    else none := by
  have hex : (text.takeWhile isHexDigit).all isHexDigit = true := List.all_takeWhile
  have ends : (encode (text.dropWhile isHexDigit)).head?.any isHexByte = false := by
    refine (head?_encode isAsciiClass_hex).trans ?_
    cases same : text.dropWhile isHexDigit with
    | nil => rfl
    | cons c rest =>
        have some : text.dropWhile isHexDigit ≠ [] := by rw [same]; exact List.cons_ne_nil c rest
        have last := List.head_dropWhile_not isHexDigit some
        simp only [same, List.head_cons] at last
        exact last
  have bytes : encode text =
      (text.takeWhile isHexDigit).map byteOf ++ encode (text.dropWhile isHexDigit) := by
    rw [← encode_ascii (isAsciiClass_hex.ascii hex), ← encode_append, List.takeWhile_append_dropWhile]
  have read : (encode text).takeWhile isHexByte = (text.takeWhile isHexDigit).map byteOf := by
    rw [bytes]
    exact takeWhile_append_of_head (all_byteOf isAsciiClass_hex hex) ends
  have behind : (encode text).drop (text.takeWhile isHexDigit).length = encode (text.dropWhile isHexDigit) := by
    rw [bytes]
    exact List.drop_left' (List.length_map _)
  rw [encode_cons (by decide), codePoint?]
  simp only [read, List.length_map, behind, byteNumeral_byteOf (isAsciiClass_hex.ascii hex), true_and, ne_eq,
    List.map_eq_nil_iff, head?_encode_eq_some (show '}'.toNat < 128 by decide)]

theorem codePoint?_braced (some : digits ≠ []) (hex : digits.all isHexDigit = true)
    (valid : (numeral 16 digits).isValidChar) :
    codePoint? (encode ('{' :: (digits ++ '}' :: rest))) =
      Option.some (encodeChar (Char.ofNat (numeral 16 digits)), digits.length + 2) := by
  have read : (digits ++ '}' :: rest).takeWhile isHexDigit = digits := takeWhile_append_of_head hex rfl
  have behind : (digits ++ '}' :: rest).dropWhile isHexDigit = '}' :: rest := by
    rw [List.dropWhile_append_of_pos (List.all_eq_true.1 hex)]
    rfl
  rw [codePoint?_encode, read, behind]
  exact if_pos ⟨some, rfl, valid⟩

theorem escape?_braced (some : digits ≠ []) (hex : digits.all isHexDigit = true) (value : numeral 16 digits = c.toNat) :
    escape? inHeredoc (encode ('u' :: '{' :: (digits ++ '}' :: rest))) =
      Option.some (encodeChar c, digits.length + 3) := by
  have braced := @codePoint?_braced rest digits some hex (value ▸ c.valid)
  rw [value, Char.ofNat_toNat] at braced
  rw [encode_cons (by decide), escape?, lookup_u]
  dsimp only
  rw [if_neg (by decide), if_neg fun here => absurd here.1 (by decide), if_pos rfl, braced]
  rfl

theorem head?_of_codePoint? (some : (codePoint? bytes).isSome = true) : bytes.head? = Option.some (byteOf '{') := by
  cases bytes with
  | nil => cases some
  | cons b bytes =>
      rw [codePoint?] at some
      split at some
      · rename_i braced
        exact congrArg Option.some braced.1
      · cases some

/-- The text `rest` makes an escape of a backslash and the character `c`, which is none by itself. -/
def Completes (c : Char) (rest : List Char) : Prop :=
  c = 'x' ∧ rest.head?.any isHexDigit = true ∨
  c = 'u' ∧ ∃ digits after, rest = '{' :: (digits ++ '}' :: after) ∧ digits ≠ [] ∧
    digits.all isHexDigit = true ∧ (numeral 16 digits).isValidChar

theorem isSome_codePoint?_iff : (codePoint? (encode rest)).isSome = true ↔ Completes 'u' rest := by
  constructor
  · intro some
    have brace : rest.head? = Option.some '{' := (head?_encode_eq_some (by decide)).1 (head?_of_codePoint? some)
    obtain ⟨text, rfl⟩ := List.head?_eq_some_iff.1 brace
    rw [codePoint?_encode] at some
    split at some
    · rename_i braced
      obtain ⟨nonempty, closing, valid⟩ := braced
      obtain ⟨after, split⟩ := List.head?_eq_some_iff.1 closing
      refine .inr ⟨rfl, text.takeWhile isHexDigit, after, ?_, nonempty, List.all_takeWhile, valid⟩
      rw [← split, List.takeWhile_append_dropWhile]
    · cases some
  · rintro (⟨other, -⟩ | ⟨-, digits, after, rfl, some, hex, valid⟩)
    · cases other
    · rw [codePoint?_braced some hex valid]
      rfl

instance : Decidable (Completes c rest) :=
  decidable_of_iff (c = 'x' ∧ rest.head?.any isHexDigit = true ∨ c = 'u' ∧ (codePoint? (encode rest)).isSome = true) (by
    rw [isSome_codePoint?_iff]
    unfold Completes
    constructor
    · rintro (digit | ⟨rfl, other | braced⟩)
      · exact .inl digit
      · cases other.1
      · exact .inr braced
    · rintro (digit | ⟨rfl, braced⟩)
      · exact .inl digit
      · exact .inr ⟨rfl, .inr ⟨rfl, braced⟩⟩)

theorem escape?_eq_none (noLetter : ∀ mnemonic ∈ mnemonics inHeredoc, mnemonic.letter ≠ c)
    (noOctal : isOctalDigit c = false) (alone : ¬ Completes c rest) :
    escape? inHeredoc (encode (c :: rest)) = none := by
  obtain ⟨lead, tail, bytes, -⟩ := next_encodeChar c
  have split : encode (c :: rest) = lead :: (tail ++ encode rest) := by
    rw [encode, List.flatMap_cons, bytes]
    rfl
  -- What the first byte says of the character.
  have same {d : Char} (ascii : d.toNat < 128) : lead = byteOf d ↔ c = d := by
    have head := @head?_encode_eq_some (c :: rest) d ascii
    rw [split, List.head?_cons, List.head?_cons, Option.some_inj, Option.some_inj] at head
    exact head
  have behind {d : Char} (ascii : d.toNat < 128) (here : lead = byteOf d) : tail ++ encode rest = encode rest := by
    rw [(same ascii).1 here, encode_cons ascii] at split
    exact (List.cons.inj split).2.symm
  have noMnemonic : (simpleEscapes inHeredoc).lookup lead = none := by
    apply lookup_simpleEscapes
    intro mnemonic known here
    exact noLetter mnemonic known ((same (by cases mnemonic <;> decide)).1 here).symm
  have noDigit : isOctalByte lead = false := by
    have head := @head?_encode (c :: rest) isOctalDigit isAsciiClass_octal
    rw [split, List.head?_cons, List.head?_cons, Option.any_some, Option.any_some] at head
    exact head.trans noOctal
  have noHex : ¬ (lead = byteOf 'x' ∧ (tail ++ encode rest).head?.any isHexByte = true) := by
    rintro ⟨here, digit⟩
    rw [behind (by decide) here] at digit
    exact alone (.inl ⟨(same (by decide)).1 here, (head?_encode isAsciiClass_hex).symm.trans digit⟩)
  rw [split, escape?, noMnemonic]
  dsimp only
  rw [if_neg (Bool.eq_false_iff.1 noDigit), if_neg noHex]
  split
  · rename_i here
    have braced := (@isSome_codePoint?_iff rest).not.2 ((same (by decide)).1 here ▸ alone)
    rw [behind (by decide) here, Option.not_isSome_iff_eq_none.1 braced]
    rfl
  · rfl

theorem codePoint?_le (some : codePoint? bytes = Option.some (out, n)) : n ≤ bytes.length := by
  cases bytes with
  | nil => cases some
  | cons opening rest =>
      rw [codePoint?] at some
      split at some
      · rename_i braced
        obtain ⟨-, -, closing, -⟩ := braced
        have inside : (rest.takeWhile isHexByte).length < rest.length := by
          by_contra beyond
          rw [List.drop_of_length_le (Nat.le_of_not_lt beyond)] at closing
          cases closing
        cases some
        rw [List.length_cons]
        omega
      · cases some

theorem escape?_le (some : escape? inHeredoc bytes = Option.some (out, n)) : n ≤ bytes.length := by
  cases bytes with
  | nil => cases some
  | cons letter rest =>
      have digits (p : UInt8 → Bool) (k : Nat) (bytes : List UInt8) :
          ((bytes.take k).takeWhile p).length ≤ bytes.length :=
        (List.takeWhile_prefix p).length_le.trans (List.length_take_le' k bytes)
      -- One bound for each way in which an escape is read.
      rw [escape?] at some
      split at some
      · cases some
        exact Nat.le_add_left _ _
      · split at some
        · cases some
          exact digits isOctalByte 3 (letter :: rest)
        · split at some
          · cases some
            exact Nat.succ_le_succ (digits isHexByte 2 rest)
          · split at some
            · obtain ⟨⟨code, k⟩, braced, same⟩ := Option.map_eq_some_iff.1 some
              cases same
              exact Nat.succ_le_succ (codePoint?_le braced)
            · cases some

end Reading

/-! ## Segments -/

inductive Segment (inHeredoc : Bool)
  | text (chars : List Char) (plain : '\\' ∉ chars)
  | mnemonic (letter : Mnemonic) (known : letter ∈ mnemonics inHeredoc)
  | octal (digits : List Char) (some : digits ≠ []) (short : digits.length ≤ 3)
      (octal : digits.all isOctalDigit = true)
  | hex (digits : List Char) (some : digits ≠ []) (short : digits.length ≤ 2) (hex : digits.all isHexDigit = true)
  | codePoint (digits : List Char) (c : Char) (some : digits ≠ []) (hex : digits.all isHexDigit = true)
      (value : numeral 16 digits = c.toNat)
  | unknown (c : Char) (noLetter : ∀ mnemonic ∈ mnemonics inHeredoc, mnemonic.letter ≠ c)
      (noOctal : isOctalDigit c = false)

namespace Segment

variable {inHeredoc : Bool}

def spelling : Segment inHeredoc → List Char
  | text chars _ => chars
  | mnemonic letter _ => ['\\', letter.letter]
  | octal digits .. => '\\' :: digits
  | hex digits .. => '\\' :: 'x' :: digits
  | codePoint digits .. => '\\' :: 'u' :: '{' :: (digits ++ ['}'])
  | unknown c .. => ['\\', c]

/-- The bytes that a segment stands for. A number beyond a byte loses its higher bits. -/
def meaning : Segment inHeredoc → List UInt8
  | text chars _ => encode chars
  | mnemonic letter _ => [letter.byte]
  | octal digits .. => [UInt8.ofNat (numeral 8 digits)]
  | hex digits .. => [UInt8.ofNat (numeral 16 digits)]
  | codePoint _ c .. => encodeChar c
  | unknown c .. => encode ['\\', c]

/-- A segment does not go on with the text behind it. -/
def EndsBefore (rest : List Char) : Segment inHeredoc → Prop
  | octal digits .. => digits.length < 3 → rest.head?.any isOctalDigit = false
  | hex digits .. => digits.length < 2 → rest.head?.any isHexDigit = false
  | unknown c .. => ¬ Completes c rest
  | _ => True

instance {rest : List Char} : (segment : Segment inHeredoc) → Decidable (segment.EndsBefore rest)
  | octal digits .. => inferInstanceAs (Decidable (digits.length < 3 → rest.head?.any isOctalDigit = false))
  | hex digits .. => inferInstanceAs (Decidable (digits.length < 2 → rest.head?.any isHexDigit = false))
  | unknown c .. => inferInstanceAs (Decidable (¬ Completes c rest))
  | text .. => inferInstanceAs (Decidable True)
  | mnemonic .. => inferInstanceAs (Decidable True)
  | codePoint .. => inferInstanceAs (Decidable True)

theorem unescape_spelling (segment : Segment inHeredoc) {rest : List Char} (ends : segment.EndsBefore rest) :
    unescape inHeredoc (encode (segment.spelling ++ rest)) = segment.meaning ++ unescape inHeredoc (encode rest) := by
  have backslash (text : List Char) : encode ('\\' :: text) = byteOf '\\' :: encode text := encode_cons (by decide)
  -- Each escape is read as a whole, as the text behind it does not go on with it.
  cases segment with
  | text chars plain =>
      rw [spelling, encode_append, unescape_append inHeredoc _ fun b mem => ?_]
      · rfl
      · obtain ⟨c, inside, here⟩ := List.mem_flatMap.1 mem
        exact encodeChar_plain (fun same => plain (same ▸ inside)) b here
  | mnemonic letter known =>
      have ascii : letter.letter.toNat < 128 := by cases letter <;> decide
      rw [spelling, List.cons_append, backslash, List.cons_append, encode_cons ascii,
        unescape_known (escape?_mnemonic known)]
      rfl
  | octal digits some short octal =>
      rw [spelling, List.cons_append, backslash, unescape_known (escape?_octal some short octal ends),
        drop_encode (isAsciiClass_octal.ascii octal)]
      rfl
  | hex digits some short hex =>
      have ascii : ∀ c ∈ 'x' :: digits, c.toNat < 128 :=
        List.forall_mem_cons.2 ⟨by decide, isAsciiClass_hex.ascii hex⟩
      have behind : (encode ('x' :: (digits ++ rest))).drop (digits.length + 1) = encode rest :=
        @drop_encode ('x' :: digits) rest ascii
      rw [spelling, List.cons_append, backslash, List.cons_append,
        unescape_known (escape?_hex some short hex ends), behind]
      rfl
  | codePoint digits c some hex value =>
      have split : (codePoint digits c some hex value : Segment inHeredoc).spelling ++ rest =
          '\\' :: 'u' :: '{' :: (digits ++ '}' :: rest) := by simp [spelling]
      have ascii : ∀ c ∈ 'u' :: '{' :: (digits ++ ['}']), c.toNat < 128 := by
        simp only [List.forall_mem_cons, List.forall_mem_append]
        exact ⟨by decide, by decide, isAsciiClass_hex.ascii hex, by decide, List.forall_mem_nil _⟩
      have behind : (encode ('u' :: '{' :: (digits ++ '}' :: rest))).drop (digits.length + 3) = encode rest := by
        have dropped := @drop_encode _ rest ascii
        simpa using dropped
      rw [split, backslash, unescape_known (escape?_braced some hex value), behind]
      rfl
  | unknown c noLetter noOctal =>
      have other : c ≠ '\\' := (noLetter .backslash (by cases inHeredoc <;> decide)).symm
      have split : encode (c :: rest) = encodeChar c ++ encode rest := rfl
      have single : encode [c] = encodeChar c := List.flatMap_singleton ..
      rw [spelling, List.cons_append, backslash, List.singleton_append,
        unescape_unknown (escape?_eq_none noLetter noOctal ends), split,
        unescape_append inHeredoc _ (encodeChar_plain other), meaning, backslash, single]
      rfl

theorem not_completes_append {c : Char} {text rest : List Char} (alone : ¬ Completes c text)
    (stop : ∀ d ∈ rest.head?, d = '\\') : ¬ Completes c (text ++ rest) := by
  cases rest with
  | nil => rwa [List.append_nil]
  | cons d rest =>
      rw [stop d rfl]
      rintro (⟨rfl, digit⟩ | ⟨rfl, digits, after, split, some, hex, valid⟩)
      · cases text with
        | nil => cases digit
        | cons c text => exact alone (.inl ⟨rfl, digit⟩)
      · have braced : text ++ '\\' :: rest = ('{' :: (digits ++ ['}'])) ++ after := by rw [split]; simp
        have noBackslash : '\\' ∉ '{' :: (digits ++ ['}']) := by
          have others := List.all_eq_true.1 hex '\\'
          simp only [List.mem_cons, List.mem_append, List.not_mem_nil, or_false, not_or]
          exact ⟨by decide, fun mem => absurd (others mem) (by decide), by decide⟩
        -- If the braces went beyond the text, the backslash would stand between them.
        rcases List.append_eq_append_iff.1 braced with ⟨more, inside, behind⟩ | ⟨more, inside, behind⟩
        · cases more with
          | nil =>
              rw [List.append_nil] at inside
              exact alone (.inr ⟨rfl, digits, [], inside.symm, some, hex, valid⟩)
          | cons d more =>
              cases behind
              exact noBackslash (inside ▸ List.mem_append_right _ (List.mem_cons_self ..))
        · exact alone (.inr ⟨rfl, digits, more, by simpa using inside, some, hex, valid⟩)

theorem EndsBefore.append {segment : Segment inHeredoc} {text rest : List Char} (ends : segment.EndsBefore text)
    (stop : ∀ d ∈ rest.head?, d = '\\') : segment.EndsBefore (text ++ rest) := by
  have head {p : Char → Bool} (noDigit : p '\\' = false) (ends : text.head?.any p = false) :
      (text ++ rest).head?.any p = false := by
    cases text with
    | cons c text => exact ends
    | nil =>
        cases rest with
        | nil => rfl
        | cons d rest => rw [stop d rfl]; exact noDigit
  cases segment with
  | octal => exact fun short => head (by decide) (ends short)
  | hex => exact fun short => head (by decide) (ends short)
  | unknown => exact not_completes_append ends stop
  | text => trivial
  | mnemonic => trivial
  | codePoint => trivial

end Segment

/-! ## Strings -/

section Strings

variable {inHeredoc : Bool}

def spelled (segments : List (Segment inHeredoc)) : List Char := segments.flatMap (·.spelling)

def meant (segments : List (Segment inHeredoc)) : List UInt8 := segments.flatMap (·.meaning)

def Separated : List (Segment inHeredoc) → Prop
  | [] => True
  | segment :: segments => segment.EndsBefore (spelled segments) ∧ Separated segments

instance : (segments : List (Segment inHeredoc)) → Decidable (Separated segments)
  | [] => inferInstanceAs (Decidable True)
  | segment :: segments =>
    have : Decidable (Separated segments) := instDecidableSeparated segments
    inferInstanceAs (Decidable (segment.EndsBefore (spelled segments) ∧ Separated segments))

theorem unescape_spelled {segments : List (Segment inHeredoc)} (apart : Separated segments) {rest : List Char}
    (stop : ∀ d ∈ rest.head?, d = '\\') :
    unescape inHeredoc (encode (spelled segments ++ rest)) = meant segments ++ unescape inHeredoc (encode rest) := by
  induction segments with
  | nil => rfl
  | cons segment segments ih =>
      have spelling : spelled (segment :: segments) = segment.spelling ++ spelled segments := List.flatMap_cons
      have meaning : meant (segment :: segments) = segment.meaning ++ meant segments := List.flatMap_cons
      rw [spelling, List.append_assoc, segment.unescape_spelling (apart.1.append stop), ih apart.2, meaning,
        List.append_assoc]

theorem unescape_nil : unescape inHeredoc (encode []) = [] := by rw [encode, List.flatMap_nil, unescape]

theorem decodeLossy_nil : decodeLossy [] = [] := by rw [decodeLossy]

theorem decodeLossy_ascii {c : Char} (ascii : c.toNat < 128) (bytes : List UInt8) :
    decodeLossy (byteOf c :: bytes) = c :: decodeLossy bytes := by
  have small : byteOf c < 0x80 := by
    rw [UInt8.lt_iff_toNat_lt, byteOf, toNat_ofNat (by omega)]
    exact ascii
  have behind := decodeLossy_append [] bytes small
  rw [List.nil_append, decodeLossy_nil, List.nil_append] at behind
  rw [behind]
  exact congrArg (· :: decodeLossy bytes) (charOf_byteOf ascii)

theorem unescape_malformed {rest : List Char} (malformed : ¬ Completes 'u' ('{' :: rest)) :
    unescape inHeredoc (encode ('\\' :: 'u' :: '{' :: rest)) =
      byteOf '\\' :: byteOf 'u' :: byteOf '{' :: unescape inHeredoc (encode rest) := by
  have unknown : escape? inHeredoc (encode ('u' :: '{' :: rest)) = none :=
    escape?_eq_none (by cases inHeredoc <;> decide) (by decide) malformed
  rw [encode_cons (by decide), unescape_unknown unknown, encode_cons (by decide), encode_cons (by decide),
    unescape, if_neg (by decide), unescape, if_neg (by decide)]

/-- A string that is spelled in segments is what these stand for. A backslash behind it stays, be it the last character
or the beginning of a code point that is none, and the text behind this backslash is decoded on its own. -/
theorem decodeDouble_spelled {segments : List (Segment inHeredoc)} (apart : Separated segments) :
    decodeDouble inHeredoc (spelled segments) = decodeLossy (meant segments) ∧
    decodeDouble inHeredoc (spelled segments ++ ['\\']) = decodeLossy (meant segments) ++ ['\\'] ∧
    ∀ rest, ¬ Completes 'u' ('{' :: rest) →
      decodeDouble inHeredoc (spelled segments ++ '\\' :: 'u' :: '{' :: rest) =
        decodeLossy (meant segments) ++ '\\' :: 'u' :: '{' :: decodeDouble inHeredoc rest := by
  refine ⟨?_, ?_, fun rest malformed => ?_⟩
  · have whole := @unescape_spelled inHeredoc segments apart [] nofun
    rw [List.append_nil, unescape_nil, List.append_nil] at whole
    rw [decodeDouble, whole]
  · have last : unescape inHeredoc (encode ['\\']) = [byteOf '\\'] := by
      rw [encode_cons (by decide), unescape_unknown rfl, unescape_nil]
    rw [decodeDouble, unescape_spelled apart (by simp), last, decodeLossy_append _ _ (by decide), decodeLossy_nil]
    rfl
  · rw [decodeDouble, unescape_spelled apart (by simp), unescape_malformed malformed,
      decodeLossy_append _ _ (by decide), decodeLossy_ascii (by decide), decodeLossy_ascii (by decide), decodeDouble]
    rfl

def mixed : List (Segment false) :=
  [.text ['a'] (by decide), .octal ['3', '0', '3'] (by decide) (by decide) (by decide),
    .octal ['2', '5', '1'] (by decide) (by decide) (by decide),
    .octal ['5', '0', '1'] (by decide) (by decide) (by decide), .hex ['9'] (by decide) (by decide) (by decide),
    .text ['-'] (by decide), .codePoint ['0', '0', '4', '1'] 'A' (by decide) (by decide) (by decide),
    .mnemonic .quote (by decide), .unknown 'q' (by decide) (by decide)]

theorem decodeDouble_spelled_mixed :
    Separated mixed ∧
    decodeDouble false "a\\303\\251\\501\\x9-\\u\x7b0041\x7d\\\"\\q".toList = "aéA\t-A\"\\q".toList ∧
    decodeDouble false "a\\303\\251\\501\\x9-\\u\x7b0041\x7d\\\"\\q\\".toList = "aéA\t-A\"\\q\\".toList ∧
    ¬ Completes 'u' "\x7bD800\x7d\\x21".toList ∧
    decodeDouble false "a\\303\\251\\501\\x9-\\u\x7b0041\x7d\\\"\\q\\u\x7bD800\x7d\\x21".toList =
      "aéA\t-A\"\\q\\u\x7bD800\x7d!".toList := by
  have apart : Separated mixed := by decide +kernel
  have meaning : decodeLossy (meant mixed) = "aéA\t-A\"\\q".toList := by decide +kernel
  have spelling : spelled mixed = "a\\303\\251\\501\\x9-\\u\x7b0041\x7d\\\"\\q".toList := by decide +kernel
  have surrogate : ¬ Completes 'u' "\x7bD800\x7d\\x21".toList := by decide +kernel
  have behind : decodeDouble false "D800\x7d\\x21".toList = "D800\x7d!".toList := by decide +kernel
  obtain ⟨whole, last, malformed⟩ := decodeDouble_spelled apart
  rw [spelling, meaning] at whole last
  have kept := malformed "D800\x7d\\x21".toList surrogate
  rw [spelling, meaning, behind] at kept
  exact ⟨apart, whole, last, surrogate, kept⟩

end Strings

end Phrasebook.Php
