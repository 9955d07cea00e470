import Phrasebook.Proofs.Php.Escapes

namespace Phrasebook.Php

open Utf8

structure IsSpelling {inHeredoc : Bool} (segments : List (Segment inHeredoc)) (tail text : List Char) : Prop where
  apart : Separated segments
  last : tail = [] ∨ tail = ['\\']
  split : text = spelled segments ++ tail

section Beginnings

variable {inHeredoc : Bool} {c : Char} {text rest tail : List Char}

theorem head?_any_of_append {p : Char → Bool} (none : (text ++ rest).head?.any p = false) :
    text.head?.any p = false := by
  cases text with
  | nil => rfl
  | cons c text => exact none

theorem Completes.append (completes : Completes c text) (rest : List Char) : Completes c (text ++ rest) := by
  rcases completes with ⟨rfl, digit⟩ | ⟨rfl, digits, after, rfl, some, hex, valid⟩
  · cases text with
    | nil => cases digit
    | cons d text => exact .inl ⟨rfl, digit⟩
  · exact .inr ⟨rfl, digits, after ++ rest, by simp, some, hex, valid⟩

theorem Segment.EndsBefore.of_append {segment : Segment inHeredoc} (ends : segment.EndsBefore (text ++ rest)) :
    segment.EndsBefore text := by
  cases segment with
  | octal => exact fun short => head?_any_of_append (ends short)
  | hex => exact fun short => head?_any_of_append (ends short)
  | unknown => exact fun completes => ends (completes.append rest)
  | text => trivial
  | mnemonic => trivial
  | codePoint => trivial

theorem IsSpelling.cons {segments : List (Segment inHeredoc)} (spelling : IsSpelling segments tail text)
    {segment : Segment inHeredoc} (ends : segment.EndsBefore text) :
    IsSpelling (segment :: segments) tail (segment.spelling ++ text) where
  apart := ⟨(spelling.split ▸ ends : segment.EndsBefore (spelled segments ++ tail)).of_append, spelling.apart⟩
  last := spelling.last
  split := by
    have all : spelled (segment :: segments) = segment.spelling ++ spelled segments := List.flatMap_cons
    rw [all, List.append_assoc, ← spelling.split]

theorem exists_run (p : Char → Bool) (n : Nat) (text : List Char) :
    ∃ digits rest, text = digits ++ rest ∧ digits.length ≤ n ∧ digits.all p = true ∧
      (digits.length < n → rest.head?.any p = false) := by
  induction n generalizing text with
  | zero => exact ⟨[], text, rfl, Nat.le_refl 0, rfl, nofun⟩
  | succ n ih =>
      match text with
      | [] => exact ⟨[], [], rfl, Nat.zero_le _, rfl, fun _ => rfl⟩
      | c :: text =>
          cases digit : p c with
          | true =>
              obtain ⟨digits, rest, rfl, short, all, ends⟩ := ih text
              refine ⟨c :: digits, rest, rfl, Nat.succ_le_succ short, ?_, fun less => ?_⟩
              · rw [List.all_cons, digit, all]
                rfl
              · exact ends (Nat.lt_of_succ_lt_succ less)
          | false => exact ⟨[], c :: text, rfl, Nat.zero_le _, rfl, fun _ => digit⟩

theorem exists_digits {p : Char → Bool} (first : text.head?.any p = true) {n : Nat} (positive : 0 < n) :
    ∃ digits rest, text = digits ++ rest ∧ digits ≠ [] ∧ digits.length ≤ n ∧ digits.all p = true ∧
      (digits.length < n → rest.head?.any p = false) := by
  obtain ⟨digits, rest, rfl, short, all, ends⟩ := exists_run p n text
  refine ⟨digits, rest, rfl, ?_, short, all, ends⟩
  rintro rfl
  rw [List.nil_append, ends positive] at first
  cases first

theorem exists_segment (inHeredoc : Bool) (c : Char) (text : List Char) :
    ∃ (segment : Segment inHeredoc) (rest : List Char), '\\' :: c :: text = segment.spelling ++ rest ∧
      segment.EndsBefore rest ∧ rest.length ≤ text.length := by
  by_cases letter : ∃ mnemonic ∈ mnemonics inHeredoc, mnemonic.letter = c
  · obtain ⟨mnemonic, known, rfl⟩ := letter
    exact ⟨.mnemonic mnemonic known, text, rfl, trivial, Nat.le_refl _⟩
  have noLetter : ∀ mnemonic ∈ mnemonics inHeredoc, mnemonic.letter ≠ c := fun mnemonic known same =>
    letter ⟨mnemonic, known, same⟩
  cases octal : isOctalDigit c with
  | true =>
      have first : (c :: text).head?.any isOctalDigit = true := octal
      obtain ⟨digits, rest, split, some, short, all, ends⟩ := exists_digits first (by decide : 0 < 3)
      have positive := List.length_pos_iff.2 some
      have lengths := congrArg List.length split
      simp only [List.length_cons, List.length_append] at lengths
      exact ⟨.octal digits some short all, rest, congrArg _ split, ends, by omega⟩
  | false =>
      by_cases completes : Completes c text
      · rcases completes with ⟨rfl, digit⟩ | ⟨rfl, digits, after, rfl, some, hex, valid⟩
        · obtain ⟨digits, rest, rfl, some, short, all, ends⟩ := exists_digits digit (by decide : 0 < 2)
          exact ⟨.hex digits some short all, rest, rfl, ends, by simp⟩
        · have value : numeral 16 digits = (Char.ofNat (numeral 16 digits)).toNat := by
            rw [Char.ofNat, dif_pos valid]
            rfl
          refine ⟨.codePoint digits (Char.ofNat (numeral 16 digits)) some hex value, after, ?_, trivial, ?_⟩
          · simp [Segment.spelling]
          · simp only [List.length_cons, List.length_append]
            omega
      · exact ⟨.unknown c noLetter octal, text, rfl, completes, Nat.le_refl _⟩

theorem exists_isSpelling (inHeredoc : Bool) (text : List Char) :
    ∃ (segments : List (Segment inHeredoc)) (tail : List Char), IsSpelling segments tail text := by
  match text with
  | [] => exact ⟨[], [], trivial, .inl rfl, rfl⟩
  | c :: text =>
      by_cases plain : c = '\\'
      · subst plain
        match text with
        | [] => exact ⟨[], ['\\'], trivial, .inr rfl, rfl⟩
        | d :: text =>
            obtain ⟨segment, rest, split, ends, shorter⟩ := exists_segment inHeredoc d text
            obtain ⟨segments, tail, spelling⟩ := exists_isSpelling inHeredoc rest
            exact ⟨segment :: segments, tail, split ▸ spelling.cons ends⟩
      · obtain ⟨segments, tail, spelling⟩ := exists_isSpelling inHeredoc text
        have alone : '\\' ∉ [c] := by simpa using Ne.symm plain
        have ends : (Segment.text [c] alone : Segment inHeredoc).EndsBefore text := trivial
        exact ⟨.text [c] alone :: segments, tail, spelling.cons ends⟩
termination_by text.length
decreasing_by all_goals simp only [List.length_cons]; omega

end Beginnings

section Replacements

variable {inHeredoc : Bool} {segments : List (Segment inHeredoc)} {tail text : List Char}

def Segment.mayReplace : Segment inHeredoc → Bool
  | .octal .. => true
  | .hex .. => true
  | .codePoint _ c .. => c == replacement
  | _ => false

theorem Mnemonic.meaning_eq (mnemonic : Mnemonic) :
    [mnemonic.byte] = encode [charOf mnemonic.byte] ∧ charOf mnemonic.byte ≠ replacement ∧
      mnemonic.letter ≠ replacement := by
  cases mnemonic <;> decide +kernel

theorem Segment.exists_meaning {segment : Segment inHeredoc} (keeps : segment.mayReplace = false) :
    ∃ chars, segment.meaning = encode chars ∧ chars.count replacement = segment.spelling.count replacement := by
  cases segment with
  | text chars plain => exact ⟨chars, rfl, rfl⟩
  | mnemonic letter known =>
      obtain ⟨same, noByte, noLetter⟩ := letter.meaning_eq
      refine ⟨_, same, ?_⟩
      rw [spelling, List.count_eq_zero.2 (by simpa using noByte.symm), List.count_eq_zero.2 ?_]
      simpa using ⟨by decide, noLetter.symm⟩
  | octal => cases keeps
  | hex => cases keeps
  | codePoint digits c some hex value =>
      have noChar : c ≠ replacement := by simpa [mayReplace] using keeps
      have noDigit : replacement ∉ digits := fun mem =>
        absurd (List.all_eq_true.1 hex _ mem) (by decide)
      refine ⟨[c], (List.flatMap_singleton ..).symm, ?_⟩
      rw [spelling, List.count_eq_zero.2 (by simpa using noChar.symm), List.count_eq_zero.2 ?_]
      simpa using ⟨by decide, by decide, by decide, noDigit, by decide⟩
  | unknown c => exact ⟨['\\', c], rfl, rfl⟩

theorem exists_meant (keeps : ∀ segment ∈ segments, segment.mayReplace = false) :
    ∃ chars, meant segments = encode chars ∧ chars.count replacement = (spelled segments).count replacement := by
  induction segments with
  | nil => exact ⟨[], rfl, rfl⟩
  | cons segment segments ih =>
      rw [List.forall_mem_cons] at keeps
      obtain ⟨first, means, same⟩ := segment.exists_meaning keeps.1
      obtain ⟨others, mean, same'⟩ := ih keeps.2
      refine ⟨first ++ others, ?_, ?_⟩
      · rw [encode_append, ← means, ← mean]
        exact List.flatMap_cons
      · rw [List.count_append, same, same', ← List.count_append]
        exact congrArg _ List.flatMap_cons.symm

theorem IsSpelling.decodeDouble_eq (spelling : IsSpelling segments tail text) :
    decodeDouble inHeredoc text = decodeLossy (meant segments) ++ tail := by
  obtain ⟨apart, rfl | rfl, rfl⟩ := spelling
  · rw [decodeDouble, unescape_spelled apart (by simp), unescape_nil, List.append_nil, List.append_nil]
  · have last : unescape inHeredoc (encode ['\\']) = [byteOf '\\'] := by
      rw [encode_cons (by decide), unescape_unknown rfl, unescape_nil]
    rw [decodeDouble, unescape_spelled apart (by simp), last, decodeLossy_append _ _ (by decide), decodeLossy_nil]
    rfl

theorem decodeDouble_plain (plain : '\\' ∉ text) : decodeDouble inHeredoc text = text := by
  have spelling : @IsSpelling inHeredoc [.text text plain] [] text :=
    ⟨⟨trivial, trivial⟩, .inl rfl, by simp [spelled, Segment.spelling]⟩
  have meaning : meant [(.text text plain : Segment inHeredoc)] = encode text := by simp [meant, Segment.meaning]
  rw [spelling.decodeDouble_eq, meaning, decodeLossy_encode, List.append_nil]

theorem IsSpelling.count_replacement (spelling : IsSpelling segments tail text)
    (keeps : ∀ segment ∈ segments, segment.mayReplace = false) :
    (decodeDouble inHeredoc text).count replacement = text.count replacement := by
  obtain ⟨chars, means, same⟩ := exists_meant keeps
  rw [spelling.decodeDouble_eq, means, decodeLossy_encode, List.count_append, same, ← List.count_append,
    ← spelling.split]

end Replacements

end Phrasebook.Php
