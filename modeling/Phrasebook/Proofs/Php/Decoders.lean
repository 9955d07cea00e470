import Phrasebook.Proofs.Php.Decoding
import Phrasebook.Proofs.Php.Spellings
import Phrasebook.Proofs.Php.Heredocs

namespace Phrasebook.Php

open Utf8

section Slicing

variable {text last line : List Char}

def indentWidth (line : List Char) : Checked Nat := difference (byteLength line) (byteLength (line.dropWhile isIndent))

def sliceIndent (indent : Nat) (line : List Char) : Checked (List Char) := do
  let width ← indentWidth line
  sliceFrom line (min width indent)

def sliceHeredoc? (raw : List Char) : Checked (Option (List Char)) := do
  match firstOffset? (· == '\n') raw with
  | none => return none
  | some first =>
    let rest ← sliceFrom raw (first + 1)
    match lastOffset? '\n' rest with
    | none => return some []
    | some last =>
      let text ← slice rest 0 last
      let closing ← sliceFrom rest (last + 1)
      let indent ← indentWidth closing
      let unindented ← (lines (dropReturn text)).mapM (sliceIndent indent)
      return some (['\n'].intercalate unindented)

theorem lines_concat (oneLine : '\n' ∉ last) : lines (text ++ '\n' :: last) = lines text ++ [last] := by
  induction text with
  | nil =>
      have first := @lines_append [] List.not_mem_nil last
      rwa [lines_of_oneLine oneLine] at first
  | cons c text ih =>
      rw [List.cons_append, lines, lines, ih]
      split
      · rfl
      · obtain ⟨line, others, split⟩ := List.exists_cons_of_ne_nil (lines_ne_nil text)
        rw [split]
        rfl

theorem intercalate_lines (text : List Char) : ['\n'].intercalate (lines text) = text := by
  induction text with
  | nil => rfl
  | cons c text ih =>
      obtain ⟨line, others, split⟩ := List.exists_cons_of_ne_nil (lines_ne_nil text)
      rw [split] at ih
      rw [lines, split]
      split
      · rename_i newline
        rw [newline, List.intercalate_cons_cons, ih]
        rfl
      · cases others with
        | nil => simpa using ih
        | cons second others =>
            rw [List.intercalate_cons_cons] at ih ⊢
            rw [List.cons_append, List.cons_append, ih]

theorem indent_ascii : ∀ c ∈ line.takeWhile isIndent, c.toNat < 128 := by
  intro c mem
  have blank := List.all_eq_true.1 (List.all_takeWhile (p := isIndent) (l := line)) c mem
  simp only [isIndent, Bool.or_eq_true, beq_iff_eq] at blank
  rcases blank with rfl | rfl <;> decide

theorem indentWidth_eq (line : List Char) : indentWidth line = .ok (line.takeWhile isIndent).length := by
  have whole : byteLength line = byteLength (line.dropWhile isIndent) + (line.takeWhile isIndent).length := by
    rw [← byteLength_ascii indent_ascii, Nat.add_comm, ← byteLength_append, List.takeWhile_append_dropWhile]
  rw [indentWidth, whole, difference_of_add]

theorem sliceIndent_eq (indent : Nat) (line : List Char) : sliceIndent indent line = .ok (unindent indent line) := by
  have within : line.take (min indent (line.takeWhile isIndent).length) = (line.takeWhile isIndent).take indent := by
    rw [← List.take_take, ← List.prefix_iff_eq_take.1 (List.takeWhile_prefix _)]
  have width : byteLength (line.take (min indent (line.takeWhile isIndent).length)) =
      min (line.takeWhile isIndent).length indent := by
    rw [within, byteLength_ascii fun c mem => indent_ascii c (List.mem_of_mem_take mem), List.length_take, Nat.min_comm]
  have behind := sliceFrom_front (line.take (min indent (line.takeWhile isIndent).length))
    (line.drop (min indent (line.takeWhile isIndent).length))
  rw [List.take_append_drop, width] at behind
  rw [sliceIndent, indentWidth_eq, ok_bind, behind, unindent]

theorem sliceHeredoc?_eq (raw : List Char) : sliceHeredoc? raw = .ok (heredocBody? raw) := by
  rw [sliceHeredoc?, firstOffset?]
  cases found : raw.findIdx? (· == '\n') with
  | none =>
      have oneLine : '\n' ∉ raw := by
        intro mem
        simpa using List.findIdx?_eq_none_iff.1 found _ mem
      rw [heredocBody?, lines_of_oneLine oneLine]
      rfl
  | some n =>
      obtain ⟨header, b, rest, rfl, rfl, same, others⟩ := exists_cut found
      obtain rfl : b = '\n' := by simpa using same
      have oneLine : '\n' ∉ header := by
        intro mem
        simpa using others _ mem
      rw [Option.map_some, List.take_left]
      dsimp only
      rw [sliceFrom_behind (by decide), ok_bind]
      -- Behind the header either the closing line is all there is, or lines stand before it.
      rcases lastOffset?_cases '\n' rest with ⟨none, single⟩ | ⟨text, closing, rfl, last, place⟩
      · have split : lines (header ++ '\n' :: rest) = header :: ([] ++ [rest]) := by
          rw [lines_append oneLine, lines_of_oneLine single]
          rfl
        rw [none, heredocBody?_of_lines split]
        change Except.ok (some []) = _
        simp [dropReturn, lines, unindent]
      · have split : lines (header ++ '\n' :: (text ++ '\n' :: closing)) = header :: (lines text ++ [closing]) := by
          rw [lines_append oneLine, lines_concat last]
        rw [place, heredocBody?_of_lines split, intercalate_lines]
        dsimp only
        rw [slice_front, ok_bind, sliceFrom_behind (by decide), ok_bind, indentWidth_eq, ok_bind,
          funext (sliceIndent_eq _)]
        have all : (lines (dropReturn text)).mapM
            (fun line => (Except.ok (unindent (closing.takeWhile isIndent).length line) : Checked _)) =
            .ok ((lines (dropReturn text)).map (unindent (closing.takeWhile isIndent).length)) := List.mapM_pure
        rw [all, ok_bind]
        rfl

end Slicing

section All

variable {inHeredoc : Bool}

def Segment.number? : Segment inHeredoc → Option Nat
  | .octal digits .. => some (numeral 8 digits)
  | .hex digits .. => some (numeral 16 digits)
  | _ => none

theorem Decoder.turn_known {text : List Char} {written out : List UInt8} {n : Nat} (front : List Char)
    (known : escape? inHeredoc (encode text) = some (written, n)) :
    turn (encode (front ++ '\\' :: text)) ⟨byteLength front, out⟩ inHeredoc =
      .ok ⟨byteLength front + 1 + n, out ++ written⟩ := by
  have read := turn_eq inHeredoc out (encode front) (byteOf '\\') (encode text)
  rw [if_pos rfl, known] at read
  rw [encode_append, encode_cons (by decide)]
  exact read

theorem Decoder.turn_number {segment : Segment inHeredoc} {n : Nat} (given : segment.number? = some n)
    (front : List Char) {rest : List Char} (ends : segment.EndsBefore rest) (out : List UInt8) :
    ∃ b : UInt8, b.toNat = n % 256 ∧
      turn (encode (front ++ (segment.spelling ++ rest))) ⟨byteLength front, out⟩ inHeredoc =
        .ok ⟨byteLength (front ++ segment.spelling), out ++ [b]⟩ := by
  refine ⟨UInt8.ofNat n, UInt8.toNat_ofNat' .., ?_⟩
  cases segment with
  | octal digits some short octal =>
      cases given
      have ascii : ∀ c ∈ '\\' :: digits, c.toNat < 128 :=
        List.forall_mem_cons.2 ⟨by decide, isAsciiClass_octal.ascii octal⟩
      rw [Segment.spelling, byteLength_append, byteLength_ascii ascii, List.cons_append,
        turn_known front (escape?_octal some short octal ends), Nat.add_assoc, Nat.add_comm 1]
      rfl
  | hex digits some short hex =>
      cases given
      have ascii : ∀ c ∈ '\\' :: 'x' :: digits, c.toNat < 128 :=
        List.forall_mem_cons.2 ⟨by decide, List.forall_mem_cons.2 ⟨by decide, isAsciiClass_hex.ascii hex⟩⟩
      rw [Segment.spelling, byteLength_append, byteLength_ascii ascii, List.cons_append, List.cons_append,
        turn_known front (escape?_hex some short hex ends), Nat.add_assoc, Nat.add_comm 1]
      rfl
  | text => cases given
  | mnemonic => cases given
  | codePoint => cases given
  | unknown => cases given

/-- What the decoders keep to on every text. The index goes on in every turn and comes to the end without a byte or a
part beyond it, a number stays within 32 bits and gives its remainder as a byte, and a text without a backslash is its
own value. The text falls apart into segments, and it gets no replacement characters but from numbered bytes and from
their code point. No line of a heredoc is cut inside of a character. -/
theorem decoding_total (inHeredoc : Bool) (text : List Char) :
    (∀ turns, ∃ decoder, Decoder.start.run (encode text) inHeredoc turns = .ok decoder ∧
      decoder.index ≤ byteLength text ∧
      (decoder.index < byteLength text →
        ∃ next, decoder.turn (encode text) inHeredoc = .ok next ∧ decoder.index < next.index)) ∧
    (∃ turns ≤ byteLength text, ∃ decoder, Decoder.start.run (encode text) inHeredoc turns = .ok decoder ∧
      decoder.index = byteLength text ∧ decodeLossy decoder.out = decodeDouble inHeredoc text) ∧
    (∀ radix digits, (parseRadix radix digits).toNat = min (radixValue radix digits) (2 ^ 32 - 1)) ∧
    (∀ (segment : Segment inHeredoc) (n : Nat) (front rest : List Char) (out : List UInt8),
      segment.number? = some n → segment.EndsBefore rest →
      ∃ b : UInt8, b.toNat = n % 256 ∧
        Decoder.turn (encode (front ++ (segment.spelling ++ rest))) ⟨byteLength front, out⟩ inHeredoc =
          .ok ⟨byteLength (front ++ segment.spelling), out ++ [b]⟩) ∧
    ('\\' ∉ text → decodeDouble inHeredoc text = text) ∧
    (∃ (segments : List (Segment inHeredoc)) (tail : List Char), IsSpelling segments tail text) ∧
    (∀ (segments : List (Segment inHeredoc)) (tail : List Char), IsSpelling segments tail text →
      (∀ segment ∈ segments, segment.mayReplace = false) →
      (decodeDouble inHeredoc text).count replacement = text.count replacement) ∧
    sliceHeredoc? text = .ok (heredocBody? text) := by
  have stands := Decoder.start_stands inHeredoc (encode text)
  refine ⟨fun turns => ?_, ?_, toNat_parseRadix, fun segment n front rest out given ends =>
    Decoder.turn_number given front ends out, decodeDouble_plain, exists_isSpelling inHeredoc text,
    fun segments tail spelling => spelling.count_replacement, sliceHeredoc?_eq text⟩
  · obtain ⟨decoder, ends, standing, -⟩ := stands.run turns
    refine ⟨decoder, ends, standing.index_le, fun inside => ?_⟩
    obtain ⟨next, here, -, advances⟩ := standing.turn inside
    exact ⟨next, here, advances⟩
  · obtain ⟨decoder, ends, standing, last⟩ := exists_loop_limit (fun _ stands => stands.index_le)
      (fun _ stands => stands.turn) stands
    exact ⟨byteLength text, Nat.le_refl _, decoder, ends, last, congrArg decodeLossy (standing.out_eq last)⟩

end All

end Phrasebook.Php
