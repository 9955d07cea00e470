import Phrasebook.Proofs.Php.Escapes

/-!
# Indented heredocs

The closing label of a heredoc may be indented, and its lines with it. This indentation does not belong to the value,
and it is taken away before escapes are replaced.
-/

namespace Phrasebook.Php

open Utf8

/-! ## Lines -/

section Lines

variable {line text : List Char}

theorem lines_append (oneLine : '\n' ∉ line) (rest : List Char) :
    lines (line ++ '\n' :: rest) = line :: lines rest := by
  induction line with
  | nil => rfl
  | cons c line ih =>
      rw [List.mem_cons, not_or] at oneLine
      rw [List.cons_append, lines, if_neg (Ne.symm oneLine.1), ih oneLine.2]

theorem lines_of_oneLine (oneLine : '\n' ∉ line) : lines line = [line] := by
  induction line with
  | nil => rfl
  | cons c line ih =>
      rw [List.mem_cons, not_or] at oneLine
      rw [lines, if_neg (Ne.symm oneLine.1), ih oneLine.2]

theorem lines_ne_nil (text : List Char) : lines text ≠ [] := by
  cases text with
  | nil => exact List.cons_ne_nil _ _
  | cons c rest =>
      rw [lines]
      split
      · exact List.cons_ne_nil _ _
      · split <;> exact List.cons_ne_nil _ _

end Lines

inductive LineEnd
  | lf
  | crlf
  deriving DecidableEq, Repr

namespace LineEnd

def before : LineEnd → List Char
  | lf => []
  | crlf => ['\r']

def text (lineEnd : LineEnd) : List Char := lineEnd.before ++ ['\n']

def join (lineEnd : LineEnd) (items : List (List Char)) : List Char := lineEnd.text.intercalate items

def close (lineEnd : LineEnd) (items : List (List Char)) : List Char := items.flatMap (· ++ lineEnd.text)

variable {lineEnd : LineEnd} {items : List (List Char)} {tail : List Char}

theorem join_cons_cons (first second : List Char) (others : List (List Char)) :
    lineEnd.join (first :: second :: others) = first ++ lineEnd.before ++ '\n' :: lineEnd.join (second :: others) := by
  rw [join, List.intercalate_cons_cons, text, List.append_assoc, List.append_assoc, List.append_assoc]
  rfl

theorem newline_not_mem_before : '\n' ∉ lineEnd.before := by cases lineEnd <;> decide

theorem newline_not_mem_ended {line : List Char} (oneLine : '\n' ∉ line) : '\n' ∉ line ++ lineEnd.before :=
  fun mem => (List.mem_append.1 mem).elim oneLine newline_not_mem_before

theorem lines_close (oneLine : ∀ item ∈ items, '\n' ∉ item) (last : '\n' ∉ tail) :
    lines (lineEnd.close items ++ tail) = items.map (· ++ lineEnd.before) ++ [tail] := by
  induction items with
  | nil => exact lines_of_oneLine last
  | cons item items ih =>
      rw [List.forall_mem_cons] at oneLine
      have split : lineEnd.close (item :: items) ++ tail =
          item ++ lineEnd.before ++ '\n' :: (lineEnd.close items ++ tail) := by simp [close, text]
      rw [split, lines_append (newline_not_mem_ended oneLine.1), ih oneLine.2]
      rfl

theorem intercalate_ended (first : List Char) (others : List (List Char)) :
    ['\n'].intercalate ((first :: others).map (· ++ lineEnd.before)) =
      lineEnd.join (first :: others) ++ lineEnd.before := by
  induction others generalizing first with
  | nil => simp [join]
  | cons second others ih =>
      have later := ih second
      rw [List.map_cons] at later
      rw [List.map_cons, List.map_cons, List.intercalate_cons_cons, later, join_cons_cons]
      simp

theorem not_mem_join {c : Char} {items : List (List Char)} (noEnd : c ∉ lineEnd.text)
    (noItem : ∀ item ∈ items, c ∉ item) : c ∉ lineEnd.join items := by
  match items with
  | [] => exact List.not_mem_nil
  | [item] =>
      rw [join, List.intercalate_singleton]
      exact noItem item (List.mem_singleton_self item)
  | first :: second :: others =>
      rw [List.forall_mem_cons] at noItem
      have later := not_mem_join noEnd noItem.2
      rw [join, List.intercalate_cons_cons, List.mem_append, List.mem_append]
      rintro ((here | here) | here)
      exacts [noItem.1 here, noEnd here, later here]

theorem dropReturn_ended (noReturn : ∀ item ∈ items, '\r' ∉ item) :
    dropReturn (['\n'].intercalate (items.map (· ++ lineEnd.before))) = lineEnd.join items := by
  cases items with
  | nil => rfl
  | cons first others =>
      rw [intercalate_ended, dropReturn]
      -- With line feeds alone there is no return to drop, and none must be found in the last line.
      cases lineEnd with
      | lf =>
          have noLast : (lf.join (first :: others)).getLast? ≠ some '\r' := fun last =>
            not_mem_join (by decide) noReturn (List.mem_of_getLast? last)
          rw [before, List.append_nil, if_neg noLast]
      | crlf => rw [before, List.getLast?_concat, if_pos rfl, List.dropLast_concat]

theorem intercalate_lines_join {f : List Char → List Char} {items : List (List Char)}
    (keeps : ∀ item, f (item ++ lineEnd.before) = f item ++ lineEnd.before)
    (oneLine : ∀ item ∈ items, '\n' ∉ item) (some : items ≠ []) :
    ['\n'].intercalate ((lines (lineEnd.join items)).map f) = lineEnd.join (items.map f) := by
  match items with
  | [] => exact absurd rfl some
  | [item] =>
      have single := lines_of_oneLine (oneLine item (List.mem_singleton_self item))
      simp [join, single]
  | first :: second :: others =>
      rw [List.forall_mem_cons] at oneLine
      have later := intercalate_lines_join keeps oneLine.2 (List.cons_ne_nil _ _)
      obtain ⟨line, more, split⟩ := List.exists_cons_of_ne_nil (lines_ne_nil (lineEnd.join (second :: others)))
      have joined : lineEnd.join ((first :: second :: others).map f) =
          f first ++ lineEnd.before ++ '\n' :: lineEnd.join ((second :: others).map f) := join_cons_cons ..
      rw [split, List.map_cons] at later
      rw [join_cons_cons, lines_append (newline_not_mem_ended oneLine.1), split, List.map_cons, List.map_cons,
        List.intercalate_cons_cons, later, keeps, joined, List.append_assoc _ ['\n']]
      rfl

end LineEnd

/-! ## Indentation -/

theorem unindent_append (width : Nat) (line : List Char) {rest : List Char} (stops : rest.head?.any isIndent = false) :
    unindent width (line ++ rest) = unindent width line ++ rest := by
  have inside : min width (line.takeWhile isIndent).length ≤ line.length :=
    (Nat.min_le_right _ _).trans (List.takeWhile_prefix _).length_le
  rw [unindent, unindent, takeWhile_append_stop line stops, List.drop_append_of_le_length inside]

theorem unindent_indented {indent : List Char} (blanks : indent.all isIndent = true) (text : List Char) :
    unindent indent.length (indent ++ text) = text := by
  have taken : (indent ++ text).takeWhile isIndent = indent ++ text.takeWhile isIndent :=
    List.takeWhile_append_of_pos (List.all_eq_true.1 blanks)
  rw [unindent, taken, List.length_append, Nat.min_eq_left (Nat.le_add_right _ _), List.drop_left]

/-! ## Heredocs -/

/-- A line of a heredoc. An empty one need not be indented. -/
inductive HeredocLine
  | empty
  | indented (text : List Char)
  deriving DecidableEq, Repr

namespace HeredocLine

def text : HeredocLine → List Char
  | empty => []
  | indented text => text

def written (indent : List Char) : HeredocLine → List Char
  | empty => []
  | indented text => indent ++ text

theorem unindent_written {indent : List Char} (blanks : indent.all isIndent = true) (line : HeredocLine) :
    unindent indent.length (line.written indent) = line.text := by
  cases line with
  | empty => exact List.drop_nil
  | indented text => exact unindent_indented blanks text

theorem not_mem_written {c : Char} {indent : List Char} (noIndent : c ∉ indent) {line : HeredocLine}
    (noText : c ∉ line.text) : c ∉ line.written indent := by
  cases line with
  | empty => exact noText
  | indented text => exact fun mem => (List.mem_append.1 mem).elim noIndent noText

end HeredocLine

/-- A heredoc or nowdoc from its header to its closing label. -/
structure Heredoc where
  lineEnd : LineEnd
  header : List Char
  lines : List HeredocLine
  indent : List Char
  label : List Char
  header_oneLine : '\n' ∉ header
  lines_oneLine : ∀ line ∈ lines, '\n' ∉ line.text ∧ '\r' ∉ line.text
  indent_blanks : indent.all isIndent = true
  label_oneLine : '\n' ∉ label
  label_noBlank : label.head?.any isIndent = false

namespace Heredoc

variable (heredoc : Heredoc)

def written : List (List Char) := heredoc.lines.map (·.written heredoc.indent)

def source : List Char :=
  heredoc.header ++ heredoc.lineEnd.text ++ heredoc.lineEnd.close heredoc.written ++ heredoc.indent ++ heredoc.label

def body : List Char := heredoc.lineEnd.join (heredoc.lines.map (·.text))

theorem not_mem_indent {c : Char} (other : isIndent c = false) : c ∉ heredoc.indent := fun mem =>
  Bool.eq_false_iff.1 other (List.all_eq_true.1 heredoc.indent_blanks c mem)

theorem written_oneLine : ∀ item ∈ heredoc.written, '\n' ∉ item ∧ '\r' ∉ item := by
  intro item mem
  obtain ⟨line, inside, rfl⟩ := List.mem_map.1 mem
  obtain ⟨noFeed, noReturn⟩ := heredoc.lines_oneLine line inside
  exact ⟨HeredocLine.not_mem_written (heredoc.not_mem_indent rfl) noFeed,
    HeredocLine.not_mem_written (heredoc.not_mem_indent rfl) noReturn⟩

theorem lines_source :
    Php.lines heredoc.source =
      (heredoc.header ++ heredoc.lineEnd.before) ::
        (heredoc.written.map (· ++ heredoc.lineEnd.before) ++ [heredoc.indent ++ heredoc.label]) := by
  have closing : '\n' ∉ heredoc.indent ++ heredoc.label := fun mem =>
    (List.mem_append.1 mem).elim (heredoc.not_mem_indent rfl) heredoc.label_oneLine
  have all : ∀ item ∈ heredoc.header :: heredoc.written, '\n' ∉ item :=
    List.forall_mem_cons.2 ⟨heredoc.header_oneLine, fun item mem => (heredoc.written_oneLine item mem).1⟩
  have split : heredoc.source =
      heredoc.lineEnd.close (heredoc.header :: heredoc.written) ++ (heredoc.indent ++ heredoc.label) := by
    simp [source, LineEnd.close]
  rw [split, LineEnd.lines_close all closing]
  rfl

end Heredoc

theorem heredocBody?_of_lines {text header closing : List Char} {body : List (List Char)}
    (split : lines text = header :: (body ++ [closing])) :
    heredocBody? text = some (['\n'].intercalate
      ((lines (dropReturn (['\n'].intercalate body))).map (unindent (closing.takeWhile isIndent).length))) := by
  cases body with
  | nil =>
      rw [heredocBody?, split]
      rfl
  | cons line others =>
      have last : (line :: (others ++ [closing])).getLast (by simp) = closing :=
        @List.getLast_concat _ closing (line :: others)
      have front : (line :: (others ++ [closing])).dropLast = line :: others :=
        @List.dropLast_concat _ (line :: others) closing
      rw [heredocBody?, split]
      simp only [List.cons_append, last, front]

theorem heredocBody?_source (heredoc : Heredoc) : heredocBody? heredoc.source = some heredoc.body := by
  have width : (heredoc.indent ++ heredoc.label).takeWhile isIndent = heredoc.indent :=
    takeWhile_append_of_head heredoc.indent_blanks heredoc.label_noBlank
  have oneLine : ∀ item ∈ heredoc.written, '\n' ∉ item := fun item mem => (heredoc.written_oneLine item mem).1
  have keeps (item : List Char) : unindent heredoc.indent.length (item ++ heredoc.lineEnd.before) =
      unindent heredoc.indent.length item ++ heredoc.lineEnd.before :=
    unindent_append _ item (by cases heredoc.lineEnd <;> rfl)
  have undone : heredoc.written.map (unindent heredoc.indent.length) = heredoc.lines.map (·.text) := by
    rw [Heredoc.written, List.map_map]
    exact List.map_congr_left fun line _ => line.unindent_written heredoc.indent_blanks
  rw [heredocBody?_of_lines heredoc.lines_source, width,
    LineEnd.dropReturn_ended fun item mem => (heredoc.written_oneLine item mem).2]
  by_cases some : heredoc.written = []
  · have noLine : heredoc.lines.map (·.text) = [] := by rw [← undone, some, List.map_nil]
    rw [Heredoc.body, noLine, some]
    simp [LineEnd.join, lines, unindent]
  · rw [LineEnd.intercalate_lines_join keeps oneLine some, undone, Heredoc.body]

example : heredocBody? "<<<EOT\n  EOT".toList = some [] := by decide

/-! ## Escapes and line breaks -/

section Breaks

variable {inHeredoc : Bool} {b : UInt8} {bytes out : List UInt8} {n : Nat}

def breakBytes : List UInt8 := [0x0A, 0x0D]

theorem not_special_of_break : ∀ b ∈ breakBytes, isOctalByte b = false ∧ isHexByte b = false ∧
    b ≠ byteOf '\\' ∧ b ≠ byteOf '\x7b' ∧ b ≠ byteOf '\x7d' := by decide +kernel

theorem takeWhile_take_append {p : UInt8 → Bool} (bytes rest : List UInt8) (n : Nat) (stop : p b = false) :
    ((bytes ++ b :: rest).take n).takeWhile p = (bytes.take n).takeWhile p := by
  rw [List.take_append]
  apply takeWhile_append_stop
  rw [List.head?_take]
  split
  · rfl
  · exact stop

theorem head?_append_ne {other : UInt8} (bytes rest : List UInt8) (differs : b ≠ other) :
    (bytes ++ b :: rest).head? = some other ↔ bytes.head? = some other := by
  cases bytes with
  | nil => simp [differs]
  | cons first bytes => rfl

theorem codePoint?_append (brk : b ∈ breakBytes) (bytes rest : List UInt8) :
    codePoint? (bytes ++ b :: rest) = codePoint? bytes := by
  obtain ⟨-, noHex, -, noOpening, noClosing⟩ := not_special_of_break b brk
  cases bytes with
  | nil => exact if_neg fun braced => noOpening braced.1
  | cons opening bytes =>
      have digits : (bytes ++ b :: rest).takeWhile isHexByte = _ := takeWhile_append_stop bytes noHex
      have inside : (bytes.takeWhile isHexByte).length ≤ bytes.length := (List.takeWhile_prefix _).length_le
      have closing := head?_append_ne (bytes.drop (bytes.takeWhile isHexByte).length) rest noClosing
      rw [List.cons_append, codePoint?, codePoint?]
      simp only [digits, List.drop_append_of_le_length inside, closing]

theorem escape?_append (brk : b ∈ breakBytes) (bytes rest : List UInt8) :
    escape? inHeredoc (bytes ++ b :: rest) = escape? inHeredoc bytes := by
  obtain ⟨noOctal, noHex, -⟩ := not_special_of_break b brk
  cases bytes with
  | nil =>
      simp only [breakBytes, List.mem_cons, List.not_mem_nil, or_false] at brk
      rcases brk with rfl | rfl <;> cases inHeredoc <;> rfl
  | cons letter bytes =>
      have octal := takeWhile_take_append (letter :: bytes) rest 3 noOctal
      have hex := takeWhile_take_append bytes rest 2 noHex
      have head : (bytes ++ b :: rest).head?.any isHexByte = bytes.head?.any isHexByte := by
        cases bytes with
        | nil => exact noHex
        | cons first bytes => rfl
      rw [List.cons_append] at octal
      rw [List.cons_append, escape?, escape?, octal, hex, head, codePoint?_append brk]

theorem unescape_break (brk : b ∈ breakBytes) (bytes rest : List UInt8) :
    unescape inHeredoc (bytes ++ b :: rest) = unescape inHeredoc bytes ++ b :: unescape inHeredoc rest := by
  obtain ⟨-, -, noBackslash, -⟩ := not_special_of_break b brk
  -- By recursion on the length, since an escape takes several bytes at once.
  match bytes with
  | [] =>
      have empty : unescape inHeredoc [] = [] := by rw [unescape]
      rw [List.nil_append, empty, List.nil_append, unescape, if_neg noBackslash]
  | first :: bytes =>
      rw [List.cons_append, unescape, unescape, escape?_append brk]
      split
      · cases escaped : escape? inHeredoc bytes with
        | none =>
            rw [unescape_break brk bytes rest]
            rfl
        | some escape =>
            obtain ⟨out, n⟩ := escape
            dsimp only
            rw [List.drop_append_of_le_length (escape?_le escaped), unescape_break brk (bytes.drop n) rest,
              List.append_assoc]
      · rw [unescape_break brk bytes rest]
        rfl
termination_by bytes.length
decreasing_by all_goals simp only [List.length_cons, List.length_drop]; omega

theorem decodeDouble_break {c : Char} (brk : c = '\n' ∨ c = '\r') (text rest : List Char) :
    decodeDouble inHeredoc (text ++ c :: rest) =
      decodeDouble inHeredoc text ++ c :: decodeDouble inHeredoc rest := by
  have byte : byteOf c ∈ breakBytes := by rcases brk with rfl | rfl <;> decide
  have ascii : c.toNat < 128 := by rcases brk with rfl | rfl <;> decide
  have small : byteOf c < 0x80 := by rcases brk with rfl | rfl <;> decide
  have back : Char.ofNat (byteOf c).toNat = c := charOf_byteOf ascii
  rw [decodeDouble, encode_append, encode_cons ascii, unescape_break byte, decodeLossy_append _ _ small, back]
  rfl

theorem decodeDouble_nil : decodeDouble inHeredoc [] = [] := by rw [decodeDouble, unescape_nil, decodeLossy_nil]

theorem decodeDouble_join (lineEnd : LineEnd) (items : List (List Char)) :
    decodeDouble inHeredoc (lineEnd.join items) = lineEnd.join (items.map (decodeDouble inHeredoc)) := by
  match items with
  | [] => exact decodeDouble_nil
  | [item] => simp [LineEnd.join]
  | first :: second :: others =>
      have later := decodeDouble_join lineEnd (second :: others)
      have joined : lineEnd.join ((first :: second :: others).map (decodeDouble inHeredoc)) =
          decodeDouble inHeredoc first ++ lineEnd.before ++
            '\n' :: lineEnd.join ((second :: others).map (decodeDouble inHeredoc)) := LineEnd.join_cons_cons ..
      have kept : decodeDouble inHeredoc (first ++ lineEnd.before) = decodeDouble inHeredoc first ++ lineEnd.before := by
        cases lineEnd with
        | lf => rw [LineEnd.before, List.append_nil, List.append_nil]
        | crlf => rw [LineEnd.before, decodeDouble_break (.inr rfl), decodeDouble_nil]
      rw [LineEnd.join_cons_cons, decodeDouble_break (.inl rfl), later, joined, kept]

end Breaks

/-! ## Values -/

/-- The value of a heredoc without substitutions. What an escape stands for is not yet there when the indentation is
taken away, and each line is decoded as if it stood alone. In a nowdoc nothing is decoded. -/
theorem literal?_heredoc (heredoc : Heredoc) :
    heredocBody? heredoc.source = some heredoc.body ∧
    ∀ parts : List Node,
      ((Node.branch .nowdoc parts).text = heredoc.source → literal? (.branch .nowdoc parts) = some heredoc.body) ∧
      ((Node.branch .heredoc parts).text = heredoc.source → parts.all isPlainPart = true →
        literal? (.branch .heredoc parts) = some (decodeDouble true heredoc.body) ∧
        decodeDouble true heredoc.body =
          heredoc.lineEnd.join (heredoc.lines.map fun line => decodeDouble true line.text)) := by
  have body := heredocBody?_source heredoc
  refine ⟨body, fun parts => ⟨fun text => ?_, fun text plain => ⟨?_, ?_⟩⟩⟩
  · rw [literal?, text, body]
  · rw [literal?, if_pos plain, text, body]
    rfl
  · rw [Heredoc.body, decodeDouble_join, List.map_map]
    rfl

def greeting : Heredoc :=
  ⟨.crlf, "<<<EOT".toList, [.indented "  Dear,".toList, .empty, .indented "\\x20\\t\\nyou".toList], "\t ".toList,
    "EOT".toList, by decide, by decide, by decide, by decide, by decide⟩

def greetingParts : List Node :=
  [.leaf ⟨[], ⟨.opener, "<<<EOT".toList⟩⟩,
    .leaf ⟨[], ⟨.chunk, "\r\n\t   Dear,\r\n\r\n\t \\x20\\t\\nyou\r\n\t ".toList⟩⟩,
    .leaf ⟨[], ⟨.closer, "EOT".toList⟩⟩]

theorem literal?_heredoc_greeting :
    (Node.branch .nowdoc [.leaf ⟨[], ⟨.nowdoc, greeting.source⟩⟩]).text = greeting.source ∧
    literal? (.branch .nowdoc [.leaf ⟨[], ⟨.nowdoc, greeting.source⟩⟩]) =
      some "  Dear,\r\n\r\n\\x20\\t\\nyou".toList ∧
    (Node.branch .heredoc greetingParts).text = greeting.source ∧ greetingParts.all isPlainPart = true ∧
    literal? (.branch .heredoc greetingParts) = some "  Dear,\r\n\r\n \t\nyou".toList := by
  have nowdoc : (Node.branch .nowdoc [.leaf ⟨[], ⟨.nowdoc, greeting.source⟩⟩]).text = greeting.source := by
    decide +kernel
  have heredoc : (Node.branch .heredoc greetingParts).text = greeting.source := by decide +kernel
  have plain : greetingParts.all isPlainPart = true := rfl
  have values := (literal?_heredoc greeting).2
  have decoded : decodeDouble true greeting.body = "  Dear,\r\n\r\n \t\nyou".toList := by decide +kernel
  refine ⟨nowdoc, (values _).1 nowdoc, heredoc, plain, ?_⟩
  rw [((values greetingParts).2 heredoc plain).1, decoded]

end Phrasebook.Php
