import Phrasebook.Php.Lexer
import Phrasebook.Proofs.Text.Search

namespace Phrasebook.Php

namespace Token

def word (gap : List Skipped) (text : String) : Token := ⟨gap, ⟨.word, text.toList⟩⟩

def symbol (gap : List Skipped) (text : String) : Token := ⟨gap, ⟨.symbol, text.toList⟩⟩

def single (text : List Char) : Token := ⟨[], ⟨.single, text⟩⟩

end Token

theorem lexFrom_eq (frames : List Frame) (before : List Skipped) (text : List Char) :
    lexFrom frames before text =
      match text.drop (lengthOf (separatorsIn frames text)) with
      | [] => [⟨before ++ separatorsIn frames text, ⟨.finish, []⟩⟩]
      | c :: rest =>
        (read frames (c :: rest)).tokens (before ++ separatorsIn frames text) ++
          lexFrom (read frames (c :: rest)).frames [] (rest.drop (read frames (c :: rest)).more) := by
  rw [lexFrom]
  split <;> rename_i same <;> rw [same]

theorem separators_cons {c : Char} {text : List Char} {kind : SkippedKind} {more : Nat}
    (here : separator? (c :: text) = some (kind, more)) :
    separators (c :: text) = ⟨kind, c :: text.take more⟩ :: separators (text.drop more) := by
  rw [separators, here]

theorem separators_of_none {text : List Char} (none : separator? text = none) : separators text = [] := by
  cases text with
  | nil => rw [separators]
  | cons c text => rw [separators, none]

section Steps

variable {c : Char} {text : List Char} {kind : SkippedKind} {more : Nat}

theorem lexFrom_separator (before : List Skipped) (here : separator? (c :: text) = some (kind, more))
    (fits : more ≤ text.length) :
    lexFrom [] before (c :: text) = lexFrom [] (before ++ [⟨kind, c :: text.take more⟩]) (text.drop more) := by
  have gap : separatorsIn [] (c :: text) = ⟨kind, c :: text.take more⟩ :: separatorsIn [] (text.drop more) :=
    separators_cons here
  have same : (c :: text).drop (lengthOf (separatorsIn [] (c :: text))) =
      (text.drop more).drop (lengthOf (separatorsIn [] (text.drop more))) := by
    have length : lengthOf (separatorsIn [] (c :: text)) =
        more + lengthOf (separatorsIn [] (text.drop more)) + 1 := by
      rw [gap]
      simp only [lengthOf, List.flatMap_cons, List.length_append, List.length_cons, List.length_take]
      omega
    rw [length, List.drop_succ_cons, List.drop_drop]
  rw [lexFrom_eq, lexFrom_eq [] _ (text.drop more), same, gap]
  simp

theorem lexFrom_lexeme {lexeme : Lexeme} {frames : List Frame} (before : List Skipped)
    (none : separator? (c :: text) = none) (here : readCode [] (c :: text) = ⟨[lexeme], frames, more⟩) :
    lexFrom [] before (c :: text) = ⟨before, lexeme⟩ :: lexFrom frames [] (text.drop more) := by
  have gap : separatorsIn [] (c :: text) = [] := separators_of_none none
  rw [lexFrom_eq, gap]
  simp [lengthOf, read, here, Reading.tokens]

theorem lexFrom_blank (before : List Skipped) (text : List Char) :
    lexFrom [] before (' ' :: text) = lexFrom [] (before ++ [⟨.blank, [' ']⟩]) text :=
  lexFrom_separator before rfl (Nat.zero_le _)

theorem lexFrom_nil (before : List Skipped) : lexFrom [] before [] = [⟨before, ⟨.finish, []⟩⟩] := by
  rw [lexFrom_eq]
  simp [separatorsIn, inCode, separators, lengthOf]

end Steps

theorem lexFrom_symbol (symbol : String) (before : List Skipped) (text : List Char) (some : symbol.toList ≠ [])
    (none : separator? (symbol.toList ++ text) = none)
    (here : readCode [] (symbol.toList ++ text) = ⟨[⟨.symbol, symbol.toList⟩], [], symbol.toList.length - 1⟩) :
    lexFrom [] before (symbol.toList ++ text) = .symbol before symbol :: lexFrom [] [] text := by
  obtain ⟨c, cs, same⟩ := List.exists_cons_of_ne_nil some
  rw [same, List.cons_append] at none here
  rw [Token.symbol, same, List.cons_append, lexFrom_lexeme before none here]
  simp

theorem takeWhile_append_stop {α : Type} {p : α → Bool} (items : List α) {rest : List α}
    (stops : rest.head?.any p = false) : (items ++ rest).takeWhile p = items.takeWhile p := by
  rw [List.takeWhile_append]
  split
  · rename_i all
    have whole : items.takeWhile p = items := (List.takeWhile_prefix p).eq_of_length all
    cases rest with
    | nil => rw [List.takeWhile_nil, List.append_nil, whole]
    | cons item rest =>
        have stop : ¬ p item = true := Bool.eq_false_iff.1 stops
        rw [List.takeWhile_cons_of_neg stop, List.append_nil, whole]
  · rfl

theorem takeWhile_append_of_head {α : Type} {p : α → Bool} {front rest : List α} (all : front.all p = true)
    (stops : rest.head?.any p = false) : (front ++ rest).takeWhile p = front := by
  rw [takeWhile_append_stop front stops]
  simpa using @List.takeWhile_append_of_pos _ p front [] (List.all_eq_true.1 all)

def isWord (text : List Char) : Bool :=
  text.head?.any isNameStart && text.all isNameChar && text != ['b'] && text != ['B']

theorem letter_bounds {c : Char} (letter : c.isAlpha = true) : 65 ≤ c.toNat ∧ c.toNat ≤ 122 := by
  have cases : decide (c.val ≥ 'A'.val ∧ c.val ≤ 'Z'.val) = true ∨
      (decide (c.val ≥ 'a'.val) && decide (c.val ≤ 'z'.val)) = true := Bool.or_eq_true_iff.1 letter
  simp only [Bool.and_eq_true, decide_eq_true_eq, UInt32.le_iff_toNat_le] at cases
  rcases cases with ⟨low, high⟩ | ⟨low, high⟩
  · exact ⟨low, Nat.le_trans high (by decide)⟩
  · exact ⟨Nat.le_trans (by decide) low, high⟩

theorem isLabelStart_of_isNameStart {c : Char} (starts : isNameStart c = true) : isLabelStart c = true :=
  (Bool.and_eq_true_iff.1 starts).1

theorem separator?_name {c : Char} {text : List Char} (starts : isNameStart c = true) :
    separator? (c :: text) = none := by
  have noSpace : isSpace c = false := by
    have starts := isLabelStart_of_isNameStart starts
    simp only [isLabelStart, Bool.or_eq_true, Bool.and_eq_true, Bool.not_eq_true'] at starts
    rcases starts with (letter | underscore) | ⟨_, other⟩
    · have bounds := letter_bounds letter
      simp only [isSpace, Bool.or_eq_false_iff, Bool.and_eq_false_iff, decide_eq_false_iff_not, beq_eq_false_iff_ne]
      omega
    · rw [beq_iff_eq.1 underscore]
      rfl
    · exact other
  have noMark : '?' ≠ c ∧ '/' ≠ c ∧ '#' ≠ c := by
    refine ⟨?_, ?_, ?_⟩ <;> (rintro rfl; exact absurd starts (by decide))
  have noComment : comment? (c :: text) = none := by
    unfold comment?
    split
    · rename_i same
      exact absurd (List.cons.inj same).1.symm noMark.2.1
    · rename_i same
      exact absurd (List.cons.inj same).1.symm noMark.2.1
    · rename_i same
      exact absurd (List.cons.inj same).1.symm noMark.2.2
    · rfl
  rw [separator?, noSpace, noComment]
  simp [begins, List.isPrefixOf, noMark.1]

theorem lexFrom_name (word : String) (before : List Skipped) (text : List Char)
    (starts : word.toList.head?.any isNameStart = true) (names : word.toList.all isNameChar = true)
    (ends : text.head?.any isNameChar = false)
    (apart : word.toList = ['b'] ∨ word.toList = ['B'] →
      (text.head?.any fun c => c = '\'' ∨ c = '"') = false) :
    lexFrom [] before (word.toList ++ text) = .word before word :: lexFrom [] [] text := by
  have name := takeWhile_append_of_head names ends
  have taken : (word.toList ++ text).take word.toList.length = word.toList := List.take_left
  have noString : ¬ ((word.toList = ['b'] ∨ word.toList = ['B']) ∧
      ((word.toList ++ text).drop 1).head?.any (fun c => c = '\'' ∨ c = '"') = true) := by
    rintro ⟨letter, quote⟩
    have rest : (word.toList ++ text).drop 1 = text := by
      rcases letter with same | same <;> rw [same] <;> rfl
    rw [rest, apart letter] at quote
    cases quote
  have here : readCode [] (word.toList ++ text) = ⟨[⟨.word, word.toList⟩], [], word.toList.length - 1⟩ := by
    have begins : (word.toList ++ text).head?.any isNameStart = true := by
      cases same : word.toList with
      | nil => simp [same] at starts
      | cons c cs => simpa [same] using starts
    rw [readCode, name, if_pos begins, if_neg noString, Reading.one, taken]
  cases same : word.toList with
  | nil => simp [same] at starts
  | cons c cs =>
      rw [same, List.cons_append] at here
      rw [same] at starts
      rw [Token.word, same, List.cons_append, lexFrom_lexeme before (separator?_name starts) here]
      simp

theorem lexFrom_word (word : String) (before : List Skipped) (text : List Char)
    (isWord : isWord word.toList = true) (ends : text.head?.any isNameChar = false) :
    lexFrom [] before (word.toList ++ text) = .word before word :: lexFrom [] [] text := by
  simp only [Php.isWord, Bool.and_eq_true, bne_iff_ne, ne_eq] at isWord
  obtain ⟨⟨⟨starts, names⟩, noB⟩, noB'⟩ := isWord
  exact lexFrom_name word before text starts names ends fun letter => absurd letter (not_or.2 ⟨noB, noB'⟩)

theorem singleLength_name {name : List Char} (text : List Char) (names : name.all isNameChar = true) :
    singleLength (name ++ '\'' :: text) = some (name.length + 1) := by
  induction name with
  | nil =>
      rw [List.nil_append, singleLength.eq_def]
      rfl
  | cons c name ih =>
      simp only [List.all_cons, Bool.and_eq_true] at names
      have noQuote : c ≠ '\'' := by
        rintro rfl
        exact absurd names.1 (by decide)
      have noNul : c ≠ nul := by
        rintro rfl
        exact absurd names.1 (by decide)
      have noEscape : c ≠ '\\' := by
        rintro rfl
        exact absurd names.1 (by decide)
      rw [List.cons_append, singleLength.eq_def]
      simp [noQuote, noNul, noEscape, ih names.2]

theorem lexFrom_single_of_length {inner : List Char} (before : List Skipped) (text : List Char)
    (length : singleLength (inner ++ '\'' :: text) = some (inner.length + 1)) :
    lexFrom [] before ('\'' :: (inner ++ '\'' :: text)) =
      ⟨before, ⟨.single, '\'' :: (inner ++ ['\''])⟩⟩ :: lexFrom [] [] text := by
  have split : inner ++ '\'' :: text = (inner ++ ['\'']) ++ text := by simp
  have size : inner.length + 1 = (inner ++ ['\'']).length := by simp
  have here : readCode [] ('\'' :: (inner ++ '\'' :: text)) =
      ⟨[⟨.single, '\'' :: (inner ++ ['\''])⟩], [], inner.length + 1⟩ := by
    have quoted : readCode [] ('\'' :: (inner ++ '\'' :: text)) =
        readQuote [] 0 ('\'' :: (inner ++ '\'' :: text)) := rfl
    rw [quoted, readQuote]
    simp only [List.drop_zero, length, Reading.one]
    rw [show 0 + 1 + (inner.length + 1) = inner.length + 1 + 1 by omega, List.take_succ_cons, split, size,
      List.take_left]
    rfl
  rw [lexFrom_lexeme before rfl here, split, size, List.drop_left]

theorem lexFrom_single {name : List Char} (text : List Char)
    (names : name.all isNameChar = true) :
    lexFrom [] [] ('\'' :: (name ++ '\'' :: text)) = .single ('\'' :: (name ++ ['\''])) :: lexFrom [] [] text :=
  lexFrom_single_of_length [] text (singleLength_name text names)

def isMarkup (text : List Char) : Bool := (find? ['<', '?'] text).isNone && !text.contains nul

theorem find?_tag {text : List Char} (rest : List Char) (bare : find? ['<', '?'] text = none) :
    find? ['<', '?'] (text ++ '<' :: '?' :: rest) = some text.length :=
  find?_of_unbordered rest (by decide) (find?_eq_none_iff.1 bare)

theorem markupLength?_tag {text : List Char} (rest : List Char) (markup : isMarkup text = true) :
    markupLength? (text ++ '<' :: '?' :: 'p' :: 'h' :: 'p' :: rest) = some (text.length + 5) := by
  simp only [isMarkup, Bool.and_eq_true, Option.isNone_iff_eq_none, Bool.not_eq_true'] at markup
  have tag := find?_tag ('p' :: 'h' :: 'p' :: rest) markup.1
  have needle : "<?".toList = ['<', '?'] := rfl
  rw [markupLength?, needle, tag]
  simp only [List.take_left, List.drop_left, markup.2]
  rfl

theorem markupLength?_end {text : List Char} (markup : isMarkup text = true) :
    markupLength? text = some text.length := by
  simp only [isMarkup, Bool.and_eq_true, Option.isNone_iff_eq_none, Bool.not_eq_true'] at markup
  have needle : "<?".toList = ['<', '?'] := rfl
  rw [markupLength?, needle, markup.1]
  simp only [markup.2]
  rfl

theorem lexFrom_markup {text : List Char} (before : List Skipped) (rest : List Char) (markup : isMarkup text = true) :
    lexFrom [] before ('?' :: '>' :: (text ++ '<' :: '?' :: 'p' :: 'h' :: 'p' :: rest)) =
      lexFrom [] (before ++ [⟨.markup, '?' :: '>' :: (text ++ ['<', '?', 'p', 'h', 'p'])⟩]) rest := by
  have here : separator? ('?' :: '>' :: (text ++ '<' :: '?' :: 'p' :: 'h' :: 'p' :: rest)) =
      some (.markup, text.length + 5 + 1) := by
    change (markupLength? (text ++ '<' :: '?' :: 'p' :: 'h' :: 'p' :: rest)).map _ = _
    rw [markupLength?_tag rest markup]
    rfl
  have length : text.length + 5 + 1 = ('>' :: (text ++ ['<', '?', 'p', 'h', 'p'])).length := by simp
  have split : '>' :: (text ++ '<' :: '?' :: 'p' :: 'h' :: 'p' :: rest) =
      '>' :: (text ++ ['<', '?', 'p', 'h', 'p']) ++ rest := by simp
  rw [lexFrom_separator before here (by simp), length, split, List.take_left, List.drop_left]

theorem lexFrom_markup_end {text : List Char} (before : List Skipped) (markup : isMarkup text = true) :
    lexFrom [] before ('?' :: '>' :: text) =
      [⟨before ++ [⟨.markup, '?' :: '>' :: text⟩], ⟨.finish, []⟩⟩] := by
  have here : separator? ('?' :: '>' :: text) = some (.markup, text.length + 1) := by
    change (markupLength? text).map _ = _
    rw [markupLength?_end markup]
    rfl
  have length : text.length + 1 = ('>' :: text).length := rfl
  rw [lexFrom_separator before here (by simp), length, List.take_length, List.drop_length, lexFrom_nil]

theorem lex_markup {text : List Char} (rest : List Char) (markup : isMarkup text = true) :
    lex (text ++ '<' :: '?' :: 'p' :: 'h' :: 'p' :: rest) =
      lexFrom [] [⟨.markup, text ++ ['<', '?', 'p', 'h', 'p']⟩] rest := by
  have length : text.length + 5 = (text ++ ['<', '?', 'p', 'h', 'p']).length := by simp
  have split : text ++ '<' :: '?' :: 'p' :: 'h' :: 'p' :: rest = (text ++ ['<', '?', 'p', 'h', 'p']) ++ rest := by
    simp
  rw [lex, markupLength?_tag rest markup]
  dsimp only
  rw [length, split, List.take_left, List.drop_left]

theorem lex_markup_end {text : List Char} (markup : isMarkup text = true) :
    lex text = [⟨[⟨.markup, text⟩], ⟨.finish, []⟩⟩] := by
  rw [lex, markupLength?_end markup]
  dsimp only
  rw [List.take_length, List.drop_length, lexFrom_nil]

end Phrasebook.Php
