import Phrasebook.Proofs.Template.Tags

namespace Phrasebook.Template

def isQuote (c : Char) : Bool := c == '\'' || c == '"'

inductive InQuotes (quote : Char) : List Char → Prop
  | nil : InQuotes quote []
  | plain {c : Char} {text : List Char} (other : c ≠ quote) (noEscape : c ≠ '\\') (rest : InQuotes quote text) :
      InQuotes quote (c :: text)
  | escaped (c : Char) {text : List Char} (rest : InQuotes quote text) : InQuotes quote ('\\' :: c :: text)

inductive Balanced : List Char → Prop
  | nil : Balanced []
  | plain {c : Char} {text : List Char} (noQuote : isQuote c = false) (noOpening : c ≠ '(') (noClosing : c ≠ ')')
      (rest : Balanced text) : Balanced (c :: text)
  | string {quote : Char} {inside text : List Char} (quotes : isQuote quote = true) (whole : InQuotes quote inside)
      (rest : Balanced text) : Balanced (quote :: (inside ++ quote :: text))
  | list {inside text : List Char} (inner : Balanced inside) (rest : Balanced text) :
      Balanced ('(' :: (inside ++ ')' :: text))

theorem InQuotes.of_all {quote : Char} {text : List Char}
    (plain : text.all (fun c => c != quote && c != '\\') = true) : InQuotes quote text := by
  induction text with
  | nil => exact .nil
  | cons c text ih =>
      simp only [List.all_cons, Bool.and_eq_true, bne_iff_ne] at plain
      exact .plain plain.1.1 plain.1.2 (ih plain.2)

theorem Balanced.of_all {code : List Char}
    (plain : code.all (fun c => !isQuote c && c != '(' && c != ')') = true) : Balanced code := by
  induction code with
  | nil => exact .nil
  | cons c code ih =>
      simp only [List.all_cons, Bool.and_eq_true, Bool.not_eq_true', bne_iff_ne] at plain
      exact .plain plain.1.1.1 plain.1.1.2 plain.1.2 (ih plain.2)

section Steps

variable {depth : Nat} {c quote : Char} {text : List Char}

theorem closing?_plain (noQuote : isQuote c = false) (noOpening : c ≠ '(') (noClosing : c ≠ ')') :
    closing? ⟨depth, none⟩ (c :: text) = (closing? ⟨depth, none⟩ text).map (· + 1) := by
  simp only [isQuote, Bool.or_eq_false_iff, beq_eq_false_iff_ne] at noQuote
  rw [closing?.eq_def]
  simp [Nesting.next?, noQuote.1, noQuote.2, noOpening, noClosing]

theorem closing?_opening : closing? ⟨depth, none⟩ ('(' :: text) = (closing? ⟨depth + 1, none⟩ text).map (· + 1) := by
  rw [closing?.eq_def]
  simp [Nesting.next?]

theorem closing?_last : closing? ⟨1, none⟩ (')' :: text) = some 0 := by
  rw [closing?.eq_def]
  simp [Nesting.next?]

theorem closing?_inner : closing? ⟨depth + 2, none⟩ (')' :: text) =
    (closing? ⟨depth + 1, none⟩ text).map (· + 1) := by
  rw [closing?.eq_def]
  simp [Nesting.next?]

theorem closing?_quote (quotes : isQuote quote = true) :
    closing? ⟨depth, none⟩ (quote :: text) = (closing? ⟨depth, some quote⟩ text).map (· + 1) := by
  simp only [isQuote, Bool.or_eq_true, beq_iff_eq] at quotes
  rw [closing?.eq_def]
  simp [Nesting.next?, quotes]

theorem closing?_unquote (quotes : isQuote quote = true) :
    closing? ⟨depth, some quote⟩ (quote :: text) = (closing? ⟨depth, none⟩ text).map (· + 1) := by
  have noEscape : quote ≠ '\\' := by
    rintro rfl
    exact absurd quotes (by decide)
  rw [closing?.eq_def]
  simp [Nesting.next?, noEscape]

theorem closing?_quoted (other : c ≠ quote) (noEscape : c ≠ '\\') :
    closing? ⟨depth, some quote⟩ (c :: text) = (closing? ⟨depth, some quote⟩ text).map (· + 1) := by
  rw [closing?.eq_def]
  simp [Nesting.next?, other, noEscape]

theorem closing?_escaped : closing? ⟨depth, some quote⟩ ('\\' :: c :: text) =
    (closing? ⟨depth, some quote⟩ text).map (· + 2) := by
  rw [closing?.eq_def]
  simp

end Steps

section Passing

variable {depth : Nat} {quote : Char} {inside : List Char}

theorem closing?_inQuotes (whole : InQuotes quote inside) (quotes : isQuote quote = true) (rest : List Char) :
    closing? ⟨depth, some quote⟩ (inside ++ quote :: rest) =
      (closing? ⟨depth, none⟩ rest).map (· + (inside.length + 1)) := by
  induction whole with
  | nil => exact closing?_unquote quotes
  | plain other noEscape _ ih =>
      rw [List.cons_append, closing?_quoted other noEscape, ih, Option.map_map]
      rfl
  | escaped c _ ih =>
      rw [List.cons_append, List.cons_append, closing?_escaped, ih, Option.map_map]
      rfl

theorem closing?_balanced (balanced : Balanced inside) (rest : List Char) :
    closing? ⟨depth + 1, none⟩ (inside ++ rest) =
      (closing? ⟨depth + 1, none⟩ rest).map (· + inside.length) := by
  induction balanced generalizing depth rest with
  | nil => simp
  | plain noQuote noOpening noClosing _ ih =>
      rw [List.cons_append, closing?_plain noQuote noOpening noClosing, ih, Option.map_map]
      rfl
  | @string quote inside text quotes whole _ ih =>
      have split : quote :: (inside ++ quote :: text) ++ rest = quote :: (inside ++ quote :: (text ++ rest)) := by simp
      rw [split, closing?_quote quotes, closing?_inQuotes whole quotes, ih, Option.map_map, Option.map_map]
      congr 1
      funext n
      simp only [Function.comp, List.length_cons, List.length_append]
      omega
  | @list inside text _ _ inner outer =>
      have split : '(' :: (inside ++ ')' :: text) ++ rest = '(' :: (inside ++ ')' :: (text ++ rest)) := by simp
      rw [split, closing?_opening, inner, closing?_inner, outer, Option.map_map, Option.map_map, Option.map_map]
      congr 1
      funext n
      simp only [Function.comp, List.length_cons, List.length_append]
      omega

end Passing

theorem exists_inQuotes {depth : Nat} {quote : Char} {text : List Char}
    (closes : (closing? ⟨depth, some quote⟩ text).isSome = true) :
    ∃ inside rest, InQuotes quote inside ∧ text = inside ++ quote :: rest := by
  match text with
  | [] => cases closes
  | c :: text =>
      by_cases ends : c = quote
      · exact ⟨[], text, .nil, by rw [ends, List.nil_append]⟩
      by_cases escape : c = '\\'
      · subst escape
        cases text with
        | nil =>
            rw [closing?.eq_def] at closes
            simp at closes
        | cons d text =>
            rw [closing?_escaped, Option.isSome_map] at closes
            obtain ⟨inside, rest, whole, rfl⟩ := exists_inQuotes closes
            exact ⟨'\\' :: d :: inside, rest, .escaped d whole, rfl⟩
      · rw [closing?_quoted ends escape, Option.isSome_map] at closes
        obtain ⟨inside, rest, whole, rfl⟩ := exists_inQuotes closes
        exact ⟨c :: inside, rest, .plain ends escape whole, rfl⟩
termination_by text.length

theorem exists_balanced {depth : Nat} {text : List Char}
    (closes : (closing? ⟨depth + 1, none⟩ text).isSome = true) :
    ∃ inside rest, Balanced inside ∧ text = inside ++ ')' :: rest := by
  -- After a quote or a parenthesis that opens, the search goes on behind what it has passed.
  match text with
  | [] => cases closes
  | c :: text =>
      by_cases closing : c = ')'
      · exact ⟨[], text, .nil, by rw [closing, List.nil_append]⟩
      by_cases opening : c = '('
      · rw [opening, closing?_opening, Option.isSome_map] at closes
        obtain ⟨inner, others, balanced, same⟩ := exists_balanced closes
        have shorter : others.length < text.length := by
          simp only [same, List.length_append, List.length_cons]
          omega
        rw [same, closing?_balanced balanced, closing?_inner, Option.isSome_map, Option.isSome_map] at closes
        obtain ⟨inside, rest, after, rfl⟩ := exists_balanced closes
        exact ⟨'(' :: (inner ++ ')' :: inside), rest, .list balanced after, by simp [opening, same]⟩
      cases quotes : isQuote c with
      | true =>
          rw [closing?_quote quotes, Option.isSome_map] at closes
          obtain ⟨string, others, whole, same⟩ := exists_inQuotes closes
          have shorter : others.length < text.length := by
            simp only [same, List.length_append, List.length_cons]
            omega
          rw [same, closing?_inQuotes whole quotes, Option.isSome_map] at closes
          obtain ⟨inside, rest, after, rfl⟩ := exists_balanced closes
          exact ⟨c :: (string ++ c :: inside), rest, .string quotes whole after, by simp [same]⟩
      | false =>
          rw [closing?_plain quotes opening closing, Option.isSome_map] at closes
          obtain ⟨inside, rest, after, rfl⟩ := exists_balanced closes
          exact ⟨c :: inside, rest, .plain quotes opening closing after, rfl⟩
termination_by text.length
decreasing_by all_goals (simp only [List.length_cons]; omega)

theorem closing?_eq_iff {code : List Char} :
    closing? ⟨1, none⟩ (code ++ [')']) = some code.length ↔ Balanced code := by
  constructor
  · intro closes
    -- What the search has passed is balanced and ends at the same place, so it is all of the code.
    obtain ⟨inside, rest, balanced, same⟩ := exists_balanced (by rw [closes]; rfl)
    have length : inside.length = code.length := by
      rw [same, closing?_balanced balanced, closing?_last] at closes
      simpa using closes
    have equal : code = inside := (List.append_inj same length.symm).1
    rwa [equal]
  · intro balanced
    rw [closing?_balanced balanced, closing?_last]
    simp

theorem closing?_eq_none_iff {text : List Char} :
    closing? ⟨1, none⟩ text = none ↔ ¬ ∃ code rest, Balanced code ∧ text = code ++ ')' :: rest := by
  constructor
  · rintro unclosed ⟨code, rest, balanced, rfl⟩
    rw [closing?_balanced balanced, closing?_last] at unclosed
    cases unclosed
  · intro unbalanced
    by_contra closes
    obtain ⟨code, rest, balanced, split⟩ := exists_balanced (Option.isSome_iff_ne_none.2 closes)
    exact unbalanced ⟨code, rest, balanced, split⟩

theorem noGap : ([] : List Char).all (fun c => c == ' ' || c == '\t') = true := rfl

def Arguments.ofBalanced {code : List Char} (balanced : Balanced code) : Arguments :=
  ⟨[], code, noGap, closing?_eq_iff.2 balanced⟩

theorem Arguments.exists_iff {gap code : List Char} :
    (∃ arguments : Arguments, arguments.gap = gap ∧ arguments.code = code) ↔
      gap.all (fun c => c == ' ' || c == '\t') = true ∧ Balanced code := by
  constructor
  · rintro ⟨arguments, rfl, rfl⟩
    exact ⟨arguments.blanks, closing?_eq_iff.1 arguments.balanced⟩
  · rintro ⟨blanks, balanced⟩
    exact ⟨⟨gap, code, blanks, closing?_eq_iff.2 balanced⟩, rfl, rfl⟩

end Phrasebook.Template
