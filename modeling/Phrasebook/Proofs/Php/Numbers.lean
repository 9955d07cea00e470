import Mathlib.Tactic.SplitIfs
import Phrasebook.Proofs.Php.Lexing

namespace Phrasebook.Php

section Runs

variable {front back rest : List Char}

theorem takeWhile_slash {p : Char → Bool} (halts : p '/' = false)
    (short : ((front ++ back).takeWhile p).length ≤ front.length) :
    (front ++ '/' :: rest).takeWhile p = (front ++ back).takeWhile p := by
  rw [List.takeWhile_append, List.takeWhile_append] at *
  split
  · rename_i whole
    rw [if_pos whole, List.length_append] at short
    have none : back.takeWhile p = [] := List.length_eq_zero_iff.1 (by omega)
    rw [none, List.takeWhile_cons_of_neg (by simp [halts])]
  · rfl

theorem groupsLength_slash {digit : Char → Bool} (halts : digit '/' = false)
    (short : groupsLength digit (front ++ back) ≤ front.length) :
    groupsLength digit (front ++ '/' :: rest) = groupsLength digit (front ++ back) := by
  induction front with
  | nil =>
      have none : groupsLength digit back = 0 := Nat.le_zero.1 short
      have other : '/' ≠ '_' := by decide
      rw [List.nil_append, List.nil_append, none, groupsLength, if_neg (by simp [halts]), if_neg (by simp [other])]
  | cons d front ih =>
      rw [List.cons_append, groupsLength] at short
      rw [List.cons_append, List.cons_append, groupsLength, groupsLength]
      by_cases isDigit : digit d = true
      · rw [if_pos isDigit, List.length_cons] at short
        rw [if_pos isDigit, if_pos isDigit, ih (by omega)]
      · rw [if_neg isDigit] at short
        rw [if_neg isDigit, if_neg isDigit]
        cases front with
        | nil =>
            have none : ¬ (d = '_' ∧ ([] ++ back).head?.any digit = true) := by
              intro both
              rw [if_pos both, List.length_singleton] at short
              obtain ⟨e, back, rfl⟩ : ∃ e rest, back = e :: rest := by
                cases back with
                | nil => cases both.2
                | cons e back => exact ⟨e, back, rfl⟩
              have isDigit : digit e = true := by simpa using both.2
              rw [List.nil_append, groupsLength, if_pos isDigit] at short
              omega
            rw [if_neg none, if_neg (by simp [halts])]
        | cons e front =>
            by_cases both : d = '_' ∧ digit e = true
            · have short : 1 + groupsLength digit (e :: front ++ back) ≤ (d :: e :: front).length := by
                rwa [if_pos (show d = '_' ∧ (e :: front ++ back).head?.any digit = true from both)] at short
              rw [List.length_cons] at short
              rw [if_pos (show d = '_' ∧ (e :: front ++ '/' :: rest).head?.any digit = true from both),
                if_pos (show d = '_' ∧ (e :: front ++ back).head?.any digit = true from both), ih (by omega)]
            · rw [if_neg (show ¬ (d = '_' ∧ (e :: front ++ '/' :: rest).head?.any digit = true) from both),
                if_neg (show ¬ (d = '_' ∧ (e :: front ++ back).head?.any digit = true) from both)]

theorem all_of_groupsLength {digit : Char → Bool} (long : front.length < groupsLength digit (front ++ back)) :
    ∀ d ∈ front, digit d = true ∨ d = '_' := by
  induction front with
  | nil => exact fun _ mem => by cases mem
  | cons d front ih =>
      rw [List.cons_append, groupsLength] at long
      by_cases isDigit : digit d = true
      · rw [if_pos isDigit, List.length_cons] at long
        exact List.forall_mem_cons.2 ⟨.inl isDigit, ih (by omega)⟩
      · rw [if_neg isDigit] at long
        by_cases both : d = '_' ∧ (front ++ back).head?.any digit = true
        · rw [if_pos both, List.length_cons] at long
          exact List.forall_mem_cons.2 ⟨.inr both.1, ih (by omega)⟩
        · rw [if_neg both] at long
          omega

end Runs

section Numbers

variable {front back rest : List Char}

def leading (digit : Char → Bool) (text : List Char) : Nat :=
  if text.head?.any digit then groupsLength digit text else 0

theorem leading_eq_zero {digit : Char → Bool} {text : List Char} :
    leading digit text = 0 ↔ text.head?.any digit = false := by
  cases text with
  | nil => simp [leading]
  | cons c text =>
      cases isDigit : digit c <;> simp [leading, groupsLength, isDigit]

theorem leading_slash {digit : Char → Bool} (halts : digit '/' = false)
    (short : leading digit (front ++ back) ≤ front.length) :
    leading digit (front ++ '/' :: rest) = leading digit (front ++ back) := by
  cases front with
  | nil =>
      have none : leading digit back = 0 := Nat.le_zero.1 short
      rw [List.nil_append, List.nil_append, none, leading_eq_zero]
      simpa using halts
  | cons d front =>
      cases isDigit : digit d with
      | true =>
          have whole (text : List Char) : leading digit (d :: text) = groupsLength digit (d :: text) :=
            if_pos (by simpa using isDigit)
          rw [List.cons_append, whole, ← List.cons_append] at short
          rw [List.cons_append, List.cons_append, whole, whole, ← List.cons_append, ← List.cons_append,
            groupsLength_slash halts short]
      | false =>
          have none (text : List Char) : leading digit (d :: text) = 0 := if_neg (by simpa using isDigit)
          rw [List.cons_append, List.cons_append, none, none]

def signLength (text : List Char) : Nat :=
  match text with
  | c :: _ => if c = '+' ∨ c = '-' then 1 else 0
  | [] => 0

theorem exponentLength_cons {e : Char} (text : List Char) : exponentLength (e :: text) =
    if (e = 'e' ∨ e = 'E') ∧ leading Char.isDigit (text.drop (signLength text)) ≠ 0 then
      1 + signLength text + leading Char.isDigit (text.drop (signLength text)) else 0 := by
  by_cases letter : e = 'e' ∨ e = 'E'
  · rw [exponentLength.eq_def]
    dsimp only
    rw [if_pos letter]
    change (if (text.drop (signLength text)).head?.any Char.isDigit = true then
      1 + signLength text + groupsLength Char.isDigit (text.drop (signLength text)) else 0) = _
    by_cases some : (text.drop (signLength text)).head?.any Char.isDigit = true
    · have digits : leading Char.isDigit (text.drop (signLength text)) ≠ 0 := fun none => by
        rw [leading_eq_zero.1 none] at some
        cases some
      rw [if_pos some, if_pos ⟨letter, digits⟩, leading, if_pos some]
    · have none : leading Char.isDigit (text.drop (signLength text)) = 0 :=
        leading_eq_zero.2 (Bool.eq_false_iff.2 some)
      rw [if_neg some, if_neg fun both => both.2 none]
  · rw [exponentLength.eq_def]
    dsimp only
    rw [if_neg letter, if_neg fun both => letter both.1]

theorem exponentLength_slash (short : exponentLength (front ++ back) ≤ front.length) :
    exponentLength (front ++ '/' :: rest) = exponentLength (front ++ back) := by
  have noLetter : ¬ ('/' = 'e' ∨ '/' = 'E') := by decide
  have noSign : signLength ('/' :: rest) = 0 := rfl
  -- The cut may stand before the letter, between it and the sign, or behind both.
  cases front with
  | nil =>
      have none : exponentLength back = 0 := Nat.le_zero.1 short
      rw [List.nil_append, List.nil_append, none, exponentLength_cons, if_neg fun both => noLetter both.1]
  | cons e front =>
      rw [List.cons_append, exponentLength_cons, List.length_cons] at short
      rw [List.cons_append, List.cons_append, exponentLength_cons, exponentLength_cons]
      by_cases letter : e = 'e' ∨ e = 'E'
      · cases front with
        | nil =>
            have none : leading Char.isDigit (back.drop (signLength back)) = 0 := by
              by_contra some
              rw [List.nil_append, if_pos ⟨letter, some⟩, List.length_nil] at short
              omega
            have none' : leading Char.isDigit ('/' :: rest) = 0 := by
              rw [leading_eq_zero]
              rfl
            rw [List.nil_append, List.nil_append, noSign, List.drop_zero, none, none', if_neg fun both => both.2 rfl,
              if_neg fun both => both.2 rfl]
        | cons s front =>
            have sign (text : List Char) : signLength (s :: front ++ text) = signLength [s] := rfl
            have fits : signLength [s] ≤ (s :: front).length := by
              rw [signLength, List.length_cons]
              split <;> omega
            have inside (text : List Char) :
                (s :: front ++ text).drop (signLength [s]) = (s :: front).drop (signLength [s]) ++ text :=
              List.drop_append_of_le_length fits
            have same : leading Char.isDigit ((s :: front).drop (signLength [s]) ++ '/' :: rest) =
                leading Char.isDigit ((s :: front).drop (signLength [s]) ++ back) := by
              refine leading_slash (rfl) ?_
              rw [sign, inside] at short
              rw [List.length_drop]
              by_cases none : leading Char.isDigit ((s :: front).drop (signLength [s]) ++ back) = 0
              · rw [none]
                exact Nat.zero_le _
              · rw [if_pos ⟨letter, none⟩] at short
                omega
            rw [sign, sign, inside, inside, same]
      · rw [if_neg fun both => letter both.1, if_neg fun both => letter both.1]

theorem integerLength_zero (x : Char) (text : List Char) : integerLength ('0' :: x :: text) =
    if (x = 'x' ∨ x = 'X') ∧ leading isHexDigit text ≠ 0 then 2 + leading isHexDigit text
    else if (x = 'b' ∨ x = 'B') ∧ leading isBinaryDigit text ≠ 0 then 2 + leading isBinaryDigit text
    else if x = 'o' ∨ x = 'O' then 2 + groupsLength isOctalDigit text
    else 1 + groupsLength isOctalDigit (x :: text) := by
  have some (digit : Char → Bool) : leading digit text ≠ 0 ↔ text.head?.any digit = true := by
    rw [ne_eq, leading_eq_zero, Bool.not_eq_false]
  have whole {digit : Char → Bool} (begins : text.head?.any digit = true) :
      leading digit text = groupsLength digit text := if_pos begins
  rw [integerLength]
  simp only [some]
  split
  · rename_i hex
    rw [whole hex.2]
  · split
    · rename_i binary
      rw [whole binary.2]
    · rfl

theorem integerLength_other {text : List Char} (other : ∀ x rest, text ≠ '0' :: x :: rest) :
    integerLength text = groupsLength Char.isDigit text := by
  unfold integerLength
  split
  · exact absurd rfl (other _ _)
  · rfl

theorem integerLength_slash (short : integerLength (front ++ back) ≤ front.length) :
    integerLength (front ++ '/' :: rest) = integerLength (front ++ back) := by
  have halts : isHexDigit '/' = false ∧ isBinaryDigit '/' = false ∧ isOctalDigit '/' = false ∧
      '/'.isDigit = false := by decide
  have noMark : ¬ ('/' = 'x' ∨ '/' = 'X') ∧ ¬ ('/' = 'b' ∨ '/' = 'B') ∧ ¬ ('/' = 'o' ∨ '/' = 'O') := by
    decide
  have noZero : '/' ≠ '0' := by decide
  have noUnderscore : '/' ≠ '_' := by decide
  have zeroed : integerLength ('0' :: '/' :: rest) = 1 := by
    rw [integerLength_zero, if_neg fun both => noMark.1 both.1, if_neg fun both => noMark.2.1 both.1,
      if_neg noMark.2.2, groupsLength, if_neg (by simp [halts]), if_neg (by simp [noUnderscore])]
  have plain {z : Char} (front : List Char) (other : z ≠ '0')
      (short : integerLength (z :: front ++ back) ≤ (z :: front).length) :
      integerLength (z :: front ++ '/' :: rest) = integerLength (z :: front ++ back) := by
    have others (text : List Char) :
        integerLength (z :: front ++ text) = groupsLength Char.isDigit (z :: front ++ text) :=
      integerLength_other fun x rest same => other (List.cons.inj same).1
    rw [others] at short
    rw [others, others, groupsLength_slash halts.2.2.2 short]
  -- Which form a number has is told by its first two characters, so the cut may stand before, between or behind them.
  match front with
  | [] =>
      have none : integerLength back = 0 := Nat.le_zero.1 short
      rw [List.nil_append, List.nil_append, none, integerLength_other fun x rest same => noZero (List.cons.inj same).1,
        groupsLength, if_neg (by simp [halts]), if_neg (by simp [noUnderscore])]
  | [z] =>
      by_cases zero : z = '0'
      · subst zero
        refine zeroed.trans ?_
        cases back with
        | nil => rfl
        | cons x back =>
            simp only [List.cons_append, List.nil_append, integerLength_zero, List.length_singleton] at short ⊢
            split_ifs at short ⊢ <;> omega
      · exact plain [] zero short
  | z :: x :: front =>
      by_cases zero : z = '0'
      · subst zero
        simp only [List.cons_append, integerLength_zero, List.length_cons] at short ⊢
        have prefixed {digit : Char → Bool} (halts : digit '/' = false)
            (short : leading digit (front ++ back) ≠ 0 → 2 + leading digit (front ++ back) ≤ front.length + 1 + 1) :
            leading digit (front ++ '/' :: rest) = leading digit (front ++ back) := by
          refine leading_slash halts ?_
          by_cases none : leading digit (front ++ back) = 0
          · omega
          · have := short none
            omega
        have octal {digits : List Char} (short : groupsLength isOctalDigit (digits ++ back) ≤ digits.length) :
            groupsLength isOctalDigit (digits ++ '/' :: rest) = groupsLength isOctalDigit (digits ++ back) :=
          groupsLength_slash halts.2.2.1 short
        by_cases hex : (x = 'x' ∨ x = 'X') ∧ leading isHexDigit (front ++ back) ≠ 0
        · rw [if_pos hex] at short
          rw [prefixed halts.1 fun _ => short, if_pos hex, if_pos hex]
        rw [if_neg hex] at short
        have hex' : ¬ ((x = 'x' ∨ x = 'X') ∧ leading isHexDigit (front ++ '/' :: rest) ≠ 0) := fun both =>
          hex ⟨both.1, prefixed halts.1 (fun some => absurd ⟨both.1, some⟩ hex) ▸ both.2⟩
        rw [if_neg hex, if_neg hex']
        by_cases binary : (x = 'b' ∨ x = 'B') ∧ leading isBinaryDigit (front ++ back) ≠ 0
        · rw [if_pos binary] at short
          rw [prefixed halts.2.1 fun _ => short, if_pos binary, if_pos binary]
        rw [if_neg binary] at short
        have binary' : ¬ ((x = 'b' ∨ x = 'B') ∧ leading isBinaryDigit (front ++ '/' :: rest) ≠ 0) := fun both =>
          binary ⟨both.1, prefixed halts.2.1 (fun some => absurd ⟨both.1, some⟩ binary) ▸ both.2⟩
        rw [if_neg binary, if_neg binary']
        by_cases marked : x = 'o' ∨ x = 'O'
        · rw [if_pos marked] at short
          rw [if_pos marked, if_pos marked, octal (by omega)]
        · rw [if_neg marked] at short
          have digits : groupsLength isOctalDigit (x :: front ++ back) ≤ (x :: front).length := by
            rw [List.cons_append, List.length_cons]
            omega
          rw [if_neg marked, if_neg marked, ← List.cons_append, ← List.cons_append, octal digits]
      · exact plain (x :: front) zero short

theorem exponentLength_of_head {text : List Char} (other : ∀ e ∈ text.head?, ¬ (e = 'e' ∨ e = 'E')) :
    exponentLength text = 0 := by
  cases text with
  | nil => rfl
  | cons e text => rw [exponentLength_cons, if_neg fun both => other e rfl both.1]

theorem groupsLength_le_of_slash {digit : Char → Bool} (halts : digit '/' = false) :
    groupsLength digit (front ++ '/' :: rest) ≤ front.length := by
  have other : '/' ≠ '_' := by decide
  induction front with
  | nil => rw [List.nil_append, groupsLength, if_neg (by simp [halts]), if_neg (by simp [other]), List.length_nil]
  | cons d front ih =>
      rw [List.cons_append, groupsLength, List.length_cons]
      split
      · omega
      · split <;> omega

def floatRest (whole : Nat) (text : List Char) : Nat :=
  match text with
  | '.' :: rest =>
    let fraction := groupsLength Char.isDigit rest
    if whole + fraction = 0 then 0 else whole + 1 + fraction + exponentLength (rest.drop fraction)
  | rest => if exponentLength rest = 0 ∨ whole = 0 then 0 else whole + exponentLength rest

theorem floatLength_eq (text : List Char) :
    floatLength text = floatRest (groupsLength Char.isDigit text) (text.drop (groupsLength Char.isDigit text)) := rfl

theorem floatRest_other {whole : Nat} {text : List Char} (other : text.head? ≠ some '.') :
    floatRest whole text = if exponentLength text = 0 ∨ whole = 0 then 0 else whole + exponentLength text := by
  unfold floatRest
  split
  · exact absurd rfl other
  · rfl

theorem floatRest_ge (whole : Nat) (text : List Char) : floatRest whole text = 0 ∨ whole ≤ floatRest whole text := by
  unfold floatRest
  split
  · dsimp only
    split <;> omega
  · split <;> omega

theorem floatRest_of_head {whole : Nat} {text : List Char} (other : text.head? ≠ some '.')
    (noLetter : ∀ e ∈ text.head?, ¬ (e = 'e' ∨ e = 'E')) : floatRest whole text = 0 := by
  rw [floatRest_other other, exponentLength_of_head noLetter, if_pos (.inl rfl)]

theorem floatRest_slash {whole : Nat} (short : floatRest whole (front ++ back) ≤ whole + front.length) :
    floatRest whole (front ++ '/' :: rest) = floatRest whole (front ++ back) := by
  have halts : '/'.isDigit = false := rfl
  have noPoint : '/' ≠ '.' := by decide
  have noLetter : ¬ ('/' = 'e' ∨ '/' = 'E') := by decide
  cases front with
  | nil =>
      have none : floatRest whole back = 0 := by
        rw [List.nil_append, List.length_nil] at short
        unfold floatRest at short ⊢
        split at short
        · dsimp only at short ⊢
          split at short
          · rw [if_pos (by assumption)]
          · omega
        · split at short
          · rw [if_pos (by assumption)]
          · omega
      rw [List.nil_append, List.nil_append, none]
      exact floatRest_of_head (by simp) (by simp)
  | cons z front =>
      by_cases point : z = '.'
      · subst point
        have pointed (text : List Char) : floatRest whole ('.' :: text) =
            if whole + groupsLength Char.isDigit text = 0 then 0
            else whole + 1 + groupsLength Char.isDigit text +
              exponentLength (text.drop (groupsLength Char.isDigit text)) := rfl
        rw [List.cons_append, pointed, List.length_cons] at short
        have fits : groupsLength Char.isDigit (front ++ back) ≤ front.length := by
          split at short <;> omega
        have same : groupsLength Char.isDigit (front ++ '/' :: rest) = groupsLength Char.isDigit (front ++ back) :=
          groupsLength_slash halts fits
        rw [List.cons_append, List.cons_append, pointed, pointed, same]
        split
        · rfl
        · rename_i some
          rw [if_neg some, List.drop_append_of_le_length fits] at short
          rw [List.drop_append_of_le_length fits, List.drop_append_of_le_length fits, exponentLength_slash]
          rw [List.length_drop]
          omega
      · have other (text : List Char) : (z :: text).head? ≠ some '.' := by simpa using point
        rw [List.cons_append, floatRest_other (other _), ← List.cons_append] at short
        rw [List.cons_append, List.cons_append, floatRest_other (other _), floatRest_other (other _),
          ← List.cons_append, ← List.cons_append]
        by_cases none : whole = 0
        · rw [if_pos (.inr none), if_pos (.inr none)]
        · rw [exponentLength_slash]
          split at short <;> omega

theorem floatLength_slash (short : floatLength (front ++ back) ≤ front.length) :
    floatLength (front ++ '/' :: rest) = floatLength (front ++ back) := by
  have halts : '/'.isDigit = false := rfl
  rw [floatLength_eq] at short
  rw [floatLength_eq, floatLength_eq]
  by_cases inside : groupsLength Char.isDigit (front ++ back) ≤ front.length
  · rw [groupsLength_slash halts inside, List.drop_append_of_le_length inside,
      List.drop_append_of_le_length inside]
    rw [List.drop_append_of_le_length inside] at short
    refine floatRest_slash ?_
    rw [List.length_drop]
    omega
  · -- All of the text before the cut belongs to one run of digits, which is no number with a fraction.
    have none := (floatRest_ge (groupsLength Char.isDigit (front ++ back))
      ((front ++ back).drop (groupsLength Char.isDigit (front ++ back)))).resolve_right (by omega)
    have digits := all_of_groupsLength (Nat.lt_of_not_le inside)
    have fits := @groupsLength_le_of_slash front rest _ halts
    have head : ∀ d ∈ ((front ++ '/' :: rest).drop (groupsLength Char.isDigit (front ++ '/' :: rest))).head?,
        d.isDigit = true ∨ d = '_' ∨ d = '/' := by
      intro d mem
      rw [List.drop_append_of_le_length fits, List.head?_append] at mem
      cases tail : (front.drop (groupsLength Char.isDigit (front ++ '/' :: rest))).head? with
      | none =>
          rw [tail] at mem
          cases mem
          exact .inr (.inr rfl)
      | some e =>
          rw [tail] at mem
          cases mem
          exact (digits d (List.mem_of_mem_drop (List.mem_of_mem_head? tail))).imp_right .inl
    have plain {d : Char} (known : d.isDigit = true ∨ d = '_' ∨ d = '/') : d ≠ '.' ∧ ¬ (d = 'e' ∨ d = 'E') := by
      rcases known with digit | rfl | rfl
      · refine ⟨?_, ?_⟩
        · rintro rfl
          cases digit
        · rintro (rfl | rfl) <;> cases digit
      all_goals decide
    rw [none]
    exact floatRest_of_head (fun point => (plain (head _ point)).1 rfl) fun e mem => (plain (head e mem)).2

theorem numberLength_slash (short : numberLength (front ++ back) ≤ front.length) :
    numberLength (front ++ '/' :: rest) = numberLength (front ++ back) := by
  rw [numberLength, Nat.max_le] at short
  rw [numberLength, numberLength, integerLength_slash short.1, floatLength_slash short.2]

end Numbers

end Phrasebook.Php
