import Phrasebook.Proofs.Php.Lookahead

/-!
# What separates tokens, before a slash

A comment, a blank or a stretch of markup that ends before a slash is what was read before, provided that it has an end of
its own: a one-line comment goes on with what is put behind it.
-/

namespace Phrasebook.Php

variable {front back rest : List Char}

/-! ## Comments -/

/-- What is left of a text behind a one-line comment of a length settles where the comment ends: the comment has taken the
end of its line, or more is left than a question mark. -/
def Settles (length : Nat) (front : List Char) : Prop :=
  (front.take length).getLast? = some '\n' ∨ front.drop length ≠ [] ∧ front.drop length ≠ ['?']

theorem Settles.tail {c : Char} {length : Nat} (other : c ≠ '\n') (settles : Settles (length + 1) (c :: front)) :
    Settles length front := by
  refine settles.imp_left fun last => ?_
  rw [List.take_succ_cons, List.getLast?_cons] at last
  cases same : (front.take length).getLast? with
  | none =>
      rw [same] at last
      exact absurd (Option.some.inj last) other
  | some d =>
      rw [same] at last
      exact last

theorem lineRest_other {c : Char} (other : c ≠ '?') (text : List Char) :
    lineRest (c :: text) = if c = '\r' ∨ c = '\n' ∨ c = nul then 0 else 1 + lineRest text := by
  rw [lineRest.eq_def]
  split
  · contradiction
  · rename_i same
    exact absurd (List.cons.inj same).1 other
  · rename_i same
    obtain ⟨rfl, rfl⟩ := List.cons.inj same
    rfl

theorem lineRest_question {c : Char} (other : c ≠ '\n') (text : List Char) : lineRest ('?' :: c :: text) =
    if c = '\r' ∧ text.head? = some '\n' then 3 else if c = '>' ∨ c = '\r' ∨ c = nul then 0 else 2 + lineRest text := by
  rw [lineRest.eq_def]
  split
  · rename_i same
    cases same
  · rename_i same
    obtain rfl := (List.cons.inj same).2
    split
    · rename_i same
      exact absurd (List.cons.inj same).1 other
    · rename_i same
      obtain ⟨rfl, rfl⟩ := List.cons.inj same
      rfl
    · rename_i noReturn same
      obtain ⟨rfl, rfl⟩ := List.cons.inj same
      have both : ¬ (c = '\r' ∧ text.head? = some '\n') := by
        rintro ⟨rfl, head⟩
        obtain ⟨tail, rfl⟩ := List.head?_eq_some_iff.1 head
        exact noReturn tail rfl rfl
      rw [if_neg both]
    · rename_i same
      cases same
  · rename_i apart same
    exact absurd (List.cons.inj same).1.symm apart

theorem not_settles_question (length : Nat) : ¬ Settles length ['?'] := by
  rcases length with _ | n <;> simp [Settles]

theorem lineRest_slash (fits : lineRest (front ++ back) ≤ front.length)
    (settles : Settles (lineRest (front ++ back)) front) :
    lineRest (front ++ '/' :: rest) = lineRest (front ++ back) := by
  induction front using lineRest.induct with
  | case1 => simp [Settles] at settles
  | case2 | case3 => rfl
  | case4 c front line apart ends =>
      have noReturn {text : List Char} (next : c = '\r' → front = [] → text.head? ≠ some '\n') :
          ¬ (c = '\r' ∧ (front ++ text).head? = some '\n') := by
        rintro ⟨carriage, head⟩
        cases front with
        | nil => exact next carriage rfl head
        | cons d front => exact apart front carriage (by simpa using head)
      -- A line feed behind the place would be part of the comment.
      have behind (carriage : c = '\r') (none : front = []) : back.head? ≠ some '\n' := by
        subst carriage none
        intro head
        rw [List.cons_append, List.cons_append, lineRest_question line, if_pos ⟨rfl, head⟩] at fits
        exact absurd fits (by decide)
      rw [List.cons_append, List.cons_append, List.cons_append, List.cons_append, lineRest_question line,
        lineRest_question line, if_neg (noReturn fun _ _ => by simp), if_neg (noReturn behind), if_pos ends, if_pos ends]
  | case5 c front line _ ends ih =>
      have noReturn {text : List Char} : ¬ (c = '\r' ∧ text.head? = some '\n') := fun both => ends (.inr (.inl both.1))
      rw [List.cons_append, List.cons_append, lineRest_question line, if_neg noReturn, if_neg ends] at fits settles
      rw [List.length_cons, List.length_cons] at fits
      rw [Nat.add_comm] at settles
      simp only [List.cons_append]
      rw [lineRest_question line, lineRest_question line, if_neg noReturn, if_neg noReturn, if_neg ends, if_neg ends,
        ih (by omega) ((settles.tail (by decide)).tail line)]
  | case6 => exact absurd settles (not_settles_question _)
  | case7 c front question ends =>
      rw [List.cons_append, List.cons_append, lineRest_other question, lineRest_other question, if_pos ends, if_pos ends]
  | case8 c front question ends ih =>
      rw [List.cons_append, lineRest_other question, if_neg ends] at fits settles
      rw [List.length_cons] at fits
      rw [Nat.add_comm] at settles
      rw [List.cons_append, List.cons_append, lineRest_other question, lineRest_other question, if_neg ends, if_neg ends,
        ih (by omega) (settles.tail (not_or.1 (not_or.1 ends).2).1)]

theorem find?_of_append {needle : List Char} {n : Nat} (found : find? needle (front ++ back) = some n)
    (fits : n + needle.length ≤ front.length) : find? needle front = some n := by
  induction front generalizing n with
  | nil =>
      rw [List.length_nil, Nat.le_zero, Nat.add_eq_zero_iff] at fits
      rw [fits.1, List.length_eq_zero_iff.1 fits.2]
      rfl
  | cons c front ih =>
      rw [List.cons_append, find?] at found
      rw [find?]
      split at found
      · rename_i here
        cases found
        have here : begins needle (c :: front ++ back) = true := here
        rw [begins_append _ (by simpa using fits)] at here
        exact if_pos here
      · rename_i elsewhere
        obtain ⟨m, inner, rfl⟩ := Option.map_eq_some_iff.1 found
        have elsewhere : ¬ needle.isPrefixOf (c :: front) = true := fun here => by
          obtain ⟨tail, split⟩ := begins_iff.1 here
          exact elsewhere (begins_iff.2 ⟨tail ++ back, by rw [← List.cons_append, split, List.append_assoc]⟩)
        rw [if_neg elsewhere, ih inner (by simp at fits; omega)]
        rfl

def Skipped.isClosed (skipped : Skipped) : Bool :=
  skipped.kind != .comment || begins "/*".toList skipped.text || skipped.text.getLast? == some '\n'

def SettlesComment (c : Char) (more : Nat) (front : List Char) : Prop :=
  Skipped.isClosed ⟨.comment, c :: front.take more⟩ = true ∨
    front.drop more ≠ [] ∧ (more = 0 ∨ front.drop more ≠ ['?'])

theorem SettlesComment.line {c d : Char} {length : Nat} (mark : begins "/*".toList (c :: d :: front.take length) = false)
    (other : d ≠ '\n') (settles : SettlesComment c (length + 1) (d :: front)) : Settles length front := by
  refine Settles.tail other (settles.imp (fun closed => ?_) fun more => ⟨more.1, more.2.resolve_left (by simp)⟩)
  rw [List.take_succ_cons, Skipped.isClosed, mark] at closed
  rw [List.take_succ_cons]
  have last : (c :: d :: front.take length).getLast? = some '\n' := by simpa using closed
  rwa [List.getLast?_cons_cons] at last

theorem not_settlesComment_nil {c : Char} (other : c ≠ '\n') (more : Nat) : ¬ SettlesComment c more [] := by
  simp [SettlesComment, Skipped.isClosed, begins, List.isPrefixOf, other]

theorem comment?_block (text : List Char) : comment? ('/' :: '*' :: text) =
    (find? "*/".toList text).bind fun n => if (text.take n).contains nul then none else some (n + 4) := by
  rw [comment?]
  cases find? "*/".toList text <;> rfl

theorem comment?_solidus {d : Char} (noLine : d ≠ '/') (noBlock : d ≠ '*') (text : List Char) :
    comment? ('/' :: d :: text) = none := by
  unfold comment?
  split
  · rename_i same
    simp only [List.cons.injEq] at same
    exact absurd same.2.1 noLine
  · rename_i same
    simp only [List.cons.injEq] at same
    exact absurd same.2.1 noBlock
  · rename_i same
    cases same
  · rfl

theorem comment?_other {c : Char} (noSlash : c ≠ '/') (noHash : c ≠ '#') (text : List Char) :
    comment? (c :: text) = none := by
  unfold comment?
  split
  · rename_i same
    exact absurd (List.cons.inj same).1 noSlash
  · rename_i same
    exact absurd (List.cons.inj same).1 noSlash
  · rename_i same
    exact absurd (List.cons.inj same).1 noHash
  · rfl

theorem comment?_hash (d : Char) (text : List Char) : comment? ('#' :: d :: text) =
    if d = '[' then none else if d = '?' ∨ d = '\r' ∨ d = '\n' ∨ d = nul then some 1 else some (2 + lineRest text) :=
  rfl

theorem comment?_slash {c : Char} {n : Nat} (here : comment? (c :: (front ++ back)) = some n) (fits : n ≤ front.length + 1)
    (settles : SettlesComment c (n - 1) front) : comment? (c :: (front ++ '/' :: rest)) = some n := by
  -- A comment begins with one of two characters, and the second tells its kind; both are before the place.
  by_cases slash : c = '/'
  · subst slash
    cases front with
    | nil => exact absurd settles (not_settlesComment_nil (by decide) _)
    | cons d front =>
        rw [List.cons_append] at here ⊢
        rw [List.length_cons] at fits
        by_cases line : d = '/'
        · subst line
          cases here
          have size : 2 + lineRest (front ++ back) - 1 = lineRest (front ++ back) + 1 := by omega
          rw [size] at settles
          have same : lineRest (front ++ '/' :: rest) = lineRest (front ++ back) :=
            lineRest_slash (by omega) (settles.line rfl (by decide))
          rw [← same]
          rfl
        by_cases block : d = '*'
        · subst block
          rw [comment?_block, Option.bind_eq_some_iff] at here
          obtain ⟨k, found, noNul⟩ := here
          split at noNul
          · cases noNul
          · rename_i clean
            cases noNul
            have size : k + "*/".toList.length ≤ front.length := by
              simp only [String.reduceToList, List.length_cons, List.length_nil]
              omega
            have inside : k ≤ front.length := Nat.le_trans (Nat.le_add_right _ _) size
            rw [comment?_block, find?_append ('/' :: rest) (find?_of_append found size), Option.bind_some]
            rw [List.take_append_of_le_length inside] at clean ⊢
            exact if_neg clean
        · rw [comment?_solidus line block] at here
          cases here
  by_cases hash : c = '#'
  · subst hash
    cases front with
    | nil => exact absurd settles (not_settlesComment_nil (by decide) _)
    | cons d front =>
        rw [List.cons_append, comment?_hash] at here ⊢
        rw [List.length_cons] at fits
        by_cases bracket : d = '['
        · rw [if_pos bracket] at here
          cases here
        rw [if_neg bracket] at here ⊢
        by_cases ends : d = '?' ∨ d = '\r' ∨ d = '\n' ∨ d = nul
        · rw [if_pos ends] at here ⊢
          exact here
        · rw [if_neg ends] at here ⊢
          cases here
          have size : 2 + lineRest (front ++ back) - 1 = lineRest (front ++ back) + 1 := by omega
          rw [size] at settles
          have other : d ≠ '\n' := fun same => ends (.inr (.inr (.inl same)))
          rw [lineRest_slash (by omega) (settles.line rfl other)]
  · rw [comment?_other slash hash] at here
    cases here

theorem tagLength_cons (c d : Char) (text : List Char) : tagLength (c :: d :: text) =
    if (text.take 3).map Char.toLower = ['p', 'h', 'p'] then 5 else if begins ['='] text then 3 else 2 := by
  rw [tagLength]
  simp only [List.drop_succ_cons, List.drop_zero, beq_iff_eq]
  rfl

theorem tagLength_slash {c d : Char} (fits : tagLength (c :: d :: (front ++ back)) ≤ front.length + 2) :
    tagLength (c :: d :: (front ++ '/' :: rest)) = tagLength (c :: d :: (front ++ back)) := by
  rw [tagLength_cons] at fits
  rw [tagLength_cons, tagLength_cons]
  have noSlash : '/'.toLower = '/' := rfl
  by_cases long : ((front ++ back).take 3).map Char.toLower = ['p', 'h', 'p']
  · rw [if_pos long] at fits
    have size : 3 ≤ front.length := by omega
    rw [List.take_append_of_le_length size] at long ⊢
    rw [if_pos long, if_pos (by rwa [List.take_append_of_le_length size])]
  rw [if_neg long] at fits ⊢
  have long' : ¬ ((front ++ '/' :: rest).take 3).map Char.toLower = ['p', 'h', 'p'] := by
    rcases front with _ | ⟨x, _ | ⟨y, _ | ⟨z, front⟩⟩⟩
    all_goals simp [noSlash] at long ⊢
    exact long
  rw [if_neg long']
  by_cases short : begins ['='] (front ++ back) = true
  · rw [if_pos short] at fits
    have size : ['='].length ≤ front.length := by
      rw [List.length_singleton]
      omega
    rw [begins_append _ size] at short ⊢
    rw [if_pos short, begins_append _ size, if_pos short]
  · have short' : ¬ begins ['='] (front ++ '/' :: rest) = true := by
      cases front with
      | nil => exact fun begun => by cases begun
      | cons x front => exact short
    rw [if_neg short, if_neg short']

theorem two_le_tagLength (text : List Char) : 2 ≤ tagLength text := by
  rw [tagLength]
  split
  · omega
  · split <;> omega

theorem markupLength?_slash {n : Nat} (here : markupLength? (front ++ back) = some n) (fits : n ≤ front.length)
    (closed : n = front.length → back ≠ []) : markupLength? (front ++ '/' :: rest) = some n := by
  rw [markupLength?] at here ⊢
  -- The markup goes on to the end of the text, or up to an opening tag that lies before the place.
  cases found : find? "<?".toList (front ++ back) with
  | none =>
      rw [found] at here
      dsimp only at here
      split at here
      · cases here
      · cases here
        rw [List.length_append] at fits closed
        have none : back = [] := List.length_eq_zero_iff.1 (by omega)
        exact absurd none (closed (by rw [none]; rfl))
  | some k =>
      rw [found] at here
      dsimp only at here
      split at here
      · cases here
      · rename_i clean
        cases here
        have tag := two_le_tagLength ((front ++ back).drop k)
        have size : k + "<?".toList.length ≤ front.length := by
          simp only [String.reduceToList, List.length_cons, List.length_nil]
          omega
        have inside : k ≤ front.length := Nat.le_trans (Nat.le_add_right _ _) size
        obtain ⟨c, d, tail, same⟩ := @exists_cons_cons (front.drop k) (by rw [List.length_drop]; omega)
        have length := congrArg List.length same
        simp only [List.length_drop, List.length_cons] at length
        rw [find?_append ('/' :: rest) (find?_of_append found size)]
        dsimp only
        rw [List.take_append_of_le_length inside] at clean ⊢
        rw [List.drop_append_of_le_length inside, same] at fits ⊢
        rw [if_neg clean, List.drop_append_of_le_length inside, same]
        simp only [List.cons_append] at fits ⊢
        have tagged : tagLength (c :: d :: (tail ++ back)) ≤ tail.length + 2 := by omega
        rw [tagLength_slash tagged]

theorem separator?_cons {c : Char} (space : isSpace c = false) (text : List Char) : separator? (c :: text) =
    if c = '?' ∧ text.head? = some '>' then (markupLength? (text.drop 1)).map fun n => (.markup, n + 1)
    else (comment? (c :: text)).map fun n => (.comment, n - 1) := by
  rw [separator?, if_neg (by simp [space])]
  have same : begins "?>".toList (c :: text) = true ↔ c = '?' ∧ text.head? = some '>' := by
    cases text with
    | nil => simp [begins, List.isPrefixOf]
    | cons d text =>
        simp only [begins, String.reduceToList, List.isPrefixOf, Bool.and_true, Bool.and_eq_true, beq_iff_eq,
          List.head?_cons, Option.some.injEq]
        exact and_congr eq_comm eq_comm
  simp only [same]

theorem separator?_slash {c : Char} {kind : SkippedKind} {more : Nat}
    (here : separator? (c :: (front ++ back)) = some (kind, more)) (fits : more ≤ front.length)
    (settles : kind = .comment → SettlesComment c more front)
    (closed : kind = .markup → more = front.length → back ≠ []) :
    separator? (c :: (front ++ '/' :: rest)) = some (kind, more) := by
  cases space : isSpace c with
  | true =>
      rw [separator?, if_pos space] at here ⊢
      exact here
  | false =>
      rw [separator?_cons space] at here ⊢
      by_cases mark : c = '?' ∧ (front ++ back).head? = some '>'
      · rw [if_pos mark] at here
        obtain ⟨n, length, same⟩ := Option.map_eq_some_iff.1 here
        cases same
        obtain ⟨d, front, rfl⟩ : ∃ d tail, front = d :: tail := by
          cases front with
          | nil => cases fits
          | cons d tail => exact ⟨d, tail, rfl⟩
        simp only [List.cons_append, List.drop_succ_cons, List.drop_zero, List.length_cons] at length fits closed
        have mark' : c = '?' ∧ (d :: front ++ '/' :: rest).head? = some '>' := mark
        rw [if_pos mark', List.cons_append, List.drop_succ_cons, List.drop_zero,
          markupLength?_slash length (by omega) fun same => closed trivial (by omega)]
        rfl
      · rw [if_neg mark] at here
        obtain ⟨n, length, same⟩ := Option.map_eq_some_iff.1 here
        cases same
        have mark' : ¬ (c = '?' ∧ (front ++ '/' :: rest).head? = some '>') := by
          cases front with
          | nil => simp
          | cons d front => exact mark
        rw [if_neg mark', comment?_slash length (by omega) (settles rfl)]
        rfl

theorem separator?_slash_of_none {c : Char} (none : separator? (c :: (front ++ back)) = none)
    (slash : c = '/' → front ≠ [] ∧ front.head? ≠ some '*') (question : c = '?' → front.head? ≠ some '>')
    (hash : c = '#' → front ≠ []) : separator? (c :: (front ++ '/' :: rest)) = Option.none := by
  cases space : isSpace c with
  | true =>
      rw [separator?, if_pos space] at none
      cases none
  | false =>
      have mark : ¬ (c = '?' ∧ (front ++ '/' :: rest).head? = some '>') := by
        rintro ⟨isQuestion, head⟩
        refine question isQuestion ?_
        cases front with
        | nil => cases head
        | cons d front => exact head
      rw [separator?_cons space] at none ⊢
      rw [if_neg mark, Option.map_eq_none_iff]
      by_cases isSlash : c = '/'
      · subst isSlash
        obtain ⟨some, noBlock⟩ := slash rfl
        obtain ⟨d, front, rfl⟩ := List.exists_cons_of_ne_nil some
        rw [if_neg (by simp), Option.map_eq_none_iff] at none
        refine comment?_solidus ?_ (by simpa using noBlock) _
        rintro rfl
        cases none
      by_cases isHash : c = '#'
      · subst isHash
        obtain ⟨d, front, rfl⟩ := List.exists_cons_of_ne_nil (hash rfl)
        rw [if_neg (by simp), Option.map_eq_none_iff, List.cons_append, comment?_hash] at none
        rw [List.cons_append, comment?_hash]
        split at none
        · rename_i bracket
          rw [if_pos bracket]
        · split at none <;> cases none
      · exact comment?_other isSlash isHash _

/-! ## All separators -/

theorem lineRest_le (text : List Char) : lineRest text ≤ text.length := by
  fun_induction lineRest text <;> simp only [List.length_cons, List.length_nil] <;> omega

theorem comment?_le {text : List Char} {n : Nat} (here : comment? text = some n) : n ≤ text.length := by
  unfold comment? at here
  split at here
  · rename_i rest
    cases here
    have := lineRest_le rest
    simp only [List.length_cons]
    omega
  · rename_i rest
    split at here
    · rename_i k found
      split at here
      · cases here
      · cases here
        obtain ⟨others, split⟩ := begins_iff.1 (begins_drop_of_find? found)
        have length := congrArg List.length split
        simp only [String.reduceToList, List.length_drop, List.length_append, List.length_cons, List.length_nil]
          at length ⊢
        omega
    · cases here
  · split at here
    · cases here
      simp
    · rename_i c after
      split at here
      · cases here
      · split at here
        · cases here
          simp
        · cases here
          have := lineRest_le after
          simp only [List.length_cons]
          omega
  · cases here

theorem tagLength_le {text : List Char} (begun : begins "<?".toList text = true) : tagLength text ≤ text.length := by
  obtain ⟨rest, rfl⟩ := begins_iff.1 begun
  rw [show "<?".toList ++ rest = '<' :: '?' :: rest from rfl, tagLength_cons]
  simp only [List.length_cons]
  split
  · rename_i long
    have length := congrArg List.length long
    simp only [List.length_map, List.length_take, List.length_cons, List.length_nil] at length
    omega
  · split
    · rename_i short
      obtain ⟨others, rfl⟩ := begins_iff.1 short
      simp
    · omega

theorem markupLength?_le {text : List Char} {n : Nat} (here : markupLength? text = some n) : n ≤ text.length := by
  rw [markupLength?] at here
  split at here
  · rename_i k found
    split at here
    · cases here
    · cases here
      have begun := begins_drop_of_find? found
      have tag := tagLength_le begun
      have some := two_le_tagLength (text.drop k)
      rw [List.length_drop] at tag
      omega
  · split at here
    · cases here
    · cases here
      exact Nat.le_refl _

theorem separator?_le {c : Char} {text : List Char} {kind : SkippedKind} {more : Nat}
    (here : separator? (c :: text) = some (kind, more)) : more ≤ text.length := by
  rw [separator?] at here
  split at here
  · cases here
    exact Nat.zero_le _
  · split at here
    · rename_i marked
      obtain ⟨n, length, same⟩ := Option.map_eq_some_iff.1 here
      cases same
      obtain ⟨others, split⟩ := begins_iff.1 marked
      obtain ⟨tail, rfl⟩ : ∃ tail, text = '>' :: tail := ⟨others, (List.cons.inj split).2⟩
      have fits := markupLength?_le length
      rw [List.drop_succ_cons, List.drop_zero] at fits
      rw [List.length_cons]
      omega
    · obtain ⟨n, length, same⟩ := Option.map_eq_some_iff.1 here
      cases same
      have fits := comment?_le length
      rw [List.length_cons] at fits
      omega

theorem separators_uncons {item : Skipped} {items : List Skipped} {text : List Char}
    (split : separators (item.text ++ text) = item :: items) :
    ∃ c tail, item.text = c :: tail ∧ separator? (c :: (tail ++ text)) = some (item.kind, tail.length) ∧
      separators text = items := by
  cases whole : item.text ++ text with
  | nil =>
      rw [whole, separators] at split
      cases split
  | cons c others =>
      rw [whole] at split
      cases here : separator? (c :: others) with
      | none =>
          rw [separators_of_none here] at split
          cases split
      | some found =>
          obtain ⟨kind, more⟩ := found
          have fits := separator?_le here
          rw [separators_cons here] at split
          obtain ⟨rfl, rfl⟩ := List.cons.inj split
          have behind : others = others.take more ++ text := (List.cons.inj whole).2.symm
          have rest : others.drop more = text := by
            conv at behind => lhs; rw [← List.take_append_drop more others]
            exact List.append_cancel_left behind
          refine ⟨c, others.take more, rfl, ?_, by rw [rest]⟩
          rw [← behind, here, List.length_take, Nat.min_eq_left fits]

theorem text_of_mem_separators {text : List Char} {item : Skipped} (mem : item ∈ separators text) :
    item.text ≠ [] ∧ item.text ≠ ['?'] := by
  fun_induction separators text with
  | case1 | case2 => cases mem
  | case3 c rest kind more here ih =>
      rcases List.mem_cons.1 mem with rfl | mem
      · refine ⟨List.cons_ne_nil _ _, fun same => ?_⟩
        obtain ⟨rfl, none⟩ := List.cons.inj same
        rw [separator?_cons (by decide)] at here
        split at here
        · rename_i mark
          obtain ⟨n, -, same⟩ := Option.map_eq_some_iff.1 here
          cases same
          obtain ⟨tail, rfl⟩ := List.head?_eq_some_iff.1 mark.2
          cases none
        · rw [comment?_other (by decide) (by decide)] at here
          cases here
      · exact ih mem

theorem separators_of_append {near far : List Skipped} {text : List Char}
    (split : separators (near.flatMap (·.text) ++ text) = near ++ far) : separators text = far := by
  induction near with
  | nil => exact split
  | cons item near ih =>
      rw [List.flatMap_cons, List.append_assoc, List.cons_append] at split
      obtain ⟨_, _, _, _, others⟩ := separators_uncons split
      exact ih others

theorem separators_slash {near far skipped : List Skipped}
    (split : separators (near.flatMap (·.text) ++ (front ++ back)) = near ++ far)
    (settles : ∀ item ∈ near.getLast?, item.isClosed = true ∨ front ≠ [] ∧ (item.text = ['#'] ∨ front ≠ ['?']))
    (closed : ∀ item ∈ near.getLast?, item.kind = .markup → front = [] → back ≠ [])
    (next : separators (front ++ '/' :: rest) = skipped) :
    separators (near.flatMap (·.text) ++ (front ++ '/' :: rest)) = near ++ skipped := by
  -- Separator by separator: each but the last has another one behind it, so it does not end where the slash stands.
  induction near with
  | nil => exact next
  | cons item near ih =>
      rw [List.flatMap_cons, List.append_assoc, List.cons_append] at split
      obtain ⟨c, tail, same, here, others⟩ := separators_uncons split
      have inner : separators (near.flatMap (·.text) ++ (front ++ '/' :: rest)) = near ++ skipped := by
        cases near with
        | nil => exact next
        | cons other near => exact ih others (by simpa using settles) (by simpa using closed)
      have nonempty : near ≠ [] → near.flatMap (·.text) ++ front ≠ [] ∧ near.flatMap (·.text) ++ front ≠ ['?'] := by
        intro some
        obtain ⟨other, near, rfl⟩ := List.exists_cons_of_ne_nil some
        have text := text_of_mem_separators (others ▸ List.mem_append_left _ List.mem_cons_self)
        rw [List.flatMap_cons, List.append_assoc]
        refine ⟨List.append_ne_nil_of_left_ne_nil text.1 _, fun alone => ?_⟩
        rcases List.append_eq_singleton_iff.1 alone with ⟨none, _⟩ | ⟨one, _⟩
        · exact text.1 none
        · exact text.2 one
      have still : separator? (c :: (tail ++ (near.flatMap (·.text) ++ (front ++ '/' :: rest)))) =
          some (item.kind, tail.length) := by
        have slash := @separator?_slash (tail ++ (near.flatMap (·.text) ++ front)) back rest c item.kind tail.length
        simp only [List.append_assoc] at slash
        refine slash here (by simp) (fun comment => ?_) fun markup length => ?_
        · rw [SettlesComment, List.take_left, List.drop_left]
          by_cases none : near = []
          · subst none
            refine (settles item rfl).imp (fun isClosed => ?_) fun more => ⟨more.1, more.2.imp_left fun bare => ?_⟩
            · rwa [← same, ← comment]
            · rw [same] at bare
              rw [(List.cons.inj bare).2]
              rfl
          · exact .inr ⟨(nonempty none).1, .inr (nonempty none).2⟩
        · have none : near.flatMap (·.text) ++ front = [] := by
            rw [List.length_append] at length
            exact List.length_eq_zero_iff.1 (by omega)
          have alone : near = [] := by
            by_contra some
            exact (nonempty some).1 none
          subst alone
          exact closed item rfl markup none
      rw [List.flatMap_cons, List.append_assoc, same, List.cons_append, separators_cons still, List.take_left,
        List.drop_left, inner, ← same]
      rfl

end Phrasebook.Php
