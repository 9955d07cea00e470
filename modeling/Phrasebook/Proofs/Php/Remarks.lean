import Phrasebook.Proofs.Php.Separators

namespace Phrasebook.Php

/-- A comment with its end. Nothing ends it before. -/
inductive Remark
  | block (content : List Char) (unclosed : ¬ "*/".toList <:+: content) (clean : nul ∉ content)
  | line (content : List Char) (within : ∀ c ∈ content, c ≠ '\n' ∧ c ≠ '\r' ∧ c ≠ nul)
    (unclosed : ¬ "?>".toList <:+: content)

namespace Remark

def tail : Remark → List Char
  | block content _ _ => '*' :: (content ++ "*/".toList)
  | line content _ _ => '/' :: (content ++ ['\n'])

def source (remark : Remark) : List Char := '/' :: remark.tail

def skipped (remark : Remark) : List Skipped := separators remark.source

def Inline : Remark → Prop
  | block content _ _ => (∀ c ∈ content, c ≠ '\n' ∧ c ≠ '\r') ∧ ¬ "?>".toList <:+: content
  | line .. => True

theorem lineRest_within {content : List Char} (within : ∀ c ∈ content, c ≠ '\n' ∧ c ≠ '\r' ∧ c ≠ nul)
    (unclosed : ¬ "?>".toList <:+: content) : ∃ lead rest, content = lead ++ rest ∧ (rest = [] ∨ rest = ['?']) ∧
      ∀ text, lineRest (content ++ text) = lead.length + lineRest (rest ++ text) := by
  -- The induction follows `lineRest`, which takes a question mark and the character behind it at once. Such a pair
  -- may be cut at the end.
  induction content using lineRest.induct with
  | case1 => exact ⟨[], [], rfl, .inl rfl, fun text => (Nat.zero_add _).symm⟩
  | case2 => exact absurd rfl (within '\n' (by simp)).1
  | case3 => exact absurd rfl (within '\r' (by simp)).2.1
  | case4 c rest _ _ ends =>
      obtain ⟨-, carriage, noNul⟩ := within c (by simp)
      obtain rfl := ends.resolve_right (not_or.2 ⟨carriage, noNul⟩)
      exact absurd ⟨[], rest, rfl⟩ unclosed
  | case5 c content line _ ends ih =>
      obtain ⟨lead, rest, rfl, last, all⟩ := ih (fun d mem => within d (by simp [mem]))
        (fun inside => unclosed (inside.trans (List.suffix_append ['?', c] content).isInfix))
      refine ⟨'?' :: c :: lead, rest, rfl, last, fun text => ?_⟩
      rw [List.cons_append, List.cons_append, lineRest_question line, if_neg (fun both => ends (.inr (.inl both.1))),
        if_neg ends, all, List.length_cons, List.length_cons]
      omega
  | case6 => exact ⟨[], ['?'], rfl, .inr rfl, fun text => (Nat.zero_add _).symm⟩
  | case7 c _ _ ends =>
      obtain ⟨line, carriage, noNul⟩ := within c (by simp)
      exact absurd ends (by simp [line, carriage, noNul])
  | case8 c content question ends ih =>
      obtain ⟨lead, rest, rfl, last, all⟩ := ih (fun d mem => within d (by simp [mem]))
        (fun inside => unclosed (inside.trans (List.suffix_append [c] content).isInfix))
      refine ⟨c :: lead, rest, rfl, last, fun text => ?_⟩
      rw [List.cons_append, lineRest_other question, if_neg ends, all, List.length_cons]
      omega

theorem lineRest_line {content : List Char} (within : ∀ c ∈ content, c ≠ '\n' ∧ c ≠ '\r' ∧ c ≠ nul)
    (unclosed : ¬ "?>".toList <:+: content) :
    ∃ n, (n = content.length ∨ n = content.length + 1) ∧ ∀ text, lineRest (content ++ '\n' :: text) = n := by
  obtain ⟨lead, rest, rfl, ends, all⟩ := lineRest_within within unclosed
  rcases ends with rfl | rfl
  · exact ⟨lead.length, .inl (by simp), fun text => all _⟩
  · exact ⟨lead.length + 2, .inr (by simp), fun text => all _⟩

theorem lineRest_block {content : List Char} (within : ∀ c ∈ content, c ≠ '\n' ∧ c ≠ '\r' ∧ c ≠ nul)
    (unclosed : ¬ "?>".toList <:+: content) (text : List Char) :
    lineRest (content ++ '*' :: '/' :: text) = content.length + 2 + lineRest text := by
  have star : lineRest ('*' :: '/' :: text) = 1 + (1 + lineRest text) := by
    rw [lineRest_other (by decide), if_neg (by decide), lineRest_other (by decide), if_neg (by decide)]
  have question : lineRest ('?' :: '*' :: '/' :: text) = 2 + (1 + lineRest text) := by
    rw [lineRest_question (by decide), if_neg (by simp), if_neg (by decide), lineRest_other (by decide),
      if_neg (by decide)]
  obtain ⟨lead, rest, rfl, rfl | rfl, all⟩ := lineRest_within within unclosed
  · rw [all, List.nil_append, star, List.append_nil]
    omega
  · rw [all, List.singleton_append, question, List.length_append, List.length_singleton]
    omega

theorem exists_skipped (remark : Remark) : ∃ skipped : List Skipped, (∀ item ∈ skipped, item.kind ≠ .markup) ∧
    skipped.flatMap (·.text) = remark.source ∧
    ∀ text, separators (remark.source ++ text) = skipped ++ separators text := by
  cases remark with
  | block content unclosed clean =>
      refine ⟨[⟨.comment, '/' :: '*' :: (content ++ "*/".toList)⟩], by simp, List.flatMap_singleton _ _, fun text => ?_⟩
      have found : find? "*/".toList (content ++ ("*/".toList ++ text)) = some content.length :=
        find?_of_unbordered text (by decide) unclosed
      have here : separator? ('/' :: '*' :: (content ++ ("*/".toList ++ text))) = some (.comment, content.length + 3) := by
        rw [separator?_cons rfl, if_neg (by simp), comment?_block, found, Option.bind_some, List.take_left,
          if_neg (by simpa using clean)]
        rfl
      have size : content.length + 3 = ('*' :: (content ++ "*/".toList)).length := by simp
      have split : (Remark.block content unclosed clean).source ++ text =
          '/' :: ('*' :: (content ++ "*/".toList) ++ text) := rfl
      rw [split, separators_cons (by simpa using here), size, List.take_left, List.drop_left]
      rfl
  | line content within unclosed =>
      obtain ⟨n, length, all⟩ := lineRest_line within unclosed
      have here (text : List Char) : separator? ('/' :: '/' :: (content ++ '\n' :: text)) = some (.comment, n + 1) := by
        rw [separator?_cons rfl, if_neg (by simp), comment?, Option.map_some, all,
          show 2 + n - 1 = n + 1 by omega]
      -- The line feed is a blank of its own, or it belongs to the comment if a question mark stands before it.
      rcases length with rfl | rfl
      · refine ⟨[⟨.comment, '/' :: '/' :: content⟩, ⟨.blank, ['\n']⟩], by simp, by simp [source, tail], fun text => ?_⟩
        have split : (Remark.line content within unclosed).source ++ text =
            '/' :: ('/' :: content ++ '\n' :: text) := by simp [source, tail]
        have blank : separator? ('\n' :: text) = some (.blank, 0) := rfl
        rw [split, separators_cons (by simpa using here text), show content.length + 1 = ('/' :: content).length from rfl,
          List.take_left, List.drop_left, separators_cons blank]
        rfl
      · refine ⟨[⟨.comment, '/' :: '/' :: (content ++ ['\n'])⟩], by simp, List.flatMap_singleton _ _, fun text => ?_⟩
        have split : (Remark.line content within unclosed).source ++ text =
            '/' :: ('/' :: (content ++ ['\n']) ++ text) := rfl
        rw [split, separators_cons (by simpa using here text),
          show content.length + 1 + 1 = ('/' :: (content ++ ['\n'])).length by simp, List.take_left, List.drop_left]
        rfl

theorem skipped_spec (remark : Remark) : (∀ item ∈ remark.skipped, item.kind ≠ .markup) ∧
    remark.skipped.flatMap (·.text) = remark.source ∧
    ∀ text, separators (remark.source ++ text) = remark.skipped ++ separators text := by
  obtain ⟨skipped, kinds, source, all⟩ := remark.exists_skipped
  have same : remark.skipped = skipped := by
    have alone := all []
    rwa [List.append_nil, show separators [] = [] by rw [separators], List.append_nil] at alone
  rw [same]
  exact ⟨kinds, source, all⟩

end Remark

theorem unended_tail {c : Char} {content : List Char} (unended : (c :: content).getLast? ≠ some '\n') :
    content.getLast? ≠ some '\n' := by
  cases content with
  | nil => simp
  | cons d content => rwa [List.getLast?_cons_cons] at unended

theorem lineRest_open {content text : List Char} (more : text ≠ [])
    (length : lineRest (content ++ text) = content.length) (unended : content.getLast? ≠ some '\n') :
    lineRest text = 0 ∧ ∀ rest, lineRest (content ++ '/' :: rest) = content.length + 1 + lineRest rest := by
  have slash (rest : List Char) : lineRest ('/' :: rest) = 1 + lineRest rest := by
    rw [lineRest_other (by decide), if_neg (by decide)]
  -- The induction follows `lineRest`. Where it stops at a character of the content, the content is not taken as a
  -- whole.
  induction content using lineRest.induct with
  | case1 => exact ⟨length, fun rest => by rw [List.nil_append, slash, List.length_nil, Nat.zero_add]⟩
  | case2 content =>
      have taken : 2 = ('?' :: '\n' :: content).length := length
      simp only [List.length_cons, Nat.right_eq_add] at taken
      obtain rfl : content = [] := List.length_eq_zero_iff.1 (by omega)
      exact absurd rfl unended
  | case3 content =>
      have taken : 3 = ('?' :: '\r' :: '\n' :: content).length := length
      simp only [List.length_cons, Nat.right_eq_add] at taken
      obtain rfl : content = [] := List.length_eq_zero_iff.1 (by omega)
      exact absurd rfl unended
  | case4 c content line apart ends =>
      rw [List.cons_append, List.cons_append, lineRest_question line, if_pos ends] at length
      split at length
      · rename_i both
        cases content with
        | nil => cases length
        | cons d content => exact absurd (apart content both.1) (by simpa using both.2)
      · cases length
  | case5 c content line _ ends ih =>
      rw [List.cons_append, List.cons_append, lineRest_question line, if_neg (fun both => ends (.inr (.inl both.1))),
        if_neg ends, List.length_cons, List.length_cons] at length
      obtain ⟨stops, all⟩ := ih (by omega) (unended_tail (unended_tail unended))
      refine ⟨stops, fun rest => ?_⟩
      rw [List.cons_append, List.cons_append, lineRest_question line, if_neg (fun both => ends (.inr (.inl both.1))),
        if_neg ends, all, List.length_cons, List.length_cons]
      omega
  | case6 =>
      -- A question mark goes together with what is behind it, or is not part of the comment.
      obtain ⟨d, text, rfl⟩ := List.exists_cons_of_ne_nil more
      by_cases line : d = '\n'
      · subst line
        cases length
      · rw [List.singleton_append, lineRest_question line] at length
        split at length
        · cases length
        · split at length
          · cases length
          · rw [List.length_singleton] at length
            omega
  | case7 c content question ends =>
      rw [List.cons_append, lineRest_other question, if_pos ends] at length
      cases length
  | case8 c content question ends ih =>
      rw [List.cons_append, lineRest_other question, if_neg ends, List.length_cons] at length
      obtain ⟨stops, all⟩ := ih (by omega) (unended_tail unended)
      refine ⟨stops, fun rest => ?_⟩
      rw [List.cons_append, lineRest_other question, if_neg ends, all, List.length_cons]
      omega

theorem comment?_open {c : Char} {tail text : List Char} (more : text ≠ [])
    (here : comment? (c :: (tail ++ text)) = some (tail.length + 1))
    (unclosed : Skipped.isClosed ⟨.comment, c :: tail⟩ = false) (bare : c :: tail = ['#'] → lineRest text = 0) :
    lineRest text = 0 ∧ ∀ rest, comment? (c :: (tail ++ '/' :: rest)) = some (tail.length + 2 + lineRest rest) := by
  simp only [Skipped.isClosed, bne_self_eq_false, Bool.false_or, Bool.or_eq_false_iff, beq_eq_false_iff_ne] at unclosed
  obtain ⟨noBlock, unended⟩ := unclosed
  by_cases slash : c = '/'
  · subst slash
    cases tail with
    | nil =>
        obtain ⟨d, text, rfl⟩ := List.exists_cons_of_ne_nil more
        rw [List.nil_append, List.length_nil] at here
        by_cases line : d = '/'
        · subst line
          have taken : 2 + lineRest text = 1 := Option.some.inj here
          omega
        by_cases block : d = '*'
        · subst block
          rw [comment?_block, Option.bind_eq_some_iff] at here
          obtain ⟨k, -, taken⟩ := here
          split at taken <;> simp at taken
        · rw [comment?_solidus line block] at here
          cases here
    | cons d content =>
        by_cases line : d = '/'
        · subst line
          have taken : 2 + lineRest (content ++ text) = content.length + 1 + 1 := Option.some.inj here
          obtain ⟨stops, all⟩ := lineRest_open more (by omega) (unended_tail (unended_tail unended))
          refine ⟨stops, fun rest => ?_⟩
          rw [List.cons_append, comment?, all, List.length_cons]
          congr 1
          omega
        by_cases block : d = '*'
        · subst block
          cases noBlock
        · rw [List.cons_append, comment?_solidus line block] at here
          cases here
  by_cases hash : c = '#'
  · subst hash
    cases tail with
    | nil =>
        refine ⟨bare rfl, fun rest => ?_⟩
        rw [List.nil_append, comment?_hash, if_neg (by decide), if_neg (by decide), List.length_nil]
    | cons d content =>
        rw [List.cons_append, comment?_hash] at here
        split at here
        · cases here
        · rename_i bracket
          split at here
          · simp at here
          · rename_i ends
            have taken : 2 + lineRest (content ++ text) = content.length + 1 + 1 := Option.some.inj here
            obtain ⟨stops, all⟩ := lineRest_open more (by omega) (unended_tail (unended_tail unended))
            refine ⟨stops, fun rest => ?_⟩
            rw [List.cons_append, comment?_hash, if_neg bracket, if_neg ends, all, List.length_cons]
            congr 1
            omega
  · rw [comment?_other slash hash] at here
    cases here

theorem lineRest_of_separators {text : List Char} (here : comment? ('#' :: text) = some 1) (more : text ≠ [])
    (some : separators text ≠ []) : lineRest text = 0 := by
  obtain ⟨d, text, rfl⟩ := List.exists_cons_of_ne_nil more
  rw [comment?_hash] at here
  split at here
  · cases here
  · split at here
    · rename_i ends
      by_cases question : d = '?'
      · subst question
        cases found : separator? ('?' :: text) with
        | none => exact absurd (separators_of_none found) some
        | some item =>
            rw [separator?_cons (by decide), comment?_other (by decide) (by decide)] at found
            split at found
            · rename_i marked
              obtain ⟨text, rfl⟩ := List.head?_eq_some_iff.1 marked.2
              rfl
            · cases found
      · rw [lineRest_other question, if_pos (ends.resolve_left question)]
    · have taken := Option.some.inj here
      omega

namespace Remark

theorem lineRest_tail (remark : Remark) (inline : remark.Inline) {text : List Char} (stops : lineRest text = 0) :
    ∃ body rest, remark.tail = body ++ rest ∧ (rest = [] ∨ rest = ['\n']) ∧
      lineRest (remark.tail ++ text) = body.length := by
  cases remark with
  | block content unclosed clean =>
      have within (c : Char) (mem : c ∈ content) : c ≠ '\n' ∧ c ≠ '\r' ∧ c ≠ nul :=
        ⟨(inline.1 c mem).1, (inline.1 c mem).2, fun same => clean (same ▸ mem)⟩
      refine ⟨_, [], (List.append_nil _).symm, .inl rfl, ?_⟩
      have length := lineRest_block within inline.2 text
      rw [tail, List.cons_append, List.append_assoc, lineRest_other (by decide), if_neg (by decide)]
      simp only [String.reduceToList, List.cons_append, List.nil_append, List.length_cons, List.length_append,
        List.length_nil] at length ⊢
      rw [length, stops]
      omega
  | line content within unclosed =>
      obtain ⟨n, length, all⟩ := lineRest_line within unclosed
      have taken : lineRest ('/' :: (content ++ ['\n']) ++ text) = 1 + n := by
        rw [List.cons_append, List.append_assoc, List.singleton_append, lineRest_other (by decide), if_neg (by decide),
          all]
      rcases length with rfl | rfl
      · refine ⟨'/' :: content, ['\n'], rfl, .inr rfl, ?_⟩
        rw [tail, taken, List.length_cons, Nat.add_comm]
      · refine ⟨_, [], (List.append_nil _).symm, .inl rfl, ?_⟩
        rw [tail, taken, List.length_cons, List.length_append, List.length_singleton, Nat.add_comm]

/-- Whether a comment between some separators leaves the tokens on both sides apart. Behind a one-line comment that goes on
it must not end the line; if this comment is a hash sign alone, no token is next to it. -/
def Fits (remark : Remark) (near far : List Skipped) : Prop :=
  ∀ item ∈ near.getLast?, item.isClosed = true ∨ remark.Inline ∧ (item.text = ['#'] → far ≠ [])

end Remark

theorem comment?_pos {text : List Char} {n : Nat} (here : comment? text = some n) : 0 < n := by
  unfold comment? at here
  split at here
  · cases here
    omega
  · split at here
    · split at here
      · cases here
      · cases here
        omega
    · cases here
  · split at here
    · cases here
      exact Nat.one_pos
    · split at here
      · cases here
      · split at here
        · cases here
          exact Nat.one_pos
        · cases here
          omega
  · cases here

theorem separator?_comment_iff {c : Char} {text : List Char} {more : Nat} :
    separator? (c :: text) = some (.comment, more) ↔ comment? (c :: text) = some (more + 1) := by
  cases space : isSpace c with
  | true =>
      have noSlash : c ≠ '/' := by
        rintro rfl
        cases space
      have noHash : c ≠ '#' := by
        rintro rfl
        cases space
      rw [separator?, if_pos space, comment?_other noSlash noHash]
      simp
  | false =>
      rw [separator?_cons space]
      by_cases mark : c = '?' ∧ text.head? = some '>'
      · rw [if_pos mark, comment?_other (by simp [mark.1]) (by simp [mark.1])]
        simp
      · rw [if_neg mark, Option.map_eq_some_iff]
        constructor
        · rintro ⟨n, found, same⟩
          have pos := comment?_pos found
          cases same
          rw [found, Nat.sub_add_cancel pos]
        · exact fun found => ⟨more + 1, found, rfl⟩

theorem separators_open (remark : Remark) (inline : remark.Inline) {item : Skipped} {far : List Skipped}
    {text : List Char} (more : text ≠ []) (split : separators (item.text ++ text) = item :: far)
    (unclosed : item.isClosed = false) (bare : item.text = ['#'] → far ≠ []) :
    ∃ gap, gap.filter (·.kind == .markup) = far.filter (·.kind == .markup) ∧
      gap.flatMap (·.text) = item.text ++ (remark.source ++ far.flatMap (·.text)) ∧
      separators (item.text ++ (remark.source ++ text)) = gap := by
  obtain ⟨kind, content⟩ := item
  obtain rfl : kind = .comment := by
    by_contra other
    simp [Skipped.isClosed, other] at unclosed
  obtain ⟨c, tail, rfl, here, rfl⟩ := separators_uncons split
  rw [separator?_comment_iff] at here
  obtain ⟨stops, joined⟩ := comment?_open more here unclosed fun alone => by
    obtain ⟨rfl, rfl⟩ := List.cons.inj alone
    exact lineRest_of_separators here more (bare rfl)
  obtain ⟨body, rest, whole, ends, length⟩ := remark.lineRest_tail inline stops
  have first : separator? (c :: (tail ++ '/' :: body ++ (rest ++ text))) =
      some (.comment, (tail ++ '/' :: body).length) := by
    rw [List.append_assoc, List.cons_append, ← List.append_assoc body, ← whole, separator?_comment_iff, joined, length,
      List.length_append, List.length_cons]
    congr 1
    omega
  have split : c :: tail ++ (remark.source ++ text) = c :: (tail ++ '/' :: body ++ (rest ++ text)) := by
    simp [Remark.source, whole]
  rw [split, separators_cons first, List.take_left, List.drop_left]
  rcases ends with rfl | rfl
  · refine ⟨_, ?_, ?_, rfl⟩
    · rw [List.filter_cons_of_neg (by simp), List.nil_append]
    · simp [Remark.source, whole]
  · have blank : separator? ('\n' :: text) = some (.blank, 0) := rfl
    rw [List.singleton_append, separators_cons blank]
    refine ⟨_, ?_, ?_, rfl⟩
    · rw [List.filter_cons_of_neg (by simp), List.filter_cons_of_neg (by simp)]
      rfl
    · simp [Remark.source, whole]

theorem separators_remark (remark : Remark) {near far : List Skipped} {text : List Char} (more : text ≠ [])
    (split : separators (near.flatMap (·.text) ++ text) = near ++ far) (fits : remark.Fits near far) :
    ∃ gap, gap.filter (·.kind == .markup) = (near ++ far).filter (·.kind == .markup) ∧
      gap.flatMap (·.text) = near.flatMap (·.text) ++ (remark.source ++ far.flatMap (·.text)) ∧
      separators (near.flatMap (·.text) ++ (remark.source ++ text)) = gap := by
  -- Behind a separator with an end of its own the comment stands by itself; otherwise it joins the one-line comment
  -- there.
  by_cases closed : ∀ item ∈ near.getLast?, item.isClosed = true
  · obtain ⟨kinds, source, skips⟩ := remark.skipped_spec
    have blank : remark.skipped.filter (·.kind == .markup) = [] := by
      rw [List.filter_eq_nil_iff]
      exact fun item mem => by simpa using kinds item mem
    refine ⟨near ++ (remark.skipped ++ far), ?_, ?_, ?_⟩
    · rw [List.filter_append, List.filter_append, blank, List.nil_append, List.filter_append]
    · rw [List.flatMap_append, List.flatMap_append, source]
    · exact @separators_slash [] text _ _ _ _ split (fun item mem => .inl (closed item mem)) (fun _ _ _ _ => more)
        (by rw [← separators_of_append split, ← skips]; rfl)
  · simp only [not_forall] at closed
    obtain ⟨item, mem, unclosed⟩ := closed
    obtain ⟨lead, rfl⟩ := List.getLast?_eq_some_iff.1 mem
    obtain ⟨inline, bare⟩ := (fits item mem).resolve_left unclosed
    have split' : separators (lead.flatMap (·.text) ++ (item.text ++ text)) = lead ++ item :: far := by
      simpa using split
    obtain ⟨gap, markup, texts, joined⟩ := separators_open remark inline more (separators_of_append split')
      (by simpa using unclosed) bare
    have solid := text_of_mem_separators (separators_of_append split' ▸ List.mem_cons_self)
    have whole := separators_slash split' (fun _ _ => .inr ⟨solid.1, .inr solid.2⟩)
      (fun _ _ _ none => absurd none solid.1) joined
    refine ⟨lead ++ gap, ?_, ?_, ?_⟩
    · have comment : item.kind ≠ .markup := fun markup => by simp [Skipped.isClosed, markup] at unclosed
      rw [List.append_assoc, List.filter_append, List.filter_append, markup, List.singleton_append,
        List.filter_cons_of_neg (by simpa using comment)]
    · rw [List.flatMap_append, texts]
      simp
    · rw [List.flatMap_append, List.flatMap_singleton, List.append_assoc]
      exact whole

end Phrasebook.Php
