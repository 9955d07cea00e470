import Phrasebook.Proofs.Php.Numbers
import Phrasebook.Proofs.Php.Lexemes

/-!
# How far the lexer looks

What ends before a slash is read as it was read before other text, unless the lexer looks at that text for its end: a
string that is open at the slash has to go on behind it.
-/

namespace Phrasebook.Php

variable {front back rest : List Char} {frames : List Frame}

/-! ## Symbols -/

theorem prefix_or_slash {lead : List Char} (here : lead <+: front ++ '/' :: rest) :
    lead <+: front ∨ '/' ∈ lead.drop front.length := by
  rcases Nat.lt_or_ge front.length lead.length with longer | fits
  · have split : front ++ '/' :: rest = front ++ ['/'] ++ rest := by simp
    obtain ⟨tail, rfl⟩ : front ++ ['/'] <+: lead :=
      List.prefix_of_prefix_length_le (split ▸ List.prefix_append _ rest) here (by simpa using Nat.succ_le_of_lt longer)
    exact .inr (by simp)
  · exact .inl (List.prefix_of_prefix_length_le here (List.prefix_append _ _) fits)

theorem begins_slash {lead : List Char} (inner : '/' ∉ lead.drop 1) (some : front ≠ []) :
    begins lead (front ++ '/' :: rest) = begins lead front := by
  cases begun : begins lead front with
  | true =>
      obtain ⟨tail, rfl⟩ := begins_iff.1 begun
      exact begins_iff.2 ⟨_, List.append_assoc _ _ _⟩
  | false =>
      rw [begins_eq_false_iff] at begun ⊢
      intro here
      refine inner ((prefix_or_slash here).elim (absurd · begun) fun mem => ?_)
      have split : front.length = 1 + (front.length - 1) := by
        have := List.length_pos_iff.2 some
        omega
      rw [split, ← List.drop_drop] at mem
      exact List.mem_of_mem_drop mem

theorem symbols_inner : ∀ symbol ∈ symbols, '/' ∉ symbol.drop 1 := by decide

theorem readSymbol_slash (some : front ≠ [])
    (noStray : ∀ lexeme ∈ (readSymbol frames (front ++ back)).lexemes, lexeme.kind ≠ .stray)
    (fits : (readSymbol frames (front ++ back)).more < front.length) :
    readSymbol frames (front ++ '/' :: rest) = readSymbol frames (front ++ back) := by
  rw [readSymbol] at noStray fits
  rw [readSymbol, readSymbol]
  cases found : symbols.find? (begins · (front ++ back)) with
  | none =>
      rw [found] at noStray
      exact absurd rfl (noStray _ List.mem_cons_self)
  | some symbol =>
      rw [found] at fits
      obtain ⟨begun, shorter, longer, split, others⟩ := List.find?_eq_some_iff_append.1 found
      have same : symbols.find? (begins · (front ++ '/' :: rest)) = Option.some symbol := by
        refine List.find?_eq_some_iff_append.2 ⟨?_, shorter, longer, split, fun other mem => ?_⟩
        · have size : symbol.length ≤ front.length := by
            simp only at fits
            omega
          rw [begins_append _ size] at begun ⊢
          exact begun
        · have inner := symbols_inner other (by simp [split, mem])
          have none := others other mem
          rw [Bool.not_eq_true'] at none ⊢
          rw [begins_slash inner some]
          rw [begins_eq_false_iff] at none ⊢
          exact fun here => none (here.trans (List.prefix_append _ _))
      rw [same]

/-! ## Quotes -/

theorem singleLength_take {text : List Char} {n : Nat} (found : singleLength text = some n) (rest : List Char) :
    singleLength (text.take n ++ rest) = some n := by
  fun_induction singleLength text generalizing n with
  | case1 | case3 | case4 | case5 => cases found
  | case2 tail =>
      cases found
      rw [List.take_succ_cons, List.cons_append, singleLength.eq_def]
      rfl
  | case6 c tail noNul _ _ ih =>
      obtain ⟨m, length, rfl⟩ := Option.map_eq_some_iff.1 found
      rw [List.take_succ_cons, List.take_succ_cons, List.cons_append, List.cons_append, singleLength.eq_def]
      simpa [nul, ih length] using noNul
  | case7 c tail noQuote noNul plain ih =>
      obtain ⟨m, length, rfl⟩ := Option.map_eq_some_iff.1 found
      rw [List.take_succ_cons, List.cons_append, singleLength.eq_def]
      simp [noQuote, noNul, plain, ih length]

theorem singleLength_append {n : Nat} (found : singleLength (front ++ back) = some n) (fits : n ≤ front.length)
    (rest : List Char) : singleLength (front ++ rest) = some n := by
  have whole := singleLength_take found (front.drop n ++ rest)
  rwa [List.take_append_of_le_length fits, ← List.append_assoc, List.take_append_drop] at whole

/-! ## Headers -/

structure Header where
  gap : List Char
  quote : List Char
  label : List Char
  indent : List Char
  lineBreak : Char
  gap_indents : gap.all isIndent = true
  isQuote : quote = [] ∨ quote = ['\''] ∨ quote = ['"']
  starts : label.head?.any isLabelStart = true
  names : label.all isLabelChar = true
  indent_indents : indent.all isIndent = true
  breaks : lineBreak = '\n' ∨ lineBreak = '\r'

namespace Header

def opening (header : Header) : List Char := header.gap ++ (header.quote ++ (header.label ++ header.quote))

def text (header : Header) : List Char := header.opening ++ (header.indent ++ [header.lineBreak])

end Header

theorem isIndent_of_label {c : Char} (name : isLabelChar c = true) : isIndent c = false := by
  have other : c ≠ ' ' ∧ c ≠ '\t' := by
    refine ⟨?_, ?_⟩ <;> (rintro rfl; exact absurd name (by decide))
  simp [isIndent, other]

theorem isLabelChar_of_start {c : Char} (starts : isLabelStart c = true) : isLabelChar c = true := by
  rw [isLabelChar, starts, Bool.true_or]

def quoteOf (text : List Char) : List Char :=
  match text.head? with
  | some c => if c = '\'' ∨ c = '"' then [c] else []
  | none => []

theorem header?_eq (text : List Char) : header? text =
    let gap := text.takeWhile isIndent
    let quote := quoteOf (text.drop gap.length)
    let label := ((text.drop gap.length).drop quote.length).takeWhile isLabelChar
    let after := (text.drop gap.length).drop (quote.length + label.length)
    let tail := after.drop quote.length
    let final := tail.drop (tail.takeWhile isIndent).length
    if label.head?.any isLabelStart ∧ begins quote after ∧ (final.head?.any fun c => c = '\n' ∨ c = '\r') then
      some (gap.length + quote.length + label.length + quote.length, label, decide (quote ≠ ['\'']))
    else none := rfl

theorem header?_text (header : Header) (rest : List Char) :
    header? (header.text ++ rest) = some (header.opening.length, header.label, decide (header.quote ≠ ['\''])) := by
  obtain ⟨gap, quote, label, indent, lineBreak, gaps, isQuote, starts, names, indents, breaks⟩ := header
  have head : ∃ c tail, label = c :: tail := by
    cases label with
    | nil => cases starts
    | cons c tail => exact ⟨c, tail, rfl⟩
  obtain ⟨c, tail, same⟩ := head
  have start : isLabelStart c = true := by simpa [same] using starts
  have noQuote : ¬ (c = '\'' ∨ c = '"') := by
    rintro (rfl | rfl) <;> cases start
  have quoted : (quote ++ (label ++ (quote ++ (indent ++ lineBreak :: rest)))).head?.any isIndent = false := by
    rcases isQuote with rfl | rfl | rfl
    · simpa [same] using isIndent_of_label (isLabelChar_of_start start)
    all_goals rfl
  have named : (quote ++ (indent ++ lineBreak :: rest)).head?.any isLabelChar = false := by
    rcases isQuote with rfl | rfl | rfl
    · cases indent with
      | nil => rcases breaks with rfl | rfl <;> rfl
      | cons d indent =>
          simp only [List.all_cons, Bool.and_eq_true] at indents
          simp only [List.nil_append, List.cons_append, List.head?_cons, Option.any_some]
          by_contra other
          exact absurd indents.1 (by simp [isIndent_of_label (Bool.of_not_eq_false other)])
    all_goals rfl
  have broken : (lineBreak :: rest).head?.any isIndent = false := by
    rcases breaks with rfl | rfl <;> rfl
  have quote' : quoteOf (quote ++ (label ++ (quote ++ (indent ++ lineBreak :: rest)))) = quote := by
    rcases isQuote with rfl | rfl | rfl
    · simp [same, quoteOf, noQuote]
    all_goals rfl
  have whole : Header.text ⟨gap, quote, label, indent, lineBreak, gaps, isQuote, starts, names, indents, breaks⟩ ++ rest =
      gap ++ (quote ++ (label ++ (quote ++ (indent ++ lineBreak :: rest)))) := by simp [Header.text, Header.opening]
  rw [whole, header?_eq]
  dsimp only
  rw [takeWhile_append_of_head gaps quoted, List.drop_left, quote', List.drop_left, takeWhile_append_of_head names named,
    ← List.drop_drop, List.drop_left, List.drop_left, List.drop_left, takeWhile_append_of_head indents broken,
    List.drop_left, if_pos]
  · simp [Header.opening, Nat.add_assoc]
  · exact ⟨starts, begins_iff.2 ⟨_, rfl⟩, by simpa using breaks⟩

theorem quoteOf_cases (text : List Char) : quoteOf text = [] ∨ quoteOf text = ['\''] ∨ quoteOf text = ['"'] := by
  unfold quoteOf
  split
  · split
    · rename_i quoted
      rcases quoted with rfl | rfl
      · exact .inr (.inl rfl)
      · exact .inr (.inr rfl)
    · exact .inl rfl
  · exact .inl rfl

theorem prefix_quoteOf (text : List Char) : quoteOf text <+: text := by
  cases text with
  | nil => exact List.nil_prefix
  | cons c text =>
      rw [quoteOf, List.head?_cons]
      dsimp only
      split
      · exact ⟨text, rfl⟩
      · exact List.nil_prefix

theorem exists_header {text : List Char} {r : Nat × List Char × Bool} (found : header? text = some r) :
    ∃ header : Header, header.text <+: text := by
  rw [header?_eq] at found
  dsimp only at found
  split at found
  · rename_i whole
    obtain ⟨starts, quoted, breaks⟩ := whole
    have gapped := takeWhile_append_drop isIndent text
    have gaps := @List.all_takeWhile _ isIndent text
    generalize text.takeWhile isIndent = gap at *
    generalize text.drop gap.length = rest at *
    have marked := List.prefix_iff_eq_append.1 (prefix_quoteOf rest)
    have isQuote := quoteOf_cases rest
    generalize quoteOf rest = quote at *
    rw [← List.drop_drop] at quoted breaks
    have labelled := takeWhile_append_drop isLabelChar (rest.drop quote.length)
    have names := @List.all_takeWhile _ isLabelChar (rest.drop quote.length)
    generalize (rest.drop quote.length).takeWhile isLabelChar = label at *
    obtain ⟨tail, split⟩ := begins_iff.1 quoted
    rw [split, List.drop_left] at breaks
    have indented := takeWhile_append_drop isIndent tail
    have indents := @List.all_takeWhile _ isIndent tail
    generalize tail.takeWhile isIndent = indent at *
    obtain ⟨c, final, here⟩ : ∃ c final, tail.drop indent.length = c :: final := by
      cases same : tail.drop indent.length with
      | nil =>
          rw [same] at breaks
          cases breaks
      | cons c final => exact ⟨c, final, rfl⟩
    have breaks : c = '\n' ∨ c = '\r' := by simpa [here] using breaks
    refine ⟨⟨gap, quote, label, indent, c, gaps, isQuote, starts, names, indents, breaks⟩,
      final, ?_⟩
    rw [← gapped, ← marked, ← labelled, split, ← indented, here]
    simp [Header.text, Header.opening]
  · cases found

theorem slash_not_mem_header (header : Header) : '/' ∉ header.text := by
  have gap : '/' ∉ header.gap := fun mem => absurd (List.all_eq_true.1 header.gap_indents _ mem) (by decide)
  have label : '/' ∉ header.label := fun mem => absurd (List.all_eq_true.1 header.names _ mem) (by decide)
  have indent : '/' ∉ header.indent := fun mem => absurd (List.all_eq_true.1 header.indent_indents _ mem) (by decide)
  have quote : '/' ∉ header.quote := by rcases header.isQuote with same | same | same <;> simp [same]
  have lineBreak : '/' ≠ header.lineBreak := by rcases header.breaks with same | same <;> simp [same]
  simp [Header.text, Header.opening, gap, label, indent, quote, lineBreak]

theorem header?_slash_of_none (none : header? (front ++ back) = none) : header? (front ++ '/' :: rest) = Option.none := by
  cases found : header? (front ++ '/' :: rest) with
  | none => rfl
  | some r =>
      obtain ⟨header, whole⟩ := exists_header found
      have inside := (prefix_or_slash whole).resolve_right fun mem =>
        slash_not_mem_header header (List.mem_of_mem_drop mem)
      obtain ⟨tail, rfl⟩ := inside
      rw [List.append_assoc, header?_text] at none
      cases none

/-! ## Labels -/

def IsLabel (label : List Char) : Prop := label ≠ [] ∧ label.all isLabelChar = true

theorem Header.isLabel (header : Header) : IsLabel header.label := by
  refine ⟨?_, header.names⟩
  have starts := header.starts
  rintro same
  rw [same] at starts
  cases starts

def IsMark (c : Char) : Prop := isIndent c = false ∧ isLabelChar c = false

theorem isMark_break {c : Char} (breaks : c = '\n' ∨ c = '\r') : IsMark c := by
  rcases breaks with rfl | rfl <;> exact ⟨rfl, rfl⟩

def endsAt (label text : List Char) : Bool := closesHeredoc label (text.drop (text.takeWhile isIndent).length)

theorem closesHeredoc_append {label : List Char} (isLabel : IsLabel label) (marked : ∃ c ∈ front, IsMark c)
    (rest : List Char) : closesHeredoc label (front ++ rest) = closesHeredoc label front := by
  obtain ⟨c, mem, mark⟩ := marked
  -- The label would have to reach beyond a character that it cannot hold.
  have inside {text : List Char} (here : label <+: front ++ text) : label.length < front.length := by
    by_contra long
    have whole : front <+: label :=
      List.prefix_of_prefix_length_le (List.prefix_append _ _) here (Nat.le_of_not_lt long)
    have name := List.all_eq_true.1 isLabel.2 c (whole.subset mem)
    rw [mark.2] at name
    cases name
  rcases Nat.lt_or_ge label.length front.length with short | long
  · have head : ((front ++ rest).drop label.length).head? = (front.drop label.length).head? := by
      obtain ⟨d, tail, same⟩ := List.exists_cons_of_ne_nil (l := front.drop label.length) (by simpa using short)
      rw [List.drop_append_of_le_length (Nat.le_of_lt short), same]
      rfl
    rw [closesHeredoc, closesHeredoc, begins_append _ (Nat.le_of_lt short), head]
  · have none (text : List Char) : begins label (front ++ text) = false :=
      begins_eq_false_iff.2 fun here => Nat.not_lt.2 long (inside here)
    have none' := none []
    rw [List.append_nil] at none'
    rw [closesHeredoc, closesHeredoc, none, none', Bool.false_and, Bool.false_and]

theorem takeWhile_append_of_exists {α : Type} {p : α → Bool} {items : List α} (stops : ∃ item ∈ items, p item = false)
    (rest : List α) : (items ++ rest).takeWhile p = items.takeWhile p := by
  rw [List.takeWhile_append]
  split
  · rename_i all
    obtain ⟨item, mem, stop⟩ := stops
    have whole : items.takeWhile p = items := (List.takeWhile_prefix p).eq_of_length all
    rw [← whole] at mem
    have passes := List.all_eq_true.1 List.all_takeWhile item mem
    rw [stop] at passes
    cases passes
  · rfl

theorem endsAt_append {label : List Char} (isLabel : IsLabel label) (marked : ∃ c ∈ front, IsMark c)
    (rest : List Char) : endsAt label (front ++ rest) = endsAt label front := by
  obtain ⟨c, mem, mark⟩ := marked
  have split := takeWhile_append_drop isIndent front
  have inside : c ∈ front.drop (front.takeWhile isIndent).length := by
    rw [← split, List.mem_append] at mem
    refine mem.resolve_left fun mem => ?_
    have passes := List.all_eq_true.1 List.all_takeWhile c mem
    rw [mark.1] at passes
    cases passes
  rw [endsAt, endsAt, takeWhile_append_of_exists ⟨c, mem, mark.1⟩, List.drop_append_of_le_length
    (List.takeWhile_prefix isIndent).length_le, closesHeredoc_append isLabel ⟨c, inside, mark⟩]

theorem endsAt_slash {label : List Char} (ends : endsAt label (front ++ back) = true)
    (fits : ((front ++ back).takeWhile isIndent).length + label.length ≤ front.length) :
    (front ++ '/' :: rest).takeWhile isIndent = (front ++ back).takeWhile isIndent ∧
      endsAt label (front ++ '/' :: rest) = true := by
  have indent : (front ++ '/' :: rest).takeWhile isIndent = (front ++ back).takeWhile isIndent :=
    takeWhile_slash rfl (by omega)
  refine ⟨indent, ?_⟩
  rw [endsAt, closesHeredoc, Bool.and_eq_true] at ends ⊢
  rw [indent]
  have within : ((front ++ back).takeWhile isIndent).length ≤ front.length := by omega
  rw [List.drop_append_of_le_length within] at ends ⊢
  have size : label.length ≤ (front.drop ((front ++ back).takeWhile isIndent).length).length := by
    rw [List.length_drop]
    omega
  generalize front.drop ((front ++ back).takeWhile isIndent).length = front at *
  rw [begins_append _ size, List.drop_append_of_le_length size] at ends ⊢
  refine ⟨ends.1, ?_⟩
  cases same : front.drop label.length with
  | nil => rfl
  | cons c tail =>
      rw [same] at ends
      exact ends.2

def endsLine (c : Char) (text : List Char) : Bool := c == '\n' || (c == '\r' && text.head? != some '\n')

theorem endsLine_iff {c : Char} {text : List Char} :
    endsLine c text = true ↔ c = '\n' ∨ (c = '\r' ∧ text.head? ≠ some '\n') := by simp [endsLine]

theorem endsLine_append {c : Char} (some : front ≠ []) (rest : List Char) :
    endsLine c (front ++ rest) = endsLine c front := by
  cases front with
  | nil => exact absurd rfl some
  | cons d front => rfl

theorem isMark_of_endsLine {c : Char} {text : List Char} (ends : endsLine c text = true) : IsMark c :=
  isMark_break ((endsLine_iff.1 ends).imp_right And.left)

theorem nowdocLength_cons (label : List Char) (c : Char) (text : List Char) : nowdocLength label (c :: text) =
    if endsLine c text ∧ endsAt label text then some (1 + (text.takeWhile isIndent).length + label.length)
    else (nowdocLength label text).map (· + 1) := by
  simp only [nowdocLength, endsLine_iff, endsAt]

theorem nowdocLength_mark {label text : List Char} {n : Nat} (found : nowdocLength label text = some n) :
    0 < n ∧ ∃ c ∈ text.take n, IsMark c := by
  induction text generalizing n with
  | nil => cases found
  | cons c text ih =>
      rw [nowdocLength_cons] at found
      split at found
      · rename_i both
        cases found
        rw [Nat.add_assoc, Nat.add_comm 1, List.take_succ_cons]
        exact ⟨by omega, c, List.mem_cons_self, isMark_of_endsLine both.1⟩
      · obtain ⟨m, inner, rfl⟩ := Option.map_eq_some_iff.1 found
        obtain ⟨_, d, mem, mark⟩ := ih inner
        exact ⟨by omega, d, List.mem_cons_of_mem _ mem, mark⟩

theorem nowdocLength_slash {label : List Char} (isLabel : IsLabel label) {n : Nat}
    (found : nowdocLength label (front ++ back) = some n) (fits : n ≤ front.length) :
    nowdocLength label (front ++ '/' :: rest) = some n := by
  induction front generalizing n with
  | nil => exact absurd (nowdocLength_mark found).1 (by simpa using fits)
  | cons c front ih =>
      have label_pos := List.length_pos_iff.2 isLabel.1
      rw [List.cons_append, nowdocLength_cons] at found ⊢
      rw [List.length_cons] at fits
      by_cases ends : endsLine c (front ++ back) = true ∧ endsAt label (front ++ back) = true
      · rw [if_pos ends] at found
        cases found
        have some : front ≠ [] := List.length_pos_iff.1 (by omega)
        obtain ⟨same, here⟩ : (front ++ '/' :: rest).takeWhile isIndent = (front ++ back).takeWhile isIndent ∧
            endsAt label (front ++ '/' :: rest) = true := endsAt_slash ends.2 (by omega)
        have line : endsLine c (front ++ '/' :: rest) = true := by
          rw [endsLine_append some, ← endsLine_append some back]
          exact ends.1
        rw [if_pos ⟨line, here⟩, same]
      · rw [if_neg ends] at found
        obtain ⟨m, inner, rfl⟩ := Option.map_eq_some_iff.1 found
        obtain ⟨pos, d, mem, mark⟩ := nowdocLength_mark inner
        rw [List.take_append_of_le_length (by omega)] at mem
        have some : front ≠ [] := List.length_pos_iff.1 (by omega)
        have marked : ∃ c ∈ front, IsMark c := ⟨d, List.mem_of_mem_take mem, mark⟩
        rw [endsLine_append some, endsAt_append isLabel marked] at ends ⊢
        rw [if_neg ends, ih inner (by omega)]
        rfl

/-! ## Strings with substitutions -/

theorem substitution_cons (c : Char) (text : List Char) : substitution (c :: text) =
    ((c == '$' && text.head?.any fun d => isLabelStart d || d == '{') || (c == '{' && text.head? == some '$')) := by
  unfold substitution
  split
  · rename_i d tail same
    obtain ⟨rfl, rfl⟩ := List.cons.inj same
    simp
  · rename_i tail same
    obtain ⟨rfl, rfl⟩ := List.cons.inj same
    simp
  · rename_i noDollar noBrace
    cases text with
    | nil => simp
    | cons d tail =>
        have first : c ≠ '$' := fun same => noDollar d tail (by rw [same])
        have second : ¬ (c = '{' ∧ d = '$') := fun both => noBrace tail (by rw [both.1, both.2])
        simpa [first] using second

theorem substitution_append {c : Char} (some : front ≠ []) (rest : List Char) :
    substitution (c :: (front ++ rest)) = substitution (c :: front) := by
  cases front with
  | nil => exact absurd rfl some
  | cons d front => simp only [substitution_cons, List.cons_append, List.head?_cons]

theorem exists_cons_cons {text : List Char} (long : 2 ≤ text.length) : ∃ c d tail, text = c :: d :: tail := by
  rcases text with _ | ⟨c, _ | ⟨d, tail⟩⟩
  · cases long
  · exact absurd long (by simp)
  · exact ⟨c, d, tail, rfl⟩

theorem substitution_append_of_long (long : 2 ≤ front.length) (rest : List Char) :
    substitution (front ++ rest) = substitution front := by
  obtain ⟨c, d, tail, rfl⟩ := exists_cons_cons long
  exact substitution_append (List.cons_ne_nil d tail) rest

/-- What is left of a string with substitutions behind a part of it: more than one character, or the quote. -/
def Continues (quote : Option Char) (front : List Char) : Prop := 2 ≤ front.length ∨ front ≠ [] ∧ front.head? = quote

theorem quotedLength_cons (quote c : Char) (text : List Char) : quotedLength quote (c :: text) =
    if c = quote ∨ substitution (c :: text) then 0
    else if c = '\\' ∧ text ≠ [] then 2 + quotedLength quote (text.drop 1)
    else 1 + quotedLength quote text := by
  rw [quotedLength.eq_def]
  dsimp only
  split
  · rfl
  · cases text with
    | nil => simp [quotedLength]
    | cons d text => simp

theorem Continues.some {quote c : Char} {n : Nat} (other : c ≠ quote)
    (continues : Continues (some quote) ((c :: front).drop n)) : front ≠ [] := by
  rintro rfl
  rcases n with _ | n <;> simp [Continues, other] at continues

theorem quotedLength_append {quote : Char} (fits : quotedLength quote (front ++ back) ≤ front.length)
    (continues : Continues (some quote) (front.drop (quotedLength quote (front ++ back)))) (rest : List Char) :
    quotedLength quote (front ++ rest) = quotedLength quote (front ++ back) := by
  -- By strong induction, as an escape takes two characters at once. The string goes on behind `front`, so none of its
  -- tests looks at what follows.
  induction size : front.length using Nat.strong_induction_on generalizing front with
  | h size ih =>
      subst size
      cases front with
      | nil => simp [Continues] at continues
      | cons c front =>
          by_cases closes : c = quote
          · rw [List.cons_append, List.cons_append, quotedLength_cons, quotedLength_cons, if_pos (.inl closes),
              if_pos (.inl closes)]
          have some := continues.some closes
          have split (text : List Char) : front ++ text ≠ [] := List.append_ne_nil_of_left_ne_nil some text
          rw [List.cons_append, quotedLength_cons, substitution_append some] at fits continues
          rw [List.cons_append, List.cons_append, quotedLength_cons, quotedLength_cons, substitution_append some,
            substitution_append some]
          by_cases begun : substitution (c :: front) = true
          · rw [if_pos (.inr begun), if_pos (.inr begun)]
          rw [if_neg (not_or.2 ⟨closes, begun⟩)] at fits continues
          rw [if_neg (not_or.2 ⟨closes, begun⟩), if_neg (not_or.2 ⟨closes, begun⟩)]
          by_cases escape : c = '\\'
          · obtain ⟨d, front, rfl⟩ := List.exists_cons_of_ne_nil some
            rw [if_pos ⟨escape, split back⟩] at fits continues
            rw [if_pos ⟨escape, split _⟩, if_pos ⟨escape, split _⟩]
            simp only [List.cons_append, List.drop_succ_cons, List.drop_zero, List.length_cons] at fits continues ⊢
            rw [Nat.add_comm 2, List.drop_succ_cons, List.drop_succ_cons] at continues
            rw [ih _ (by simp only [List.length_cons]; omega) (by omega) continues rfl]
          · rw [if_neg fun both => escape both.1] at fits continues
            rw [if_neg fun both => escape both.1, if_neg fun both => escape both.1]
            rw [Nat.add_comm 1, List.drop_succ_cons] at continues
            rw [List.length_cons] at fits
            rw [ih _ (by simp) (by omega) continues rfl]

/-- How far the lexer has to look to see the end of a part of a heredoc: to the end of the label, or to the second
character of a substitution. -/
def reach (label : List Char) (part : Nat × Bool) : Nat := part.1 + if part.2 then label.length else 2

theorem heredocLength_cons (label : List Char) (c : Char) (text : List Char) : heredocLength label (c :: text) =
    if substitution (c :: text) then (0, false)
    else if endsLine c text ∧ endsAt label text then (1 + (text.takeWhile isIndent).length, true)
    else if c = '\\' ∧ text.head?.any (fun x => x ≠ '\n' ∧ x ≠ '\r') then
      ((heredocLength label (text.drop 1)).1 + 2, (heredocLength label (text.drop 1)).2)
    else ((heredocLength label text).1 + 1, (heredocLength label text).2) := by
  rw [heredocLength.eq_def]
  simp only [endsLine_iff, endsAt]
  split
  · rfl
  · split
    · rfl
    · cases text with
      | nil => simp [heredocLength]
      | cons x text =>
          by_cases escape : c = '\\'
          · by_cases breaks : x = '\n' ∨ x = '\r'
            · have plain : ¬ (x ≠ '\n' ∧ x ≠ '\r') := fun both => breaks.elim both.1 both.2
              simp [escape, breaks, plain]
            · have plain : x ≠ '\n' ∧ x ≠ '\r' := not_or.1 breaks
              simp [escape, plain]
          · simp [escape]

theorem isMark_of_substitution {c : Char} {text : List Char} (begun : substitution (c :: text) = true) : IsMark c := by
  rw [substitution_cons, Bool.or_eq_true, Bool.and_eq_true, Bool.and_eq_true] at begun
  rcases begun with ⟨dollar, _⟩ | ⟨brace, _⟩
  · rw [beq_iff_eq.1 dollar]
    exact ⟨rfl, rfl⟩
  · rw [beq_iff_eq.1 brace]
    exact ⟨rfl, rfl⟩

theorem heredocLength_slash {label : List Char} (isLabel : IsLabel label)
    (fits : reach label (heredocLength label (front ++ back)) ≤ front.length) :
    (∃ c ∈ front, IsMark c) ∧ heredocLength label (front ++ '/' :: rest) = heredocLength label (front ++ back) := by
  have label_pos := List.length_pos_iff.2 isLabel.1
  have reach_pos (part : Nat × Bool) : 0 < reach label part := by
    rw [reach]
    split <;> omega
  have reach_add (part : Nat × Bool) (m : Nat) : reach label (part.1 + m, part.2) = reach label part + m :=
    Nat.add_right_comm _ _ _
  -- The invariant is that the reading reaches no farther than `front`. The mark that stops it also keeps every test
  -- before it from reaching the slash.
  induction size : front.length using Nat.strong_induction_on generalizing front with
  | h size ih =>
      subst size
      cases front with
      | nil => exact absurd (reach_pos _) (Nat.not_lt.2 fits)
      | cons c front =>
          rw [List.cons_append, heredocLength_cons, List.length_cons] at fits
          by_cases begun : substitution (c :: (front ++ back)) = true
          · rw [if_pos begun] at fits
            have some : front ≠ [] := List.length_pos_iff.1 (Nat.le_of_succ_le_succ fits)
            have begun' : substitution (c :: (front ++ '/' :: rest)) = true := by
              rwa [substitution_append some] at begun ⊢
            refine ⟨⟨c, List.mem_cons_self, isMark_of_substitution begun⟩, ?_⟩
            rw [List.cons_append, List.cons_append, heredocLength_cons, heredocLength_cons, if_pos begun, if_pos begun']
          rw [if_neg begun] at fits
          by_cases ends : endsLine c (front ++ back) = true ∧ endsAt label (front ++ back) = true
          · rw [if_pos ends] at fits
            have fits : 1 + ((front ++ back).takeWhile isIndent).length + label.length ≤ front.length + 1 := fits
            have some : front ≠ [] := List.length_pos_iff.1 (by omega)
            obtain ⟨same, here⟩ : (front ++ '/' :: rest).takeWhile isIndent = (front ++ back).takeWhile isIndent ∧
                endsAt label (front ++ '/' :: rest) = true := endsAt_slash ends.2 (by omega)
            have line : endsLine c (front ++ '/' :: rest) = true := by
              rw [endsLine_append some, ← endsLine_append some back]
              exact ends.1
            have begun' : ¬ substitution (c :: (front ++ '/' :: rest)) = true := by
              rwa [substitution_append some] at begun ⊢
            refine ⟨⟨c, List.mem_cons_self, isMark_of_endsLine ends.1⟩, ?_⟩
            rw [List.cons_append, List.cons_append, heredocLength_cons, heredocLength_cons, if_neg begun, if_neg begun',
              if_pos ends, if_pos ⟨line, here⟩, same]
          rw [if_neg ends] at fits
          have some : front ≠ [] := by
            refine List.length_pos_iff.1 (Nat.pos_of_ne_zero fun none => ?_)
            split at fits
            · rw [reach_add] at fits
              omega
            · rw [reach_add] at fits
              have := reach_pos (heredocLength label (front ++ back))
              omega
          -- The tests that failed at `c` fail again: a label that reached the slash would have to run over the mark.
          have further (marked : ∃ d ∈ front, IsMark d) :
              ¬ substitution (c :: (front ++ '/' :: rest)) = true ∧
                ¬ (endsLine c (front ++ '/' :: rest) = true ∧ endsAt label (front ++ '/' :: rest) = true) := by
            rw [substitution_append some] at begun ⊢
            rw [endsLine_append some, endsAt_append isLabel marked] at ends ⊢
            exact ⟨begun, ends⟩
          have head : (front ++ back).head? = front.head? ∧ (front ++ '/' :: rest).head? = front.head? :=
            ⟨List.head?_append_of_ne_nil _ some, List.head?_append_of_ne_nil _ some⟩
          rw [head.1] at fits
          rw [List.cons_append, List.cons_append, heredocLength_cons, heredocLength_cons, if_neg begun, if_neg ends,
            head.1, head.2]
          by_cases escape : c = '\\' ∧ (front.head?.any fun x => x ≠ '\n' ∧ x ≠ '\r') = true
          · rw [if_pos escape, reach_add] at fits
            obtain ⟨d, front, rfl⟩ := List.exists_cons_of_ne_nil some
            rw [List.cons_append, List.drop_succ_cons, List.drop_zero, List.length_cons] at fits
            obtain ⟨⟨e, mem, mark⟩, same⟩ := ih front.length (by simp only [List.length_cons]; omega) (by omega) rfl
            have apart := further ⟨e, List.mem_cons_of_mem _ mem, mark⟩
            refine ⟨⟨e, by simp [mem], mark⟩, ?_⟩
            rw [if_neg apart.1, if_neg apart.2, if_pos escape, if_pos escape]
            simp only [List.cons_append, List.drop_succ_cons, List.drop_zero, same]
          · rw [if_neg escape, reach_add] at fits
            obtain ⟨⟨e, mem, mark⟩, same⟩ := ih front.length (by simp) (by omega) rfl
            have apart := further ⟨e, mem, mark⟩
            refine ⟨⟨e, List.mem_cons_of_mem _ mem, mark⟩, ?_⟩
            rw [if_neg apart.1, if_neg apart.2, if_neg escape, if_neg escape, same]

theorem nameAt_slash (some : front ≠ []) (fits : (nameAt (front ++ back)).text.length ≤ front.length) :
    nameAt (front ++ '/' :: rest) = nameAt (front ++ back) := by
  obtain ⟨c, front, rfl⟩ := List.exists_cons_of_ne_nil some
  rw [nameAt, nameAt]
  rw [nameAt] at fits
  by_cases starts : isNameStart c = true
  · rw [if_pos (by simpa using starts)] at fits
    rw [if_pos (by simpa using starts), if_pos (by simpa using starts), takeWhile_slash rfl fits]
  · rw [if_neg (by simpa using starts), if_neg (by simpa using starts)]
    rfl

theorem readVariable_slash {name : Lexeme}
    (fits : (readVariable frames name (front ++ back)).more ≤ name.text.length + front.length) :
    readVariable frames name (front ++ '/' :: rest) = readVariable frames name (front ++ back) := by
  rw [readVariable] at fits
  dsimp only at fits
  rw [readVariable, readVariable]
  dsimp only
  -- What follows a variable is told by three characters at most, and those that were needed are in `front`.
  by_cases index : begins "[".toList (front ++ back) = true
  · rw [if_pos index] at fits
    have size : "[".toList.length ≤ front.length := by
      simp only [String.reduceToList, List.length_singleton] at fits ⊢
      omega
    have index' : begins "[".toList (front ++ '/' :: rest) = true := by rwa [begins_append _ size] at index ⊢
    rw [if_pos index, if_pos index']
  rw [if_neg index] at fits
  by_cases arrow : begins "->".toList (front ++ back) = true ∧ ((front ++ back).drop 2).head?.any isLabelChar = true
  · rw [if_pos arrow] at fits
    have fits : name.text.length + 2 + (nameAt ((front ++ back).drop 2)).text.length ≤
      name.text.length + front.length := fits
    obtain ⟨c, d, front, rfl⟩ := @exists_cons_cons front (by omega)
    simp only [List.cons_append, List.drop_succ_cons, List.drop_zero, List.length_cons] at index arrow fits ⊢
    have some : front ≠ [] := by
      rintro rfl
      cases back with
      | nil => cases arrow.2
      | cons e back =>
          have pos := List.length_pos_iff.2 (nameAt_ne_nil e back)
          rw [List.nil_append, List.length_nil] at fits
          omega
    have property : nameAt (front ++ '/' :: rest) = nameAt (front ++ back) := nameAt_slash some (by omega)
    have index' : ¬ begins "[".toList (c :: d :: (front ++ '/' :: rest)) = true := index
    have arrow' : begins "->".toList (c :: d :: (front ++ '/' :: rest)) = true ∧
        (front ++ '/' :: rest).head?.any isLabelChar = true := by
      rw [List.head?_append_of_ne_nil _ some] at arrow ⊢
      exact arrow
    rw [if_neg index', if_pos arrow', if_neg index, if_pos arrow, property]
  have index' : ¬ begins "[".toList (front ++ '/' :: rest) = true := by
    cases front with
    | nil => exact fun begun => by cases begun
    | cons c front => exact index
  have arrow' : ¬ (begins "->".toList (front ++ '/' :: rest) = true ∧
      ((front ++ '/' :: rest).drop 2).head?.any isLabelChar = true) := by
    rcases front with _ | ⟨c, _ | ⟨d, _ | ⟨e, front⟩⟩⟩
    · exact fun both => by cases both.1
    · rintro ⟨begun, _⟩
      obtain ⟨tail, split⟩ := begins_iff.1 begun
      cases split
    · rintro ⟨_, name⟩
      cases name
    · exact arrow
  rw [if_neg index', if_neg arrow', if_neg index, if_neg arrow]

theorem le_readVariable (name : Lexeme) (tail : List Char) :
    name.text.length ≤ (readVariable frames name tail).more := by
  rw [readVariable]
  split
  · exact Nat.le_succ _
  · split
    · exact Nat.le_trans (Nat.le_add_right _ 2) (Nat.le_add_right _ _)
    · exact Nat.le_refl _

theorem readSubstitution_slash (long : 2 ≤ front.length) (begun : substitution (front ++ back) = true)
    (fits : (readSubstitution frames (front ++ back)).more < front.length) :
    readSubstitution frames (front ++ '/' :: rest) = readSubstitution frames (front ++ back) := by
  obtain ⟨c, d, front, rfl⟩ := exists_cons_cons long
  rcases substitution_cases begun with ⟨_, same⟩ | ⟨_, same⟩ | ⟨e, tail, same, other, start⟩
  · obtain ⟨rfl, rfl, _⟩ := by simpa using same
    rfl
  · obtain ⟨rfl, rfl, _⟩ := by simpa using same
    rfl
  · obtain ⟨rfl, rfl, _⟩ := by simpa using same
    have whole (text : List Char) : readSubstitution frames ('$' :: d :: front ++ text) =
        readVariable frames (nameAt (d :: front ++ text))
          ((d :: front ++ text).drop (nameAt (d :: front ++ text)).text.length) :=
      readSubstitution_variable (front ++ text) other
    rw [whole] at fits
    have inside : (nameAt (d :: front ++ back)).text.length ≤ (d :: front).length :=
      Nat.le_trans (le_readVariable _ _) (Nat.le_of_lt_succ fits)
    rw [whole, whole, nameAt_slash (List.cons_ne_nil _ _) inside, List.drop_append_of_le_length inside,
      List.drop_append_of_le_length inside]
    rw [List.drop_append_of_le_length inside] at fits
    refine readVariable_slash ?_
    rw [List.length_drop]
    simp only [List.length_cons] at fits inside ⊢
    omega

/-! ## One step -/

def Reading.Sound (reading : Reading) : Prop := ∀ lexeme ∈ reading.lexemes, lexeme.kind ≠ .stray

theorem not_sound_stray {count : Nat} {text : List Char} : ¬ (Reading.one .stray frames count text).Sound :=
  fun sound => sound _ List.mem_cons_self rfl

theorem one_append {kind : LexemeKind} {count : Nat} (fits : count ≤ front.length) (rest : List Char) :
    Reading.one kind frames count (front ++ rest) = Reading.one kind frames count front := by
  rw [Reading.one, Reading.one, List.take_append_of_le_length fits]

section Quotes

variable {mark : Nat} {text tail : List Char}

theorem readQuote_single {n : Nat} (here : text.drop mark = '\'' :: tail) (found : singleLength tail = some n) :
    readQuote frames mark text = .one .single frames (mark + 1 + n) text := by
  simp only [readQuote, here, found]

theorem readQuote_unclosed (here : text.drop mark = '\'' :: tail) (none : singleLength tail = none) :
    readQuote frames mark text = .one .stray frames (mark + 1) text := by
  simp only [readQuote, here, none]

theorem readQuote_opener {c : Char} (here : text.drop mark = c :: tail) (other : c ≠ '\'') :
    readQuote frames mark text = .one .opener (.quoted c :: frames) (mark + 1) text := by
  rw [readQuote, here]
  split
  · rename_i same
    exact absurd (List.cons.inj same).1 other
  · rename_i same
    rw [(List.cons.inj same).1]
  · rename_i same
    cases same

end Quotes

theorem readQuote_append {mark : Nat} (some : mark < front.length) (sound : (readQuote frames mark (front ++ back)).Sound)
    (fits : (readQuote frames mark (front ++ back)).more < front.length) (rest : List Char) :
    readQuote frames mark (front ++ rest) = readQuote frames mark (front ++ back) := by
  obtain ⟨c, tail, same⟩ := List.exists_cons_of_ne_nil (l := front.drop mark) (by simpa using some)
  have length := congrArg List.length same
  rw [List.length_drop, List.length_cons] at length
  have split (text : List Char) : (front ++ text).drop mark = c :: (tail ++ text) := by
    rw [List.drop_append_of_le_length (Nat.le_of_lt some), same, List.cons_append]
  by_cases single : c = '\''
  · subst single
    cases found : singleLength (tail ++ back) with
    | none =>
        rw [readQuote_unclosed (split back) found] at sound
        exact absurd sound not_sound_stray
    | some n =>
        rw [readQuote_single (split back) found] at fits
        have fits : mark + 1 + n - 1 < front.length := fits
        have found' := singleLength_append found (by omega) rest
        rw [readQuote_single (split rest) found', readQuote_single (split back) found, one_append (by omega),
          one_append (by omega)]
  · rw [readQuote_opener (split rest) single, readQuote_opener (split back) single, one_append some, one_append some]

section Code

variable {text : List Char}

def BeginsBinary (text : List Char) : Prop :=
  (text.takeWhile isNameChar = ['b'] ∨ text.takeWhile isNameChar = ['B']) ∧
    ((text.drop 1).head?.any fun c => c = '\'' ∨ c = '"') = true

def BeginsQuote (text : List Char) : Prop :=
  begins ['\''] text = true ∨ begins ['"'] text = true ∨ begins ['\x60'] text = true

structure Bare (text : List Char) : Prop where
  starts : ¬ text.head?.any isNameStart = true
  number : numberLength text = 0
  quote : ¬ BeginsQuote text

theorem readCode_word (starts : text.head?.any isNameStart = true) (plain : ¬ BeginsBinary text) :
    readCode frames text = .one .word frames (text.takeWhile isNameChar).length text := by
  rw [readCode]
  exact (if_pos starts).trans (if_neg plain)

theorem readCode_binary (starts : text.head?.any isNameStart = true) (binary : BeginsBinary text) :
    readCode frames text = readQuote frames 1 text := by
  rw [readCode]
  exact (if_pos starts).trans (if_pos binary)

theorem readCode_number (starts : ¬ text.head?.any isNameStart = true) (number : 0 < numberLength text) :
    readCode frames text = .one .number frames (numberLength text) text := by
  rw [readCode]
  exact (if_neg starts).trans (if_pos number)

theorem readCode_quote (starts : ¬ text.head?.any isNameStart = true) (number : ¬ 0 < numberLength text)
    (quote : BeginsQuote text) : readCode frames text = readQuote frames 0 text := by
  rw [readCode]
  exact (if_neg starts).trans ((if_neg number).trans (if_pos quote))

theorem Bare.readCode_symbol (bare : Bare text)
    (other : begins "<<<".toList text = true → header? (text.drop 3) = none) :
    readCode frames text = readSymbol frames text := by
  rw [readCode]
  refine (if_neg bare.starts).trans ((if_neg (by rw [bare.number]; exact Nat.lt_irrefl 0)).trans
    ((if_neg bare.quote).trans ?_))
  split
  · rename_i begun
    rw [other begun]
  · rfl

variable {n m : Nat} {label : List Char}

theorem bare_angles (text : List Char) : Bare ("<<<".toList ++ text) where
  starts starts := by cases starts
  number := rfl
  quote quote := by rcases quote with quote | quote | quote <;> cases quote

theorem drop_angles (text : List Char) (n : Nat) : ("<<<".toList ++ text).drop (3 + n) = text.drop n := by
  rw [← List.drop_drop]
  rfl

theorem readCode_heredoc (header : header? text = some (n, label, true)) :
    readCode frames ("<<<".toList ++ text) = .one .opener (.heredoc label :: frames) (3 + n) ("<<<".toList ++ text) := by
  have bare := bare_angles text
  rw [readCode]
  refine (if_neg bare.starts).trans ((if_neg (by rw [bare.number]; exact Nat.lt_irrefl 0)).trans
    ((if_neg bare.quote).trans ((if_pos (begins_iff.2 ⟨text, rfl⟩)).trans ?_)))
  simp only [drop_angles text 0, List.drop_zero, header]

theorem readCode_nowdoc (header : header? text = some (n, label, false))
    (found : nowdocLength label (text.drop n) = some m) :
    readCode frames ("<<<".toList ++ text) = .one .nowdoc frames (3 + n + m) ("<<<".toList ++ text) := by
  have bare := bare_angles text
  rw [readCode]
  refine (if_neg bare.starts).trans ((if_neg (by rw [bare.number]; exact Nat.lt_irrefl 0)).trans
    ((if_neg bare.quote).trans ((if_pos (begins_iff.2 ⟨text, rfl⟩)).trans ?_)))
  simp only [drop_angles text 0, List.drop_zero, header, drop_angles, found]

theorem readCode_unclosed (header : header? text = some (n, label, false))
    (none : nowdocLength label (text.drop n) = none) :
    readCode frames ("<<<".toList ++ text) = .one .stray frames 1 ("<<<".toList ++ text) := by
  have bare := bare_angles text
  rw [readCode]
  refine (if_neg bare.starts).trans ((if_neg (by rw [bare.number]; exact Nat.lt_irrefl 0)).trans
    ((if_neg bare.quote).trans ((if_pos (begins_iff.2 ⟨text, rfl⟩)).trans ?_)))
  simp only [drop_angles text 0, List.drop_zero, header, drop_angles, none]

end Code

theorem le_readQuote {mark : Nat} {c : Char} {text tail : List Char} (here : text.drop mark = c :: tail)
    (sound : (readQuote frames mark text).Sound) : mark ≤ (readQuote frames mark text).more := by
  by_cases single : c = '\''
  · subst single
    cases found : singleLength tail with
    | none =>
        rw [readQuote_unclosed here found] at sound
        exact absurd sound not_sound_stray
    | some n =>
        rw [readQuote_single here found]
        change mark ≤ mark + 1 + n - 1
        omega
  · rw [readQuote_opener here single]
    exact Nat.le_refl mark

theorem nowdocLength_indent {label indent text : List Char} {c : Char} {m : Nat} (indents : indent.all isIndent = true)
    (found : nowdocLength label (indent ++ c :: text) = some m) : indent.length < m := by
  induction indent generalizing m with
  | nil => exact (nowdocLength_mark found).1
  | cons d indent ih =>
      simp only [List.all_cons, Bool.and_eq_true] at indents
      have inside : endsLine d (indent ++ c :: text) = false := Bool.eq_false_iff.2 fun ends => by
        rw [(isMark_of_endsLine ends).1] at indents
        cases indents.1
      rw [List.cons_append, nowdocLength_cons, inside, if_neg (by simp)] at found
      obtain ⟨k, inner, rfl⟩ := Option.map_eq_some_iff.1 found
      exact Nat.succ_lt_succ (ih indents.2 inner)

theorem readCode_slash_header {text : List Char} (header : Header)
    (split : front ++ back = "<<<".toList ++ (header.text ++ text)) (sound : (readCode frames (front ++ back)).Sound)
    (fits : (readCode frames (front ++ back)).more < front.length)
    (headed : (readCode frames (front ++ back)).frames = .heredoc header.label :: frames →
      "<<<".toList ++ header.text <+: front ++ back → "<<<".toList ++ header.text <+: front) :
    readCode frames (front ++ '/' :: rest) = readCode frames (front ++ back) := by
  have found := header?_text header
  have inside : "<<<".toList ++ header.text <+: front ++ back := ⟨text, by rw [split, List.append_assoc]⟩
  -- The reading of a heredoc ends with its header, that of a nowdoc with its label.
  cases kind : decide (header.quote ≠ ['\'']) with
  | true =>
      rw [kind] at found
      have read (text : List Char) := @readCode_heredoc frames _ _ _ (found text)
      obtain ⟨tail, rfl⟩ := headed (by rw [split, read]; rfl) inside
      have split' (text : List Char) : "<<<".toList ++ header.text ++ tail ++ text =
          "<<<".toList ++ (header.text ++ (tail ++ text)) := by simp
      have size : 3 + header.opening.length ≤ ("<<<".toList ++ header.text ++ tail).length := by
        simp only [Header.text, List.length_append, String.reduceToList, List.length_cons, List.length_nil]
        omega
      rw [split', split', read, read, ← split', ← split', one_append size, one_append size]
  | false =>
      rw [kind] at found
      have body (text : List Char) : (header.text ++ text).drop header.opening.length =
          header.indent ++ header.lineBreak :: text := by
        simp only [Header.text, List.append_assoc, List.drop_left, List.cons_append, List.nil_append]
      cases length : nowdocLength header.label (header.indent ++ header.lineBreak :: text) with
      | none =>
          rw [split, readCode_unclosed (found text) (by rw [body, length])] at sound
          exact absurd sound not_sound_stray
      | some m =>
          have read := @readCode_nowdoc frames _ _ m _ (found text) (by rw [body, length])
          rw [← split] at read
          rw [read] at fits
          have fits : 3 + header.opening.length + m - 1 < front.length := fits
          have pos := nowdocLength_indent header.indent_indents length
          obtain ⟨tail, rfl⟩ : "<<<".toList ++ header.text <+: front := by
            refine List.prefix_of_prefix_length_le inside (List.prefix_append _ _) ?_
            simp only [Header.text, List.length_append, String.reduceToList, List.length_cons, List.length_nil]
            omega
          have same : text = tail ++ back := by simpa using split.symm
          have split' (text : List Char) : "<<<".toList ++ header.text ++ tail ++ text =
              "<<<".toList ++ (header.text ++ (tail ++ text)) := by simp
          have whole (text : List Char) : header.indent ++ header.lineBreak :: (tail ++ text) =
              header.indent ++ header.lineBreak :: tail ++ text := by simp
          have size : 3 + header.opening.length + m ≤ ("<<<".toList ++ header.text ++ tail).length := by omega
          have length' :
              nowdocLength header.label (header.indent ++ header.lineBreak :: (tail ++ '/' :: rest)) = some m := by
            rw [same, whole] at length
            rw [whole]
            refine nowdocLength_slash header.isLabel length ?_
            simp only [Header.text, List.length_append, String.reduceToList, List.length_cons, List.length_nil] at size ⊢
            omega
          have read' := @readCode_nowdoc frames _ _ m _ (found (tail ++ '/' :: rest)) (by rw [body, length'])
          rw [read, split', read', ← split', one_append size, one_append size]

theorem readCode_slash (some : front ≠ []) (sound : (readCode frames (front ++ back)).Sound)
    (fits : (readCode frames (front ++ back)).more < front.length)
    (headed : ∀ header : Header, (readCode frames (front ++ back)).frames = .heredoc header.label :: frames →
      "<<<".toList ++ header.text <+: front ++ back → "<<<".toList ++ header.text <+: front) :
    readCode frames (front ++ '/' :: rest) = readCode frames (front ++ back) := by
  have pos := List.length_pos_iff.2 some
  have head (text : List Char) : (front ++ text).head? = front.head? := List.head?_append_of_ne_nil _ some
  -- The tests of the lexer in their order. Each comes out as it did before, so the same branch is taken.
  by_cases starts : front.head?.any isNameStart = true
  · rw [← head back] at starts
    have starts' : (front ++ '/' :: rest).head?.any isNameStart = true := by rwa [head] at starts ⊢
    by_cases binary : BeginsBinary (front ++ back)
    · rw [readCode_binary starts binary] at sound fits
      obtain ⟨d, tail, same⟩ : ∃ d tail, (front ++ back).drop 1 = d :: tail := by
        cases same : (front ++ back).drop 1 with
        | nil =>
            have none := binary.2
            rw [same] at none
            cases none
        | cons d tail => exact ⟨d, tail, rfl⟩
      have long : 1 < front.length := Nat.lt_of_le_of_lt (le_readQuote same sound) fits
      have inside : ((front ++ back).takeWhile isNameChar).length ≤ front.length := by
        rcases binary.1 with same | same <;> rw [same] <;> exact pos
      have binary' : BeginsBinary (front ++ '/' :: rest) := by
        have more : front.drop 1 ≠ [] := List.length_pos_iff.1 (by rw [List.length_drop]; omega)
        rw [BeginsBinary, List.drop_append_of_le_length pos, List.head?_append_of_ne_nil _ more] at binary ⊢
        rwa [takeWhile_slash rfl inside]
      rw [readCode_binary starts binary, readCode_binary starts' binary']
      exact readQuote_append long sound fits _
    · rw [readCode_word starts binary] at fits
      have inside : ((front ++ back).takeWhile isNameChar).length ≤ front.length := by
        change ((front ++ back).takeWhile isNameChar).length - 1 < front.length at fits
        omega
      have name : (front ++ '/' :: rest).takeWhile isNameChar = (front ++ back).takeWhile isNameChar :=
        takeWhile_slash rfl inside
      have binary' : ¬ BeginsBinary (front ++ '/' :: rest) := by
        rw [BeginsBinary, List.drop_append_of_le_length pos] at binary ⊢
        rw [name]
        cases same : front.drop 1 with
        | nil => exact fun both => by cases both.2
        | cons d tail =>
            rw [same] at binary
            exact binary
      rw [readCode_word starts binary, readCode_word starts' binary', name, one_append inside, one_append inside]
  have starts' (text : List Char) : ¬ (front ++ text).head?.any isNameStart = true := by rwa [head]
  by_cases number : 0 < numberLength (front ++ back)
  · rw [readCode_number (starts' _) number] at fits
    have inside : numberLength (front ++ back) ≤ front.length := by
      change numberLength (front ++ back) - 1 < front.length at fits
      omega
    have length : numberLength (front ++ '/' :: rest) = numberLength (front ++ back) := numberLength_slash inside
    rw [readCode_number (starts' _) number, readCode_number (starts' _) (length ▸ number), length, one_append inside,
      one_append inside]
  have none : numberLength (front ++ back) = 0 := Nat.eq_zero_of_not_pos number
  have none' : numberLength (front ++ '/' :: rest) = 0 := by
    rw [numberLength_slash (by rw [none]; exact Nat.zero_le _), none]
  have quoted (text : List Char) : BeginsQuote (front ++ text) ↔ BeginsQuote front := by
    have size (c : Char) : [c].length ≤ front.length := pos
    rw [BeginsQuote, BeginsQuote, begins_append _ (size _), begins_append _ (size _), begins_append _ (size _)]
  by_cases quote : BeginsQuote front
  · rw [readCode_quote (starts' _) number ((quoted _).2 quote)] at sound fits
    rw [readCode_quote (starts' _) number ((quoted _).2 quote),
      readCode_quote (starts' _) (by rw [none']; exact Nat.lt_irrefl 0) ((quoted _).2 quote)]
    exact readQuote_append pos sound fits _
  have bare : Bare (front ++ back) := ⟨starts' _, none, fun begun => quote ((quoted _).1 begun)⟩
  have bare' : Bare (front ++ '/' :: rest) := ⟨starts' _, none', fun begun => quote ((quoted _).1 begun)⟩
  by_cases angles : begins "<<<".toList (front ++ back) = true ∧ header? ((front ++ back).drop 3) ≠ Option.none
  · obtain ⟨tail, split⟩ := begins_iff.1 angles.1
    obtain ⟨found, header?⟩ := Option.ne_none_iff_exists'.1 angles.2
    rw [split] at header?
    obtain ⟨header, text, rfl⟩ := exists_header header?
    exact readCode_slash_header header split sound fits (headed header)
  have symbol (begun : begins "<<<".toList (front ++ back) = true) : header? ((front ++ back).drop 3) = Option.none :=
    Classical.not_not.1 fun other => angles ⟨begun, other⟩
  have symbol' (begun : begins "<<<".toList (front ++ '/' :: rest) = true) :
      header? ((front ++ '/' :: rest).drop 3) = Option.none := by
    rw [begins_slash (by decide) some] at begun
    obtain ⟨tail, rfl⟩ := begins_iff.1 begun
    exact header?_slash_of_none (symbol (by rw [List.append_assoc]; exact begins_iff.2 ⟨_, rfl⟩))
  rw [bare.readCode_symbol symbol] at sound fits
  rw [bare.readCode_symbol symbol, bare'.readCode_symbol symbol']
  exact readSymbol_slash some sound fits

section Inside

variable {text : List Char} {outer : List Frame} {quote : Char} {label : List Char} {n : Nat}

theorem read_code (inside : inCode frames = true) (text : List Char) : read frames text = readCode frames text := by
  unfold read
  split
  · cases inside
  · cases inside
  · rfl

theorem read_quote (closes : begins [quote] text = true) :
    read (.quoted quote :: outer) text = .one .closer outer 1 text := if_pos closes

theorem read_substitution_quoted (opens : begins [quote] text = false) (begun : substitution text = true) :
    read (.quoted quote :: outer) text = readSubstitution (.quoted quote :: outer) text :=
  (if_neg (Bool.eq_false_iff.1 opens)).trans (if_pos begun)

theorem read_substitution_heredoc (begun : substitution text = true) :
    read (.heredoc label :: outer) text = readSubstitution (.heredoc label :: outer) text := if_pos begun

theorem read_chunk (opens : begins [quote] text = false) (apart : substitution text = false) :
    read (.quoted quote :: outer) text = .one .chunk (.quoted quote :: outer) (quotedLength quote text) text :=
  (if_neg (Bool.eq_false_iff.1 opens)).trans (if_neg (Bool.eq_false_iff.1 apart))

theorem read_label (apart : substitution text = false) (length : heredocLength label text = (n, true)) :
    read (.heredoc label :: outer) text =
      ⟨[⟨.chunk, text.take n⟩, ⟨.closer, label⟩], outer, n + label.length - 1⟩ := by
  refine (if_neg (Bool.eq_false_iff.1 apart)).trans ?_
  rw [length]

theorem read_line (apart : substitution text = false) (length : heredocLength label text = (n, false)) :
    read (.heredoc label :: outer) text = .one .chunk (.heredoc label :: outer) n text := by
  refine (if_neg (Bool.eq_false_iff.1 apart)).trans ?_
  rw [length]

end Inside

def topQuote : List Frame → Option Char
  | .quoted quote :: _ => some quote
  | _ => none

theorem Continues.long (continues : Continues none front) : 2 ≤ front.length := by
  exact continues.resolve_right fun both => both.1 (List.head?_eq_none_iff.1 both.2)

/-- A reading that ends before a slash is what was read before, provided that the string that it lies in goes on. -/
theorem read_slash (some : front ≠ []) (labels : ∀ label, .heredoc label ∈ frames → IsLabel label)
    (sound : (read frames (front ++ back)).Sound) (fits : (read frames (front ++ back)).more < front.length)
    (here : inCode frames = false → Continues (topQuote frames) front)
    (there : inCode (read frames (front ++ back)).frames = false →
      Continues (topQuote (read frames (front ++ back)).frames) (front.drop ((read frames (front ++ back)).more + 1)))
    (headed : ∀ header : Header, (read frames (front ++ back)).frames = .heredoc header.label :: frames →
      "<<<".toList ++ header.text <+: front ++ back → "<<<".toList ++ header.text <+: front) :
    read frames (front ++ '/' :: rest) = read frames (front ++ back) := by
  have pos := List.length_pos_iff.2 some
  -- In code a reading is settled by what it takes; in a string it also has to be known that the string goes on.
  cases inside : inCode frames with
  | true =>
      rw [read_code inside] at sound fits headed
      rw [read_code inside, read_code inside]
      exact readCode_slash some sound fits headed
  | false =>
  have here := here inside
  obtain ⟨frame, outer, rfl⟩ : ∃ frame outer, frames = frame :: outer := by
    cases frames with
    | nil => cases inside
    | cons frame outer => exact ⟨frame, outer, rfl⟩
  cases frame with
  | braces => cases inside
  | index => cases inside
  | quoted quote =>
      have size : [quote].length ≤ front.length := pos
      by_cases closes : begins [quote] front = true
      · have closes (text : List Char) : begins [quote] (front ++ text) = true := by rwa [begins_append _ size]
        rw [read_quote (closes _), read_quote (closes _), one_append pos, one_append pos]
      have opens (text : List Char) : begins [quote] (front ++ text) = false := by
        rw [begins_append _ size]
        exact Bool.eq_false_iff.2 closes
      have long : 2 ≤ front.length := by
        refine here.resolve_right fun both => closes ?_
        obtain ⟨tail, rfl⟩ := List.head?_eq_some_iff.1 both.2
        exact begins_iff.2 ⟨tail, rfl⟩
      have same := substitution_append_of_long long
      cases begun : substitution front with
      | true =>
          have begun (text : List Char) : substitution (front ++ text) = true := by rw [same, begun]
          rw [read_substitution_quoted (opens _) (begun _)] at fits
          rw [read_substitution_quoted (opens _) (begun _), read_substitution_quoted (opens _) (begun _)]
          exact readSubstitution_slash long (begun _) fits
      | false =>
          have apart (text : List Char) : substitution (front ++ text) = false := by rw [same, begun]
          have chunk (text : List Char) := @read_chunk _ outer _ (opens text) (apart text)
          rw [chunk] at fits there
          have positive : 0 < quotedLength quote (front ++ back) := by
            obtain ⟨c, tail, rfl⟩ := List.exists_cons_of_ne_nil some
            exact quotedLength_pos (opens back) (apart back)
          have inside : quotedLength quote (front ++ back) ≤ front.length := by
            change quotedLength quote (front ++ back) - 1 < front.length at fits
            omega
          have further : Continues (Option.some quote) (front.drop (quotedLength quote (front ++ back))) := by
            have continues := there rfl
            change Continues (Option.some quote) (front.drop (quotedLength quote (front ++ back) - 1 + 1)) at continues
            rwa [Nat.sub_add_cancel positive] at continues
          rw [chunk, chunk, quotedLength_append inside further, one_append inside, one_append inside]
  | heredoc label =>
      have long := Continues.long here
      have isLabel := labels label List.mem_cons_self
      have same := substitution_append_of_long long
      cases begun : substitution front with
      | true =>
          have begun (text : List Char) : substitution (front ++ text) = true := by rw [same, begun]
          rw [read_substitution_heredoc (begun _)] at fits
          rw [read_substitution_heredoc (begun _), read_substitution_heredoc (begun _)]
          exact readSubstitution_slash long (begun _) fits
      | false =>
          have apart (text : List Char) : substitution (front ++ text) = false := by rw [same, begun]
          have positive : 0 < (heredocLength label (front ++ back)).1 := by
            obtain ⟨c, tail, rfl⟩ := List.exists_cons_of_ne_nil some
            exact heredocLength_pos (apart back)
          have slash := @heredocLength_slash front back rest _ isLabel
          rcases length : heredocLength label (front ++ back) with ⟨n, _ | _⟩
          · rw [length] at positive slash
            rw [read_line (apart _) length] at fits there
            have continues := there rfl
            change n - 1 < front.length at fits
            change Continues none (front.drop (n - 1 + 1)) at continues
            have left := continues.long
            rw [Nat.sub_add_cancel positive, List.length_drop] at left
            have inside : n ≤ front.length := by omega
            have length' := (slash (by rw [reach]; simp; omega)).2
            rw [read_line (apart _) length, read_line (apart _) length', one_append inside, one_append inside]
          · rw [length] at positive slash
            rw [read_label (apart _) length] at fits
            have fits : n + label.length - 1 < front.length := fits
            have inside : n ≤ front.length := by
              have := List.length_pos_iff.2 isLabel.1
              omega
            have length' := (slash (by rw [reach]; simp; omega)).2
            rw [read_label (apart _) length, read_label (apart _) length', List.take_append_of_le_length inside,
              List.take_append_of_le_length inside]

end Phrasebook.Php
