import Phrasebook.Template.Compile
import Phrasebook.Proofs.Text.Search

namespace Phrasebook.Template

/-- The texts at which a step may do something else than copy a character. -/
def openers : List (List Char) :=
  ["@".toList, "\x7b\x7b".toList, "\x7b!!".toList, "<?php".toList, "<?=".toList]

def IsText (text : List Char) : Prop := ∀ opener ∈ openers, ¬ opener <:+: text

instance {text : List Char} : Decidable (IsText text) :=
  inferInstanceAs (Decidable (∀ opener ∈ openers, ¬ opener <:+: text))

/-- An opener begins in a text and goes on behind it. -/
def OpensAcross (text rest : List Char) : Prop :=
  ∃ front back, front ++ back ∈ openers ∧ front ≠ [] ∧ back ≠ [] ∧ front <:+ text ∧ back <+: rest

def lastOf (previous : Option Char) (text : List Char) : Option Char := text.getLast?.or previous

theorem lastOf_cons (previous : Option Char) (c : Char) (text : List Char) :
    lastOf previous (c :: text) = lastOf (some c) text := by
  cases last : text.getLast? <;> simp [lastOf, List.getLast?_cons, last]

section Steps

variable {before previous : Option Char} {loops loops' : Loops} {text rest out : List Char}

theorem compileFrom_taking (some : text ≠ [])
    (here : step previous loops (text ++ rest) = .taking text.length out loops') :
    compileFrom previous loops (text ++ rest) = out ++ compileFrom text.getLast? loops' rest := by
  obtain ⟨c, cs, rfl⟩ := List.exists_cons_of_ne_nil some
  rw [List.cons_append] at here ⊢
  rw [compileFrom, here]
  simp [Step.taking]

theorem compileFrom_previous (same : before.any isWordChar = previous.any isWordChar) :
    compileFrom before loops text = compileFrom previous loops text := by
  cases text with
  | nil => rw [compileFrom, compileFrom]
  | cons c text =>
      have step : step before loops (c :: text) = step previous loops (c :: text) := by simp only [step, same]
      rw [compileFrom, compileFrom, step]

theorem compileFrom_some {c : Char} (noWord : isWordChar c = false) :
    compileFrom (some c) loops text = compileFrom none loops text :=
  compileFrom_previous (by rw [Option.any_some, noWord, Option.any_none])

theorem compileFrom_passing {c : Char} (last : text.getLast? = some c) (noWord : isWordChar c = false)
    (here : step previous loops (text ++ rest) = .taking text.length out loops') :
    compileFrom previous loops (text ++ rest) = out ++ compileFrom none loops' rest := by
  have some : text ≠ [] := by
    rintro rfl
    cases last
  rw [compileFrom_taking some here, last, compileFrom_some noWord]

theorem compileFrom_rest (copied : step previous loops text = .copy text loops) :
    compileFrom previous loops text = text := by
  by_cases empty : text = []
  · rw [empty, compileFrom]
  · have all : compileFrom previous loops (text ++ []) = _ := compileFrom_taking empty (by rwa [List.append_nil])
    rwa [List.append_nil, compileFrom, List.append_nil] at all

theorem step_copy {c : Char} (noOpener : ∀ opener ∈ openers, begins opener (c :: text) = false) :
    step previous loops (c :: text) = .copy [c] loops := by
  have directive : begins "@".toList (c :: text) = false := noOpener _ (by simp [openers])
  have escaped : begins "\x7b\x7b".toList (c :: text) = false := noOpener _ (by simp [openers])
  have raw : begins "\x7b!!".toList (c :: text) = false := noOpener _ (by simp [openers])
  have php : begins "<?php".toList (c :: text) = false := noOpener _ (by simp [openers])
  have short : begins "<?=".toList (c :: text) = false := noOpener _ (by simp [openers])
  have comment : begins "\x7b\x7b--".toList (c :: text) = false := begins_of_shorter escaped
  have tripled : begins "\x7b\x7b\x7b".toList (c :: text) = false := begins_of_shorter escaped
  have literal : begins "@\x7b\x7b".toList (c :: text) = false := begins_of_shorter directive
  simp only [step, directive, escaped, raw, php, short, comment, tripled, literal]
  rfl

end Steps

section Texts

variable {previous : Option Char} {loops : Loops} {text rest : List Char}

theorem IsText.noOpener {c : Char} (isText : IsText (c :: text)) (apart : ¬ OpensAcross (c :: text) rest) :
    ∀ opener ∈ openers, begins opener (c :: (text ++ rest)) = false := by
  intro opener opens
  rw [begins_eq_false_iff]
  intro here
  rcases List.prefix_or_prefix_of_prefix here (List.prefix_append (c :: text) rest) with inside | ⟨back, rfl⟩
  · exact isText opener opens inside.isInfix
  · by_cases inside : back = []
    · subst inside
      rw [List.append_nil] at opens
      exact isText _ opens (List.infix_refl (c :: text))
    · rw [← List.cons_append, List.prefix_append_right_inj] at here
      exact apart ⟨c :: text, back, opens, List.cons_ne_nil c text, inside, List.suffix_rfl, here⟩

theorem compileFrom_text (isText : IsText text) (apart : ¬ OpensAcross text rest) :
    compileFrom previous loops (text ++ rest) = text ++ compileFrom (lastOf previous text) loops rest := by
  induction text generalizing previous with
  | nil => rfl
  | cons c text ih =>
      have others : IsText text := fun opener opens inside => isText opener opens (List.infix_cons inside)
      have apart' : ¬ OpensAcross text rest := by
        rintro ⟨front, back, opens, some, more, ends, begins⟩
        exact apart ⟨front, back, opens, some, more, ends.trans (List.suffix_cons c text), begins⟩
      have copied : step previous loops (c :: (text ++ rest)) = .copy [c] loops := step_copy (isText.noOpener apart)
      have here : compileFrom previous loops ([c] ++ (text ++ rest)) =
          [c] ++ compileFrom (some c) loops (text ++ rest) :=
        compileFrom_taking (List.cons_ne_nil c []) copied
      rw [lastOf_cons, List.cons_append, List.cons_append, ← ih others apart']
      exact here

theorem split_opener {front back : List Char} (opens : front ++ back ∈ openers) :
    ∃ opener ∈ openers, ∃ n < 6, front = opener.take n ∧ back = opener.drop n := by
  have short : ∀ opener ∈ openers, opener.length < 6 := by decide
  have length := short _ opens
  rw [List.length_append] at length
  exact ⟨front ++ back, opens, front.length, by omega, List.take_left.symm, List.drop_left.symm⟩

theorem not_opensAcross_brace (ends : text.getLast? ≠ some '\x7b')
    (follows : ∀ d ∈ rest.head?, d = '@' ∨ d = '\x7b') : ¬ OpensAcross text rest := by
  have brace : ∀ opener ∈ openers, ∀ n < 6, opener.take n ≠ [] →
      (opener.drop n).head? = some '@' ∨ (opener.drop n).head? = some '\x7b' → opener.take n = ['\x7b'] := by decide
  rintro ⟨front, back, opens, some, more, within, begins⟩
  obtain ⟨opener, mem, n, bound, rfl, behind⟩ := split_opener opens
  obtain ⟨d, others, rfl⟩ := List.exists_cons_of_ne_nil more
  obtain ⟨tail, rfl⟩ := begins
  have head : d = '@' ∨ d = '\x7b' := follows d rfl
  have front : opener.take n = ['\x7b'] := brace opener mem n bound some (by simpa [← behind] using head)
  rw [front] at within
  obtain ⟨start, rfl⟩ := within
  exact ends List.getLast?_concat

def isInert (c : Char) : Bool := !(['@', '\x7b', '<'].contains c)

theorem all_isInert {p : Char → Bool} (others : ['@', '\x7b', '<'].any p = false) (all : text.all p = true) :
    text.all isInert = true := by
  rw [List.all_eq_true] at all ⊢
  rw [List.any_eq_false] at others
  intro c mem
  by_contra active
  rw [isInert, Bool.not_eq_true', Bool.not_eq_false, List.contains_iff_mem] at active
  exact others c active (all c mem)

theorem exists_active {front back : List Char} (opens : front ++ back ∈ openers) (some : front ≠ []) :
    ∃ c ∈ front, isInert c = false := by
  have heads : ∀ opener ∈ openers, opener.head?.all (!isInert ·) = true := by decide
  have head := heads _ opens
  obtain ⟨c, front, rfl⟩ := List.exists_cons_of_ne_nil some
  exact ⟨c, List.mem_cons_self .., by simpa using head⟩

theorem compileFrom_inert (inert : text.all isInert = true) :
    compileFrom previous loops (text ++ rest) = text ++ compileFrom (lastOf previous text) loops rest := by
  rw [List.all_eq_true] at inert
  have nonempty : ∀ opener ∈ openers, opener ≠ [] := by decide
  have isText : IsText text := by
    intro opener opens inside
    obtain ⟨c, mem, active⟩ := exists_active (by rwa [List.append_nil]) (nonempty opener opens)
    rw [inert c (inside.subset mem)] at active
    cases active
  have apart : ¬ OpensAcross text rest := by
    rintro ⟨front, back, opens, some, -, ends, -⟩
    obtain ⟨c, mem, active⟩ := exists_active opens some
    rw [inert c (ends.subset mem)] at active
    cases active
  exact compileFrom_text isText apart

end Texts

end Phrasebook.Template
