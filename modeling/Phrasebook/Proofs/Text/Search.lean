import Mathlib.Data.List.Infix
import Phrasebook.Text.Search

namespace Phrasebook

section Leads

variable {lead text : List Char}

theorem begins_eq_false_iff : begins lead text = false ↔ ¬ lead <+: text := by
  rw [begins, Bool.eq_false_iff, ne_eq, List.isPrefixOf_iff_prefix]

theorem begins_append (rest : List Char) (fits : lead.length ≤ text.length) :
    begins lead (text ++ rest) = begins lead text := by
  rw [begins, begins, Bool.eq_iff_iff, List.isPrefixOf_iff_prefix, List.isPrefixOf_iff_prefix]
  exact ⟨fun longer => List.prefix_of_prefix_length_le longer (List.prefix_append text rest) fits,
    fun here => here.trans (List.prefix_append text rest)⟩

theorem begins_cons_of_ne {c d : Char} (other : c ≠ d) : begins (c :: lead) (d :: text) = false := by
  simp [begins, List.isPrefixOf, other]

theorem begins_of_shorter {more : List Char} (shorter : begins lead text = false) :
    begins (lead ++ more) text = false := by
  rw [begins_eq_false_iff] at shorter ⊢
  exact fun longer => shorter ((List.prefix_append lead more).trans longer)

end Leads

section Needles

variable {needle text : List Char}

theorem find?_cons_of_later {c : Char} (elsewhere : ¬ needle <+: c :: text) :
    find? needle (c :: text) = (find? needle text).map (· + 1) := by
  rw [← List.isPrefixOf_iff_prefix] at elsewhere
  rw [find?, if_neg elsewhere]

theorem find?_append_self (rest : List Char) : find? needle (needle ++ rest) = some 0 := by
  cases needle with
  | nil => cases rest <;> rfl
  | cons c needle =>
      rw [List.cons_append, find?, if_pos]
      rw [List.isPrefixOf_iff_prefix]
      exact List.prefix_append (c :: needle) rest

theorem find?_append {n : Nat} (rest : List Char) (found : find? needle text = some n) :
    find? needle (text ++ rest) = some n := by
  induction text generalizing n with
  | nil =>
      unfold find? at found
      split at found
      · rename_i empty
        cases found
        rw [List.isEmpty_iff] at empty
        subst empty
        exact find?_append_self rest
      · cases found
  | cons c text ih =>
      unfold find? at found
      split at found
      · rename_i here
        cases found
        rw [List.isPrefixOf_iff_prefix] at here
        rw [List.cons_append, find?, if_pos]
        exact List.isPrefixOf_iff_prefix.2 (here.trans (List.prefix_append (c :: text) rest))
      · rename_i elsewhere
        obtain ⟨m, later, rfl⟩ := Option.map_eq_some_iff.1 found
        have room : needle.length ≤ (c :: text).length := by
          obtain ⟨others, split⟩ := begins_iff.1 (begins_drop_of_find? later)
          have length := congrArg List.length split
          simp only [List.length_drop, List.length_append] at length
          simp only [List.length_cons]
          omega
        have other : begins needle (c :: (text ++ rest)) = false := by
          rw [← List.cons_append, begins_append rest room]
          exact Bool.eq_false_iff.2 elsewhere
        rw [List.cons_append, find?_cons_of_later (begins_eq_false_iff.1 other), ih later]
        rfl

theorem find?_eq_none_iff : find? needle text = none ↔ ¬ needle <:+: text := by
  induction text with
  | nil => simp [find?]
  | cons c text ih =>
      rw [List.infix_cons_iff, not_or, ← ih]
      by_cases here : needle <+: c :: text
      · simp [find?, here]
      · rw [find?_cons_of_later here, Option.map_eq_none_iff]
        exact ⟨fun absent => ⟨here, absent⟩, And.right⟩

theorem exists_first (nonempty : needle ≠ []) (inside : needle <:+: text) :
    ∃ front rest, text = front ++ (needle ++ rest) ∧ ¬ needle <:+: front := by
  induction text with
  | nil => exact absurd (List.infix_nil.1 inside) nonempty
  | cons c text ih =>
      by_cases here : needle <+: c :: text
      · obtain ⟨rest, split⟩ := here
        exact ⟨[], rest, split.symm, fun inside => nonempty (List.infix_nil.1 inside)⟩
      · obtain ⟨front, rest, rfl, first⟩ := ih ((List.infix_cons_iff.1 inside).resolve_left here)
        refine ⟨c :: front, rest, rfl, ?_⟩
        rw [List.infix_cons_iff, not_or]
        exact ⟨fun earlier => here (earlier.trans (List.prefix_append (c :: front) _)), first⟩

theorem find?_of_first (rest : List Char) (first : ¬ needle <:+: text ++ needle.dropLast) :
    find? needle (text ++ (needle ++ rest)) = some text.length := by
  induction text with
  | nil => exact find?_append_self rest
  | cons c text ih =>
      have elsewhere : ¬ needle <+: c :: (text ++ (needle ++ rest)) := by
        intro here
        have earlier : c :: text ++ needle.dropLast <+: c :: text ++ (needle ++ rest) :=
          (List.prefix_append_right_inj (c :: text)).2
            ((List.dropLast_prefix needle).trans (List.prefix_append needle rest))
        have fits : needle.length ≤ (c :: text ++ needle.dropLast).length := by
          simp only [List.length_append, List.length_cons, List.length_dropLast]
          omega
        exact first (List.prefix_of_prefix_length_le here earlier fits).isInfix
      have others : ¬ needle <:+: text ++ needle.dropLast := fun inside => first (List.infix_cons inside)
      rw [List.cons_append, find?_cons_of_later elsewhere, ih others]
      rfl

theorem not_infix_dropLast (apart : ¬ needle <:+: text) : ¬ needle <:+: needle.dropLast := by
  have nonempty : 0 < needle.length := by
    rw [List.length_pos_iff]
    rintro rfl
    exact apart List.nil_infix
  intro inside
  have length := inside.length_le
  rw [List.length_dropLast] at length
  omega

/-- No proper end of the needle is a beginning of it. -/
def Unbordered (needle : List Char) : Prop := ∀ n < needle.length, needle.drop n <+: needle → n = 0

instance : Decidable (Unbordered needle) :=
  inferInstanceAs (Decidable (∀ n < needle.length, needle.drop n <+: needle → n = 0))

theorem find?_of_unbordered (rest : List Char) (unbordered : Unbordered needle) (apart : ¬ needle <:+: text) :
    find? needle (text ++ (needle ++ rest)) = some text.length := by
  have short := not_infix_dropLast apart
  refine find?_of_first rest ?_
  rw [List.infix_append_iff]
  rintro (inside | inside | ⟨front, back, split, before, behind⟩)
  · exact apart inside
  · exact short inside
  · have border : needle.drop front.length = back := by
      have dropped : (front ++ back).drop front.length = back := List.drop_left
      rwa [← split] at dropped
    have begins : back <+: needle := behind.trans (List.dropLast_prefix needle)
    by_cases through : front.length < needle.length
    · have none := unbordered front.length through (border ▸ begins)
      rw [none, List.drop_zero] at border
      exact short (border ▸ behind.isInfix)
    · rw [← border, List.drop_eq_nil_of_le (Nat.le_of_not_lt through), List.append_nil] at split
      exact apart (split ▸ before.isInfix)

theorem find?_of_not_infix (rest : List Char) (noBlank : ' ' ∉ needle) (apart : ¬ needle <:+: text) :
    find? needle (text ++ ' ' :: (needle ++ rest)) = some (text.length + 1) := by
  -- A part of the needle that begins at the blank is empty.
  have atBlank {part more : List Char} (within : part <:+ needle) (here : part <+: ' ' :: more) : part = [] := by
    cases part with
    | nil => rfl
    | cons c part =>
        rw [List.cons_prefix_cons] at here
        exact absurd (within.subset (here.1 ▸ List.mem_cons_self ..)) noBlank
  have first : ¬ needle <:+: text ++ [' '] ++ needle.dropLast := by
    rw [List.append_assoc, List.singleton_append, List.infix_append_iff, List.infix_cons_iff]
    rintro (inside | (here | inside) | ⟨front, back, split, before, here⟩)
    · exact apart inside
    · exact apart (atBlank List.suffix_rfl here ▸ List.nil_infix)
    · exact not_infix_dropLast apart inside
    · have none := atBlank ⟨front, split.symm⟩ here
      rw [none, List.append_nil] at split
      exact apart (split ▸ before.isInfix)
  simpa using find?_of_first rest first

end Needles

end Phrasebook
