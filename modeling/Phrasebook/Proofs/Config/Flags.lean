import Mathlib.Data.List.TakeWhile
import Phrasebook.Flag
import Phrasebook.Proofs.Text.Numerals

namespace Phrasebook

structure IsTrimmed (text core : List Char) : Prop where
  around : ∃ before after, text = before ++ core ++ after ∧
    (∀ c ∈ before, isBlank c = true) ∧ ∀ c ∈ after, isBlank c = true
  first : ∀ c ∈ core.head?, isBlank c = false
  last : ∀ c ∈ core.getLast?, isBlank c = false

def IsWord (text word : List Char) : Prop := ∃ core, IsTrimmed text core ∧ word = core.map lowerAscii

section Words

variable {text core word : List Char}

theorem dropWhile_of_head? {α : Type} {p : α → Bool} {text : List α} (stays : ∀ c ∈ text.head?, p c = false) :
    text.dropWhile p = text := by
  cases text with
  | nil => rfl
  | cons c text => exact List.dropWhile_cons_of_neg (by simp [stays c rfl])

theorem head?_dropWhile {α : Type} (p : α → Bool) (text : List α) : ∀ c ∈ (text.dropWhile p).head?, p c = false := by
  intro c head
  have stays := List.head?_dropWhile_not p text
  rwa [Option.mem_def.1 head] at stays

theorem trimBlanks_of_isTrimmed (trimmed : IsTrimmed text core) : trimBlanks text = core := by
  obtain ⟨⟨before, after, rfl, blankBefore, blankAfter⟩, first, last⟩ := trimmed
  rw [trimBlanks, List.append_assoc, List.dropWhile_append_of_pos blankBefore]
  by_cases empty : core = []
  · rw [empty, List.nil_append, List.dropWhile_eq_nil_iff.2 blankAfter]
    rfl
  have front : (core ++ after).dropWhile isBlank = core ++ after := by
    apply dropWhile_of_head?
    rwa [List.head?_append_of_ne_nil _ empty]
  have back : core.reverse.dropWhile isBlank = core.reverse := by
    apply dropWhile_of_head?
    rwa [List.head?_reverse]
  rw [front, dropTrailing, List.reverse_append, List.dropWhile_append_of_pos, back, List.reverse_reverse]
  exact fun c mem => blankAfter c (List.mem_reverse.1 mem)

theorem isTrimmed_trimBlanks (text : List Char) : IsTrimmed text (trimBlanks text) := by
  let rest := text.dropWhile isBlank
  have split : trimBlanks text ++ (rest.reverse.takeWhile isBlank).reverse = rest := by
    rw [trimBlanks, dropTrailing, ← List.reverse_append, List.takeWhile_append_dropWhile, List.reverse_reverse]
  refine ⟨⟨text.takeWhile isBlank, (rest.reverse.takeWhile isBlank).reverse, ?_, ?_, ?_⟩, ?_, ?_⟩
  · rw [List.append_assoc, split, List.takeWhile_append_dropWhile]
  · exact fun c => List.mem_takeWhile_imp
  · exact fun c mem => List.mem_takeWhile_imp (List.mem_reverse.1 mem)
  · intro c head
    have whole : rest.head? = some c := by rw [← split, List.head?_append, Option.mem_def.1 head, Option.some_or]
    exact head?_dropWhile isBlank text c whole
  · rw [trimBlanks, dropTrailing, List.getLast?_reverse]
    exact head?_dropWhile isBlank rest.reverse

theorem isWord_iff : IsWord text word ↔ word = (trimBlanks text).map lowerAscii := by
  constructor
  · rintro ⟨core, trimmed, rfl⟩
    rw [trimBlanks_of_isTrimmed trimmed]
  · rintro rfl
    exact ⟨_, isTrimmed_trimBlanks text, rfl⟩

end Words

namespace Flag

variable {word digits : List Char} {n : Nat} {z : Int}

theorem digits?_eq_some_iff : digits? digits = some n ↔ IsNumeral digits n := by
  rw [digits?]
  constructor
  · intro read
    split at read
    · cases read
    · rename_i numeral
      rw [Bool.or_eq_true, List.isEmpty_iff, Bool.not_eq_true', not_or, Bool.not_eq_false, List.all_eq_true] at numeral
      obtain ⟨nonempty, all⟩ := numeral
      exact ⟨nonempty, all, by rw [← numeral_ten all, Option.some_inj.1 read]⟩
  · rintro ⟨nonempty, all, rfl⟩
    rw [List.isEmpty_eq_false_iff.2 nonempty, List.all_eq_true.2 all, ← numeral_ten all]
    rfl

theorem integer?_unsigned : integer? word = (digits? (unsigned word).2).bind fun n =>
    let z := counted (unsigned word).1 n
    if -2 ^ 63 ≤ z ∧ z < 2 ^ 63 then some z else none := by
  rw [integer?.eq_def]
  split
  · simp only [le_signedLimit_iff]
    rfl
  · simp only [lt_signedLimit_iff]
    rfl
  · rename_i noMinus noPlus
    have plain : unsigned word = (false, word) := by
      rw [unsigned.eq_def]
      split
      · exact absurd rfl (noMinus _)
      · exact absurd rfl (noPlus _)
      · rfl
    simp only [lt_signedLimit_iff, plain]
    rfl

theorem integer?_eq_some_iff : integer? word = some z ↔ IsDecimal word z ∧ -2 ^ 63 ≤ z ∧ z < 2 ^ 63 := by
  rw [isDecimal_iff_unsigned, integer?_unsigned, Option.bind_eq_some_iff]
  simp only [digits?_eq_some_iff, Option.ite_none_right_eq_some, Option.some_inj]
  constructor
  · rintro ⟨n, numeral, held, rfl⟩
    exact ⟨⟨n, numeral, rfl⟩, held⟩
  · rintro ⟨⟨n, numeral, rfl⟩, held⟩
    exact ⟨n, numeral, held, rfl⟩

inductive Form
  | affirmation
  | denial
  | integer (z : Int)
  deriving DecidableEq, Repr

def Form.value : Form → Bool
  | .affirmation => true
  | .denial => false
  | .integer z => z != 0

def affirmations : List (List Char) := ["true".toList, "yes".toList, "on".toList]

def denials : List (List Char) := ["false".toList, "no".toList, "off".toList]

/-- The form of a word. -/
inductive HasForm (word : List Char) : Form → Prop
  | affirmation (known : word ∈ affirmations) : HasForm word .affirmation
  | denial (known : word ∈ denials) : HasForm word .denial
  | integer {z : Int} (decimal : IsDecimal word z) (least : -2 ^ 63 ≤ z) (greatest : z < 2 ^ 63) :
      HasForm word (.integer z)

variable {form : Form}

theorem hasForm_integer_iff : HasForm word (.integer z) ↔ IsDecimal word z ∧ -2 ^ 63 ≤ z ∧ z < 2 ^ 63 :=
  ⟨fun | .integer decimal least greatest => ⟨decimal, least, greatest⟩,
    fun ⟨decimal, least, greatest⟩ => .integer decimal least greatest⟩

theorem not_denial_of_affirmation : ∀ word ∈ affirmations, word ∉ denials := by decide

theorem not_isDecimal_of_known (known : word ∈ affirmations ++ denials) : ¬ IsDecimal word z := by
  have letters : ∀ word ∈ affirmations ++ denials, (unsigned word).2.all Char.isDigit = false := by decide
  intro decimal
  obtain ⟨n, numeral, -⟩ := isDecimal_iff_unsigned.1 decimal
  have digits := List.all_eq_true.2 numeral.digit
  rw [letters word known] at digits
  cases digits

def form? (word : List Char) : Option Form :=
  if affirmations.contains word then some .affirmation
  else if denials.contains word then some .denial
  else (integer? word).map .integer

theorem form?_eq_some_iff : form? word = some form ↔ HasForm word form := by
  simp only [form?, List.contains_iff_mem]
  constructor
  · intro found
    split at found
    · cases found
      exact .affirmation ‹_›
    split at found
    · cases found
      exact .denial ‹_›
    · obtain ⟨z, read, rfl⟩ := Option.map_eq_some_iff.1 found
      exact hasForm_integer_iff.2 (integer?_eq_some_iff.1 read)
  · intro hasForm
    cases hasForm with
    | affirmation known => rw [if_pos known]
    | denial known => rw [if_neg fun affirmed => not_denial_of_affirmation word affirmed known, if_pos known]
    | integer decimal least greatest =>
        rw [if_neg fun known => not_isDecimal_of_known (List.mem_append_left _ known) decimal,
          if_neg fun known => not_isDecimal_of_known (List.mem_append_right _ known) decimal,
          integer?_eq_some_iff.2 ⟨decimal, least, greatest⟩]
        rfl

theorem form?_eq_none_iff : form? word = none ↔ ∀ form, ¬ HasForm word form := by
  simp only [← form?_eq_some_iff]
  exact Option.eq_none_iff_forall_ne_some

instance : Decidable (HasForm word form) := decidable_of_iff _ form?_eq_some_iff

theorem parse?_eq {text : String} (isWord : IsWord text.toList word) : parse? text = (form? word).map Form.value := by
  rw [isWord_iff.1 isWord]
  simp only [parse?, form?, List.contains_iff_mem, affirmations, denials]
  split
  · rfl
  split
  · rfl
  · rw [Option.map_map]
    rfl

/-- The word of a text has one form or none. A flag has the value of its form, and one without a form is refused with
its text as it stands. An integer has this form however it is spelled, with any number of zeros, if 64 bits hold it,
which is when its digits can be taken in one by one; and all its spellings say the same. -/
theorem parse_forms :
    (∀ text : String, ∃ word, (∀ other, IsWord text.toList other ↔ other = word) ∧
      (∀ form, HasForm word form → parse text = .ok form.value ∧ ∀ other, HasForm word other → other = form) ∧
      ((∀ form, ¬ HasForm word form) → parse text = .error (.invalidFlag text)) ∧
      (∀ z, HasForm word (.integer z) ↔
        (-2 ^ 63 ≤ z ∧ z < 2 ^ 63) ∧ ∃ sign ∈ signs z, ∃ zeros, word = spelling sign zeros z) ∧
      ∀ z, HasForm word (.integer z) ↔ (readInteger? word).map Int64.toInt = some z) ∧
    ∀ z, -2 ^ 63 ≤ z → z < 2 ^ 63 → ∀ sign ∈ signs z, ∀ zeros text,
      IsWord text.toList (spelling sign zeros z) → parse text = .ok (z != 0) := by
  have formed {text : String} {word : List Char} {form : Form} (isWord : IsWord text.toList word)
      (hasForm : HasForm word form) : parse text = .ok form.value := by
    rw [parse, parse?_eq isWord, form?_eq_some_iff.2 hasForm]
    rfl
  refine ⟨fun text => ⟨_, fun other => isWord_iff, ?_, ?_, ?_, ?_⟩, ?_⟩
  · intro form hasForm
    refine ⟨formed (isWord_iff.2 rfl) hasForm, fun other again => ?_⟩
    exact Option.some_inj.1 ((form?_eq_some_iff.2 again).symm.trans (form?_eq_some_iff.2 hasForm))
  · intro noForm
    rw [parse, parse?_eq (isWord_iff.2 rfl), form?_eq_none_iff.2 noForm]
    rfl
  · intro z
    rw [hasForm_integer_iff, isDecimal_iff_spelling, and_comm]
  · intro z
    rw [hasForm_integer_iff, readInteger?_eq_some_iff]
  · intro z least greatest sign suits zeros text isWord
    exact formed isWord (.integer (isDecimal_iff_spelling.2 ⟨sign, suits, zeros, rfl⟩) least greatest)

theorem parse_forms_at_limits :
    HasForm "yes".toList .affirmation ∧ parse "\u3000YES" = .ok true ∧
      ['-'] ∈ signs (-2 ^ 63) ∧ IsWord "\t-009223372036854775808 ".toList (spelling ['-'] 2 (-2 ^ 63)) ∧
      parse "\t-009223372036854775808 " = .ok true ∧
      (∀ form, ¬ HasForm "+9223372036854775808".toList form) ∧
      parse " +9223372036854775808" = .error (.invalidFlag " +9223372036854775808") := by
  have affirmed : HasForm "yes".toList .affirmation := by decide
  have suits : ['-'] ∈ signs (-2 ^ 63) := by decide
  have least : IsWord "\t-009223372036854775808 ".toList (spelling ['-'] 2 (-2 ^ 63)) :=
    isWord_iff.2 (by decide +kernel)
  have noForm : ∀ form, ¬ HasForm "+9223372036854775808".toList form := form?_eq_none_iff.1 (by decide +kernel)
  obtain ⟨word, only, byForm, -⟩ := parse_forms.1 "\u3000YES"
  obtain rfl := (only "yes".toList).1 (isWord_iff.2 (by decide +kernel))
  obtain ⟨beyond, only, -, refused, -⟩ := parse_forms.1 " +9223372036854775808"
  obtain rfl := (only "+9223372036854775808".toList).1 (isWord_iff.2 (by decide +kernel))
  exact ⟨affirmed, (byForm _ affirmed).1, suits, least,
    parse_forms.2 (-2 ^ 63) (by decide) (by decide) ['-'] suits 2 _ least, noForm, refused noForm⟩

end Flag

end Phrasebook
