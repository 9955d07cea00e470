import Mathlib.Data.List.Nodup
import Phrasebook.FileKind
import Phrasebook.Proofs.Text.Search

namespace Phrasebook.FileKind

variable {table other : List (List Char × FileKind)} {name suffix : List Char} {kind : FileKind}

structure IsTable (table : List (List Char × FileKind)) : Prop where
  dotted : ∀ entry ∈ table, entry.1.head? = some '.'
  distinct : (table.map Prod.fst).Nodup

/-- The longest suffix of a table that a name ends in, and its kind. -/
structure IsLongest (table : List (List Char × FileKind)) (name suffix : List Char) (kind : FileKind) : Prop where
  entry : (suffix, kind) ∈ table
  ends : suffix <:+ name
  longest : ∀ other ∈ table, other.1 <:+ name → other.1.length ≤ suffix.length

theorem isLongest_cons_iff {c : Char} (shorter : ∀ entry ∈ table, entry.1 ≠ c :: name) :
    IsLongest table (c :: name) suffix kind ↔ IsLongest table name suffix kind := by
  have tail : ∀ entry ∈ table, entry.1 <:+ c :: name ↔ entry.1 <:+ name := by
    intro entry mem
    rw [List.suffix_cons_iff, or_iff_right (shorter entry mem)]
  constructor
  · rintro ⟨entry, ends, longest⟩
    exact ⟨entry, (tail _ entry).1 ends, fun other mem inside => longest other mem ((tail other mem).2 inside)⟩
  · rintro ⟨entry, ends, longest⟩
    exact ⟨entry, (tail _ entry).2 ends, fun other mem inside => longest other mem ((tail other mem).1 inside)⟩

theorem isLongest_self_iff (isTable : IsTable table) (entry : (name, kind) ∈ table) {answer : FileKind} :
    (∃ suffix, IsLongest table name suffix answer) ↔ kind = answer := by
  constructor
  · rintro ⟨suffix, here, ends, longest⟩
    have whole : suffix = name := ends.eq_of_length_le (longest _ entry List.suffix_rfl)
    subst whole
    exact congrArg Prod.snd (List.inj_on_of_nodup_map isTable.distinct entry here rfl)
  · rintro rfl
    exact ⟨name, entry, List.suffix_rfl, fun other _ inside => inside.length_le⟩

theorem ofTail?_eq_some_iff (isTable : IsTable table) :
    ofTail? table name = some kind ↔ ∃ suffix, IsLongest table name suffix kind := by
  induction name with
  | nil =>
      constructor
      · intro found
        cases found
      · rintro ⟨suffix, entry, ends, -⟩
        have dot := isTable.dotted _ entry
        rw [List.suffix_nil.1 ends] at dot
        cases dot
  | cons c name ih =>
      have passed (shorter : ∀ entry ∈ table, entry.1 ≠ c :: name) :
          ofTail? table name = some kind ↔ ∃ suffix, IsLongest table (c :: name) suffix kind := by
        simp only [ih, isLongest_cons_iff shorter]
      rw [ofTail?]
      split
      · cases found : table.find? (·.1 == c :: name) with
        | none =>
            apply passed
            intro entry mem
            simpa using List.find?_eq_none.1 found entry mem
        | some entry =>
            obtain ⟨whole, known⟩ := entry
            have same : whole = c :: name := by simpa using List.find?_some found
            have mem : (c :: name, known) ∈ table := same ▸ List.mem_of_find?_eq_some found
            rw [isLongest_self_iff isTable mem, Option.some_inj]
      · rename_i noDot
        apply passed
        rintro entry mem whole
        have dot := isTable.dotted entry mem
        rw [whole, List.head?_cons, Option.some_inj] at dot
        exact noDot dot

theorem isSome_ofTail? (isTable : IsTable table) {entry : List Char × FileKind} (mem : entry ∈ table)
    (ends : entry.1 <:+ name) : (ofTail? table name).isSome = true := by
  -- The longest suffix is found first, so there may be an answer before this entry is reached.
  induction name with
  | nil =>
      have dot := isTable.dotted entry mem
      rw [List.suffix_nil.1 ends] at dot
      cases dot
  | cons c name ih =>
      rw [ofTail?]
      rcases List.suffix_cons_iff.1 ends with whole | later
      · have dot := isTable.dotted entry mem
        rw [whole, List.head?_cons, Option.some_inj] at dot
        have found : (table.find? (·.1 == c :: name)).isSome = true :=
          List.find?_isSome.2 ⟨entry, mem, beq_iff_eq.2 whole⟩
        obtain ⟨other, found⟩ := Option.isSome_iff_exists.1 found
        rw [if_pos dot, found]
        rfl
      · split
        · split
          · rfl
          · exact ih later
        · exact ih later

theorem ofTail?_eq_none_iff (isTable : IsTable table) :
    ofTail? table name = none ↔ ∀ entry ∈ table, ¬ entry.1 <:+ name := by
  constructor
  · intro unknown entry mem ends
    have known := isSome_ofTail? isTable mem ends
    rw [unknown] at known
    cases known
  · intro none
    cases found : ofTail? table name with
    | none => rfl
    | some kind =>
        obtain ⟨suffix, longest⟩ := (ofTail?_eq_some_iff isTable).1 found
        exact absurd longest.ends (none _ longest.entry)

theorem IsTable.perm (isTable : IsTable table) (same : other.Perm table) : IsTable other :=
  ⟨fun entry mem => isTable.dotted entry (same.subset mem), (same.map Prod.fst).nodup_iff.2 isTable.distinct⟩

theorem ofTail?_perm (isTable : IsTable table) (same : other.Perm table) (name : List Char) :
    ofTail? other name = ofTail? table name := by
  apply Option.ext
  intro kind
  rw [ofTail?_eq_some_iff (isTable.perm same), ofTail?_eq_some_iff isTable]
  constructor
  · rintro ⟨suffix, entry, ends, longest⟩
    exact ⟨suffix, same.subset entry, ends, fun other mem => longest other (same.symm.subset mem)⟩
  · rintro ⟨suffix, entry, ends, longest⟩
    exact ⟨suffix, same.symm.subset entry, ends, fun other mem => longest other (same.subset mem)⟩

def dotTail? (text : List Char) : Option (List Char) := (find? ['.'] text).map text.drop

/-- A lookup of at most so many rounds, `none` if these are not enough. A round looks up the text from its next dot on,
and goes on behind this dot if the table does not have it. -/
def lookUp (table : List (List Char × FileKind)) : Nat → List Char → Option (Option FileKind)
  | 0, _ => none
  | rounds + 1, text =>
    match dotTail? text with
    | none => some none
    | some tail =>
      match table.find? (·.1 == tail) with
      | some (_, kind) => some (some kind)
      | none => lookUp table rounds (tail.drop 1)

theorem dotTail?_cons (c : Char) (text : List Char) :
    dotTail? (c :: text) = if c = '.' then some (c :: text) else dotTail? text := by
  split
  · rename_i dot
    subst dot
    rfl
  · rename_i other
    have later : ¬ ['.'] <+: c :: text := by
      rw [List.cons_prefix_cons]
      exact fun here => other here.1.symm
    rw [dotTail?, find?_cons_of_later later, Option.map_map]
    rfl

theorem lookUp_eq (table : List (List Char × FileKind)) (text : List Char) {rounds : Nat}
    (enough : text.count '.' < rounds) : lookUp table rounds text = some (ofTail? table text) := by
  induction text generalizing rounds with
  | nil =>
      obtain ⟨rounds, rfl⟩ := Nat.exists_eq_add_of_lt enough
      rfl
  | cons c text ih =>
      obtain ⟨more, rfl⟩ := Nat.exists_eq_add_of_lt (Nat.zero_lt_of_lt enough)
      by_cases dot : c = '.'
      · subst dot
        rw [List.count_cons_self] at enough
        rw [lookUp, dotTail?_cons, ofTail?, if_pos rfl, if_pos rfl]
        dsimp only
        cases table.find? (·.1 == '.' :: text) with
        | some entry => rfl
        | none => exact ih (by omega)
      · rw [List.count_cons_of_ne dot] at enough
        have later := ih enough
        rw [lookUp] at later
        rw [lookUp, dotTail?_cons, if_neg dot, ofTail?, if_neg dot, later]

theorem isTable_suffixes : IsTable suffixes := ⟨by decide, by decide⟩

section Names

variable {name : String}

theorem ofName?_eq_template_iff : ofName? name = some .template ↔ ".blade.php".toList <:+ name.toList := by
  rw [ofName?, ofTail?_eq_some_iff isTable_suffixes]
  constructor
  · rintro ⟨suffix, entry, ends, -⟩
    have whole : suffix = ".blade.php".toList := by simpa [suffixes] using entry
    exact whole ▸ ends
  · intro ends
    have longest : ∀ other ∈ suffixes, other.1.length ≤ ".blade.php".toList.length := by decide
    exact ⟨_, by simp [suffixes], ends, fun other mem _ => longest other mem⟩

theorem ofName?_eq_code_iff :
    ofName? name = some .code ↔ ".php".toList <:+ name.toList ∧ ¬ ".blade.php".toList <:+ name.toList := by
  rw [ofName?, ofTail?_eq_some_iff isTable_suffixes]
  constructor
  · rintro ⟨suffix, entry, ends, longest⟩
    have whole : suffix = ".php".toList := by simpa [suffixes] using entry
    subst whole
    refine ⟨ends, fun template => ?_⟩
    have length := longest (".blade.php".toList, .template) (by simp [suffixes]) template
    exact absurd length (by decide)
  · rintro ⟨ends, noTemplate⟩
    refine ⟨_, by simp [suffixes], ends, fun other mem inside => ?_⟩
    have entries : other = (".blade.php".toList, .template) ∨ other = (".php".toList, .code) := by
      simpa [suffixes] using mem
    rcases entries with rfl | rfl
    · exact absurd inside noTemplate
    · exact Nat.le_refl _

theorem ofName?_eq_none_iff :
    ofName? name = none ↔ ¬ ".blade.php".toList <:+ name.toList ∧ ¬ ".php".toList <:+ name.toList := by
  rw [ofName?, ofTail?_eq_none_iff isTable_suffixes]
  simp only [suffixes, List.forall_mem_cons, List.not_mem_nil, false_imp_iff, implies_true, and_true]

end Names

/-- A name that ends in `.blade.php` is one of a template, any other that ends in `.php` is one of code, and all others
are of no kind, whatever the order of the table is. A lookup dot by dot says the same, and ends. -/
theorem ofName?_suffix {table : List (List Char × FileKind)} (same : table.Perm suffixes) (name : String) :
    (ofName? name = some .template ↔ ".blade.php".toList <:+ name.toList) ∧
      (ofName? name = some .code ↔ ".php".toList <:+ name.toList ∧ ¬ ".blade.php".toList <:+ name.toList) ∧
      (ofName? name = none ↔ ¬ ".blade.php".toList <:+ name.toList ∧ ¬ ".php".toList <:+ name.toList) ∧
      ofTail? table name.toList = ofName? name ∧
      ∀ rounds, name.toList.count '.' < rounds → lookUp table rounds name.toList = some (ofName? name) := by
  have kind : ofTail? table name.toList = ofName? name := ofTail?_perm isTable_suffixes same name.toList
  refine ⟨ofName?_eq_template_iff, ofName?_eq_code_iff, ofName?_eq_none_iff, kind, fun rounds enough => ?_⟩
  rw [lookUp_eq table name.toList enough, kind]

theorem ofName?_suffix_reversed :
    suffixes.reverse.Perm suffixes ∧
      lookUp suffixes.reverse 5 "a..blade.php".toList = some (some .template) ∧
      lookUp suffixes.reverse 4 "a.blade.php.".toList = some none ∧
      lookUp suffixes.reverse 3 ".php.php".toList = some (some .code) := by
  have same : suffixes.reverse.Perm suffixes := List.reverse_perm suffixes
  refine ⟨same, ?_, ?_, ?_⟩
  · rw [(ofName?_suffix same "a..blade.php").2.2.2.2 5 (by decide)]
    rfl
  · rw [(ofName?_suffix same "a.blade.php.").2.2.2.2 4 (by decide)]
    rfl
  · rw [(ofName?_suffix same ".php.php").2.2.2.2 3 (by decide)]
    rfl

end Phrasebook.FileKind
