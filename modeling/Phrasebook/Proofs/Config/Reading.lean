import Mathlib.Data.List.Forall2
import Phrasebook.Config.Settings

/-!
# What the values of a configuration file mean

What a value means is a relation, one for each type of setting, and `Describes` puts them together for the entries
of a file. `Misread` says what is amiss where these describe nothing.
-/

namespace Phrasebook

namespace Settings

open Toml

/-! ## What a value means -/

section Values

variable {α : Type}

inductive Text : Value → String → Prop
  | string (text : String) : Text (.string text) text
  | datetime (text : String) : Text (.datetime text) text

inductive Boolean : Value → Bool → Prop
  | boolean (value : Bool) : Boolean (.boolean value) value

inductive Index : Value → Nat → Prop
  | integer (index : Nat) : Index (.integer index) index

inductive Kind : Value → SourceKind → Prop
  | string {text : String} {kind : SourceKind} (known : SourceKind.parse? text = some kind) : Kind (.string text) kind

inductive Items (means : Value → α → Prop) : Value → List α → Prop
  | array (growing : Bool) {values : List Value} {items : List α} (each : List.Forall₂ means values items) :
    Items means (.array growing values) items

inductive Given (standard : α) (means : Value → α → Prop) : Option Value → α → Prop
  | absent : Given standard means none standard
  | present {value : Value} {item : α} (meant : means value item) : Given standard means (some value) item

inductive Needed (means : Value → α → Prop) : Option Value → α → Prop
  | present {value : Value} {item : α} (meant : means value item) : Needed means (some value) item

/-- The fields of a table are found by their names, those of an array by their places. -/
inductive Fields (names : List String) : Value → (String → Option Value) → Prop
  | table (origin : Toml.Origin) (entries : Entries) : Fields names (.table origin entries) (entries.lookup ·)
  | array (growing : Bool) {values : List Value} (fits : values.length ≤ names.length) :
    Fields names (.array growing values) ((names.zip values).lookup ·)

end Values

def tableFields : List String := ["source_grouped", "source_text", "translations"]

def functionFields : List String := ["name", "argument", "kind"]

def Tables (value : Value) (tables : TableNames) : Prop :=
  ∃ field, Fields tableFields value field ∧
    Given TableNames.standard.grouped Text (field "source_grouped") tables.grouped ∧
    Given TableNames.standard.text Text (field "source_text") tables.text ∧
    Given TableNames.standard.messages Text (field "translations") tables.messages

def Function (value : Value) (function : TranslationFunction) : Prop :=
  ∃ field, Fields functionFields value field ∧ Needed Text (field "name") function.name ∧
    Given 0 Index (field "argument") function.argument ∧ Needed Kind (field "kind") function.kind

/-- The settings that the entries of a file describe. -/
structure Describes (entries : Entries) (settings : Settings) : Prop where
  sourceLocale : Given standard.sourceLocale Text (entries.lookup "source_locale") settings.sourceLocale
  parseRoots : Given standard.parseRoots (Items Text) (entries.lookup "parse_roots") settings.parseRoots
  deleteMissing : Given standard.deleteMissing Boolean (entries.lookup "delete_missing") settings.deleteMissing
  markMissing : Given standard.markMissing Boolean (entries.lookup "mark_missing") settings.markMissing
  database : Given standard.database Text (entries.lookup "database") settings.database
  tables : Given standard.tables Tables (entries.lookup "tables") settings.tables
  functions : Given standard.functions (Items Function) (entries.lookup "functions") settings.functions

/-! ## Reading what is meant -/

section Reading

variable {α β ε : Type}

theorem bind_eq_ok {x : Except ε α} {f : α → Except ε β} {b : β} :
    x >>= f = .ok b ↔ ∃ a, x = .ok a ∧ f a = .ok b := by
  cases x <;> simp [bind, Except.bind]

theorem pure_eq_ok {a b : α} : (pure a : Except ε α) = .ok b ↔ a = b := by
  simp [pure, Except.pure]

def OnlyMalformed (read : Except SettingError α) : Prop := ∀ error, read = .error error → error = .malformed

theorem onlyMalformed_pure (a : α) : OnlyMalformed (pure a) := nofun

theorem onlyMalformed_malformed : OnlyMalformed (.error .malformed : Except SettingError α) := by
  rintro _ ⟨⟩
  rfl

theorem OnlyMalformed.bind {x : Except SettingError α} {f : α → Except SettingError β} (first : OnlyMalformed x)
    (later : ∀ a, OnlyMalformed (f a)) : OnlyMalformed (x >>= f) := by
  cases x with
  | error error =>
      rintro _ ⟨⟩
      exact first error rfl
  | ok a => exact later a

structure Reads (read : β → Except SettingError α) (means : β → α → Prop) : Prop where
  ok_iff {b : β} {a : α} : read b = .ok a ↔ means b a
  onlyMalformed (b : β) : OnlyMalformed (read b)

theorem reads_readString : Reads readString Text where
  ok_iff {value text} := by
    constructor
    · cases value <;> rintro ⟨⟩ <;> constructor
    · rintro (_ | _) <;> rfl
  onlyMalformed value := by
    cases value with
    | string => exact onlyMalformed_pure _
    | datetime => exact onlyMalformed_pure _
    | _ => exact onlyMalformed_malformed

theorem reads_readBool : Reads readBool Boolean where
  ok_iff {value flag} := by
    constructor
    · cases value <;> rintro ⟨⟩
      exact .boolean _
    · rintro ⟨⟩
      rfl
  onlyMalformed value := by
    cases value with
    | boolean => exact onlyMalformed_pure _
    | _ => exact onlyMalformed_malformed

theorem reads_readIndex : Reads readIndex Index where
  ok_iff {value index} := by
    constructor
    · cases value with
      | integer n =>
          rw [readIndex]
          split
          · rename_i positive
            rintro ⟨⟩
            obtain ⟨k, rfl⟩ := Int.eq_ofNat_of_zero_le positive
            exact .integer k
          · rintro ⟨⟩
      | _ => rintro ⟨⟩
    · rintro ⟨⟩
      simp [readIndex]
  onlyMalformed value := by
    cases value with
    | integer n =>
        rw [readIndex]
        split
        · exact onlyMalformed_pure _
        · exact onlyMalformed_malformed
    | _ => exact onlyMalformed_malformed

theorem reads_readKind : Reads readKind Kind where
  ok_iff {value kind} := by
    constructor
    · cases value with
      | string text =>
          rw [readKind]
          split
          · rintro ⟨⟩
            exact .string ‹_›
          · rintro ⟨⟩
      | _ => rintro ⟨⟩
    · rintro ⟨known⟩
      simp [readKind, known]
  onlyMalformed value := by
    cases value with
    | string text =>
        rw [readKind]
        split
        · exact onlyMalformed_pure _
        · exact onlyMalformed_malformed
    | _ => exact onlyMalformed_malformed

variable {read : Reading α} {means : Value → α → Prop}

theorem Reads.mapM (reads : Reads read means) (values : List Value) {items : List α} :
    values.mapM read = .ok items ↔ List.Forall₂ means values items := by
  induction values generalizing items with
  | nil => rw [List.mapM_nil, pure_eq_ok, List.forall₂_nil_left_iff, eq_comm]
  | cons value values ih =>
      simp only [List.mapM_cons, bind_eq_ok, pure_eq_ok, List.forall₂_cons_left_iff, reads.ok_iff, ih]
      grind

theorem Reads.onlyMalformed_mapM (reads : Reads read means) (values : List Value) :
    OnlyMalformed (values.mapM read) := by
  induction values with
  | nil => exact onlyMalformed_pure _
  | cons value values ih =>
      rw [List.mapM_cons]
      exact (reads.onlyMalformed value).bind fun _ => ih.bind fun _ => onlyMalformed_pure _

theorem Reads.list (reads : Reads read means) : Reads (readList read) (Items means) where
  ok_iff {value items} := by
    constructor
    · cases value with
      | array growing values => exact fun h => .array growing ((reads.mapM values).1 h)
      | _ => rintro ⟨⟩
    · rintro ⟨growing, each⟩
      exact (reads.mapM _).2 each
  onlyMalformed value := by
    cases value with
    | array growing values => exact reads.onlyMalformed_mapM values
    | _ => exact onlyMalformed_malformed

theorem Reads.given (reads : Reads read means) (standard : α) :
    Reads (readOr standard read) (Given standard means) where
  ok_iff {field? item} := by
    constructor
    · cases field? with
      | none => rintro ⟨⟩; exact .absent
      | some value => exact fun h => .present (reads.ok_iff.1 h)
    · rintro (_ | meant)
      · rfl
      · exact reads.ok_iff.2 meant
  onlyMalformed field? := by
    cases field? with
    | none => exact onlyMalformed_pure _
    | some value => exact reads.onlyMalformed value

theorem Reads.needed (reads : Reads read means) : Reads (readNeeded read) (Needed means) where
  ok_iff {field? item} := by
    constructor
    · cases field? with
      | none => rintro ⟨⟩
      | some value => exact fun h => .present (reads.ok_iff.1 h)
    · rintro ⟨meant⟩
      exact reads.ok_iff.2 meant
  onlyMalformed field? := by
    cases field? with
    | none => exact onlyMalformed_malformed
    | some value => exact reads.onlyMalformed value

theorem reads_fieldsOf (names : List String) : Reads (fieldsOf names) (Fields names) where
  ok_iff {value field} := by
    constructor
    · cases value with
      | table origin entries => rintro ⟨⟩; exact .table origin entries
      | array growing values =>
          rw [fieldsOf]
          split
          · rintro ⟨⟩
            exact .array growing ‹_›
          · rintro ⟨⟩
      | _ => rintro ⟨⟩
    · rintro (_ | ⟨_, fits⟩)
      · rfl
      · exact if_pos fits
  onlyMalformed value := by
    cases value with
    | table => exact onlyMalformed_pure _
    | array growing values =>
        rw [fieldsOf]
        split
        · exact onlyMalformed_pure _
        · exact onlyMalformed_malformed
    | _ => exact onlyMalformed_malformed

end Reading

theorem reads_readTables : Reads readTables Tables where
  ok_iff {value tables} := by
    obtain ⟨grouped, text, messages⟩ := tables
    simp only [readTables, bind_eq_ok, pure_eq_ok, (reads_fieldsOf _).ok_iff, (reads_readString.given _).ok_iff,
      TableNames.mk.injEq, Tables, tableFields]
    grind
  onlyMalformed value :=
    ((reads_fieldsOf _).onlyMalformed value).bind fun _ =>
      ((reads_readString.given _).onlyMalformed _).bind fun _ =>
      ((reads_readString.given _).onlyMalformed _).bind fun _ =>
      ((reads_readString.given _).onlyMalformed _).bind fun _ => onlyMalformed_pure _

theorem reads_readFunction : Reads readFunction Function where
  ok_iff {value function} := by
    obtain ⟨name, argument, kind⟩ := function
    simp only [readFunction, bind_eq_ok, pure_eq_ok, (reads_fieldsOf _).ok_iff, reads_readString.needed.ok_iff,
      (reads_readIndex.given _).ok_iff, reads_readKind.needed.ok_iff, TranslationFunction.mk.injEq, Function,
      functionFields]
    grind
  onlyMalformed value :=
    ((reads_fieldsOf _).onlyMalformed value).bind fun _ =>
      (reads_readString.needed.onlyMalformed _).bind fun _ =>
      ((reads_readIndex.given _).onlyMalformed _).bind fun _ =>
      (reads_readKind.needed.onlyMalformed _).bind fun _ => onlyMalformed_pure _

theorem reads_ofEntries : Reads ofEntries Describes where
  ok_iff {entries settings} := by
    obtain ⟨locale, roots, delete, mark, database, tables, functions⟩ := settings
    simp only [ofEntries, bind_eq_ok, pure_eq_ok, (reads_readString.given _).ok_iff, (reads_readBool.given _).ok_iff,
      (reads_readString.list.given _).ok_iff, (reads_readTables.given _).ok_iff,
      (reads_readFunction.list.given _).ok_iff, Settings.mk.injEq]
    constructor
    · rintro ⟨_, a, _, b, _, c, _, d, _, e, _, f, _, g, rfl, rfl, rfl, rfl, rfl, rfl, rfl⟩
      exact ⟨a, b, c, d, e, f, g⟩
    · rintro ⟨a, b, c, d, e, f, g⟩
      exact ⟨_, a, _, b, _, c, _, d, _, e, _, f, _, g, rfl, rfl, rfl, rfl, rfl, rfl, rfl⟩
  onlyMalformed entries :=
    ((reads_readString.given _).onlyMalformed _).bind fun _ =>
      ((reads_readString.list.given _).onlyMalformed _).bind fun _ =>
      ((reads_readBool.given _).onlyMalformed _).bind fun _ =>
      ((reads_readBool.given _).onlyMalformed _).bind fun _ =>
      ((reads_readString.given _).onlyMalformed _).bind fun _ =>
      ((reads_readTables.given _).onlyMalformed _).bind fun _ =>
      ((reads_readFunction.list.given _).onlyMalformed _).bind fun _ => onlyMalformed_pure _

/-! ## What is amiss -/

def Wrong {α β : Type} (means : β → α → Prop) (value : β) : Prop := ∀ item, ¬ means value item

/-- A field that is given and means nothing. -/
def Misfit {α : Type} (means : Value → α → Prop) (field? : Option Value) : Prop :=
  ∃ value, field? = some value ∧ Wrong means value

inductive MisreadList (amiss : Value → Prop) : Value → Prop
  | shape {value : Value} (other : ∀ growing values, value ≠ .array growing values) : MisreadList amiss value
  | element {growing : Bool} {values : List Value} {value : Value} (mem : value ∈ values) (bad : amiss value) :
    MisreadList amiss (.array growing values)

inductive MisreadTables (value : Value) : Prop
  | shape (bad : Wrong (Fields tableFields) value)
  | field {field : String → Option Value} {name : String} (found : Fields tableFields value field)
    (known : name ∈ tableFields) (bad : Misfit Text (field name))

inductive MisreadFunction (value : Value) : Prop
  | shape (bad : Wrong (Fields functionFields) value)
  | lacks {field : String → Option Value} {name : String} (found : Fields functionFields value field)
    (needed : name = "name" ∨ name = "kind") (missing : field name = none)
  | name {field : String → Option Value} (found : Fields functionFields value field)
    (bad : Misfit Text (field "name"))
  | argument {field : String → Option Value} (found : Fields functionFields value field)
    (bad : Misfit Index (field "argument"))
  | kind {field : String → Option Value} (found : Fields functionFields value field)
    (bad : Misfit Kind (field "kind"))

inductive Misread (entries : Entries) : Prop
  | text {name : String} (known : name = "source_locale" ∨ name = "database")
    (bad : Misfit Text (entries.lookup name))
  | flag {name : String} (known : name = "delete_missing" ∨ name = "mark_missing")
    (bad : Misfit Boolean (entries.lookup name))
  | parseRoots {value : Value} (given : entries.lookup "parse_roots" = some value)
    (bad : MisreadList (Wrong Text) value)
  | tables {value : Value} (given : entries.lookup "tables" = some value) (bad : MisreadTables value)
  | functions {value : Value} (given : entries.lookup "functions" = some value)
    (bad : MisreadList MisreadFunction value)

section Wrong

variable {α : Type} {means : Value → α → Prop} {field? : Option Value} {value : Value}

theorem wrong_given_iff (standard : α) : Wrong (Given standard means) field? ↔ Misfit means field? := by
  constructor
  · intro wrong
    cases field? with
    | none => exact absurd .absent (wrong standard)
    | some value => exact ⟨value, rfl, fun item meant => wrong item (.present meant)⟩
  · rintro ⟨value, rfl, wrong⟩ item ⟨meant⟩
    exact wrong item ‹_›

theorem wrong_needed_iff : Wrong (Needed means) field? ↔ field? = none ∨ Misfit means field? := by
  constructor
  · intro wrong
    cases field? with
    | none => exact .inl rfl
    | some value => exact .inr ⟨value, rfl, fun item meant => wrong item (.present meant)⟩
  · rintro (rfl | ⟨value, rfl, wrong⟩) item ⟨meant⟩
    exact wrong item meant

theorem exists_forall₂_iff {values : List Value} :
    (∃ items, List.Forall₂ means values items) ↔ ∀ value ∈ values, ¬ Wrong means value := by
  induction values with
  | nil => exact ⟨nofun, fun _ => ⟨[], .nil⟩⟩
  | cons value values ih =>
      rw [List.forall_mem_cons, ← ih, Wrong, not_forall_not]
      constructor
      · rintro ⟨_, _ | ⟨meant, rest⟩⟩
        exact ⟨⟨_, meant⟩, _, rest⟩
      · rintro ⟨⟨_, meant⟩, _, rest⟩
        exact ⟨_, .cons meant rest⟩

theorem wrong_items_iff {amiss : Value → Prop} (same : ∀ value, Wrong means value ↔ amiss value) :
    Wrong (Items means) value ↔ MisreadList amiss value := by
  constructor
  · intro wrong
    by_contra fine
    cases value with
    | array growing values =>
        obtain ⟨items, each⟩ := exists_forall₂_iff.2 fun value mem bad => fine (.element mem ((same value).1 bad))
        exact wrong items (.array growing each)
    | _ => exact fine (.shape nofun)
  · rintro (other | ⟨mem, bad⟩) items ⟨growing, each⟩
    · exact other growing _ rfl
    · exact exists_forall₂_iff.1 ⟨items, each⟩ _ mem ((same _).2 bad)

theorem exists_given (standard : α) (fine : ¬ Misfit means field?) :
    ∃ item, Given standard means field? item := by
  rwa [← wrong_given_iff standard, Wrong, not_forall_not] at fine

theorem exists_needed (given : field? ≠ none) (fine : ¬ Misfit means field?) :
    ∃ item, Needed means field? item := by
  rw [← not_forall_not]
  exact fun wrong => (wrong_needed_iff.1 wrong).elim given fine

end Wrong

theorem Fields.unique {names : List String} {value : Value} {field other : String → Option Value}
    (h : Fields names value field) (h' : Fields names value other) : field = other := by
  cases h <;> cases h' <;> rfl

theorem wrong_tables_iff {value : Value} : Wrong Tables value ↔ MisreadTables value := by
  constructor
  · intro wrong
    by_contra fine
    obtain ⟨field, found⟩ := not_forall_not.1 fun bad => fine (.shape bad)
    have each (name : String) (known : name ∈ tableFields) (usual : String) :
        ∃ item, Given usual Text (field name) item := exists_given usual fun bad => fine (.field found known bad)
    obtain ⟨grouped, a⟩ := each "source_grouped" (by decide) TableNames.standard.grouped
    obtain ⟨text, b⟩ := each "source_text" (by decide) TableNames.standard.text
    obtain ⟨messages, c⟩ := each "translations" (by decide) TableNames.standard.messages
    exact wrong ⟨grouped, text, messages⟩ ⟨field, found, a, b, c⟩
  · rintro (bad | ⟨found, known, bad⟩) tables ⟨field, found', a, b, c⟩
    · exact bad field found'
    · cases found.unique found'
      simp only [tableFields, List.mem_cons, List.not_mem_nil, or_false] at known
      obtain rfl | rfl | rfl := known
      · exact (wrong_given_iff _).2 bad _ a
      · exact (wrong_given_iff _).2 bad _ b
      · exact (wrong_given_iff _).2 bad _ c

theorem wrong_function_iff {value : Value} : Wrong Function value ↔ MisreadFunction value := by
  constructor
  · intro wrong
    by_contra fine
    obtain ⟨field, found⟩ := not_forall_not.1 fun bad => fine (.shape bad)
    obtain ⟨name, a⟩ := exists_needed (fun missing => fine (.lacks found (.inl rfl) missing))
      fun bad => fine (.name found bad)
    obtain ⟨argument, b⟩ := exists_given 0 fun bad => fine (.argument found bad)
    obtain ⟨kind, c⟩ := exists_needed (fun missing => fine (.lacks found (.inr rfl) missing))
      fun bad => fine (.kind found bad)
    exact wrong ⟨name, argument, kind⟩ ⟨field, found, a, b, c⟩
  · rintro bad function ⟨field, found, a, b, c⟩
    cases bad with
    | shape bad => exact bad field found
    | lacks found' needed missing =>
        cases found'.unique found
        obtain rfl | rfl := needed
        · exact wrong_needed_iff.2 (.inl missing) _ a
        · exact wrong_needed_iff.2 (.inl missing) _ c
    | name found' bad =>
        cases found'.unique found
        exact wrong_needed_iff.2 (.inr bad) _ a
    | argument found' bad =>
        cases found'.unique found
        exact (wrong_given_iff _).2 bad _ b
    | kind found' bad =>
        cases found'.unique found
        exact wrong_needed_iff.2 (.inr bad) _ c

theorem wrong_describes_iff {entries : Entries} : Wrong Describes entries ↔ Misread entries := by
  constructor
  · intro wrong
    -- If no field is amiss, each has a meaning, and together these are settings.
    by_contra fine
    obtain ⟨sourceLocale, a⟩ := exists_given standard.sourceLocale fun bad => fine (.text (.inl rfl) bad)
    obtain ⟨parseRoots, b⟩ := exists_given standard.parseRoots fun ⟨_, given, bad⟩ =>
      fine (.parseRoots given ((wrong_items_iff fun _ => .rfl).1 bad))
    obtain ⟨deleteMissing, c⟩ := exists_given standard.deleteMissing fun bad => fine (.flag (.inl rfl) bad)
    obtain ⟨markMissing, d⟩ := exists_given standard.markMissing fun bad => fine (.flag (.inr rfl) bad)
    obtain ⟨database, e⟩ := exists_given standard.database fun bad => fine (.text (.inr rfl) bad)
    obtain ⟨tables, f⟩ := exists_given standard.tables fun ⟨_, given, bad⟩ =>
      fine (.tables given (wrong_tables_iff.1 bad))
    obtain ⟨functions, g⟩ := exists_given standard.functions fun ⟨_, given, bad⟩ =>
      fine (.functions given ((wrong_items_iff fun _ => wrong_function_iff).1 bad))
    exact wrong ⟨sourceLocale, parseRoots, deleteMissing, markMissing, database, tables, functions⟩
      ⟨a, b, c, d, e, f, g⟩
  · rintro bad settings described
    cases bad with
    | text known bad =>
        obtain rfl | rfl := known
        · exact (wrong_given_iff _).2 bad _ described.sourceLocale
        · exact (wrong_given_iff _).2 bad _ described.database
    | flag known bad =>
        obtain rfl | rfl := known
        · exact (wrong_given_iff _).2 bad _ described.deleteMissing
        · exact (wrong_given_iff _).2 bad _ described.markMissing
    | parseRoots given bad =>
        have misfit := (wrong_items_iff fun _ => .rfl).2 bad
        exact (wrong_given_iff _).2 ⟨_, given, misfit⟩ _ described.parseRoots
    | tables given bad => exact (wrong_given_iff _).2 ⟨_, given, wrong_tables_iff.2 bad⟩ _ described.tables
    | functions given bad =>
        have misfit := (wrong_items_iff fun _ => wrong_function_iff).2 bad
        exact (wrong_given_iff _).2 ⟨_, given, misfit⟩ _ described.functions

end Settings

end Phrasebook
