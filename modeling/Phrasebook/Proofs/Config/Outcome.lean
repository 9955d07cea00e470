import Mathlib.Data.List.TakeWhile
import Phrasebook.Proofs.Config.Reading
import Phrasebook.Proofs.Text.Utf8

/-!
# The outcome of loading settings

Kinds are looked at before anything else (`FirstUnknown`), the environment comes between reading the file and
checking the settings (`Overridden`), and the checks have an order (`Invalid`).
-/

namespace Phrasebook

theorem firstRepeated?_eq_some_iff {seen names : List String} {name : String} :
    firstRepeated? seen names = some name ↔ ∃ before after, names = before ++ name :: after ∧ before.Nodup ∧
      (∀ other ∈ before, other ∉ seen) ∧ (name ∈ seen ∨ name ∈ before) := by
  -- The names already seen vary: a head that is new is one of them for the rest.
  induction names generalizing seen with
  | nil => simp [firstRepeated?]
  | cons head names ih =>
      rw [firstRepeated?]
      split
      · rename_i known
        constructor
        · rintro ⟨⟩
          exact ⟨[], names, rfl, .nil, nofun, .inl known⟩
        · rintro ⟨before, after, split, -, fresh, -⟩
          cases before with
          | nil => cases split; rfl
          | cons first before =>
              cases split
              exact absurd known (fresh _ List.mem_cons_self)
      · rename_i unknown
        rw [ih]
        constructor
        · rintro ⟨before, after, rfl, nodup, fresh, again⟩
          refine ⟨head :: before, after, rfl, List.nodup_cons.2 ⟨fun mem => ?_, nodup⟩, fun other mem => ?_, ?_⟩
          · exact fresh _ mem List.mem_cons_self
          · obtain rfl | mem := List.mem_cons.1 mem
            · exact unknown
            · exact fun old => fresh other mem (List.mem_cons_of_mem _ old)
          · simp only [List.mem_cons] at again ⊢
            tauto
        · rintro ⟨before, after, split, nodup, fresh, again⟩
          cases before with
          | nil =>
              cases split
              exact absurd (again.resolve_right List.not_mem_nil) unknown
          | cons first before =>
              cases split
              obtain ⟨apart, nodup⟩ := List.nodup_cons.1 nodup
              refine ⟨before, after, rfl, nodup, fun other mem => ?_, ?_⟩
              · rw [List.mem_cons, not_or]
                exact ⟨fun same => apart (same ▸ mem), fresh other (List.mem_cons_of_mem _ mem)⟩
              · simp only [List.mem_cons] at again ⊢
                tauto

theorem firstRepeated?_eq_none_iff {names : List String} : firstRepeated? [] names = none ↔ names.Nodup := by
  refine ⟨fun h => (nodup_of_firstRepeated?_eq_none h).1, fun nodup => ?_⟩
  rw [Option.eq_none_iff_forall_ne_some]
  intro name repeated
  obtain ⟨before, after, rfl, -, -, again⟩ := firstRepeated?_eq_some_iff.1 repeated
  exact (List.nodup_append.1 nodup).2.2 _ (again.resolve_left List.not_mem_nil) _ List.mem_cons_self rfl

namespace Settings

open Toml

/-! ## Unknown kinds -/

def Labelled (value : Value) (text : String) : Prop :=
  ∃ origin fields, value = .table origin fields ∧ fields.lookup "kind" = some (.string text)

/-- The text is the first in the array of functions that is given as a kind and names none. -/
def FirstUnknown (entries : Entries) (text : String) : Prop :=
  ∃ growing before value after, entries.lookup "functions" = some (.array growing (before ++ value :: after)) ∧
    Labelled value text ∧ SourceKind.parse? text = none ∧
    ∀ earlier ∈ before, ∀ other, Labelled earlier other → (SourceKind.parse? other).isSome

def label? : Value → Option String
  | .table _ fields =>
    match fields.lookup "kind" with
    | some (.string text) => some text
    | _ => none
  | _ => none

theorem label?_eq_some_iff {value : Value} {text : String} : label? value = some text ↔ Labelled value text := by
  constructor
  · intro labelled
    cases value with
    | table origin fields =>
        rw [label?] at labelled
        split at labelled
        · rename_i given
          cases labelled
          exact ⟨origin, fields, rfl, given⟩
        · cases labelled
    | _ => cases labelled
  · rintro ⟨origin, fields, rfl, given⟩
    simp only [label?, given]

theorem kindTexts_eq (entries : Entries) :
    kindTexts entries =
      match entries.lookup "functions" with
      | some (.array _ values) => values.filterMap label?
      | _ => [] :=
  rfl

theorem checkKinds_eq (texts : List String) :
    checkKinds texts =
      match texts.find? fun text => (SourceKind.parse? text).isNone with
      | some text => .error (.unknownKind text)
      | none => .ok () := by
  induction texts with
  | nil => rfl
  | cons text texts ih =>
      rw [checkKinds] at ih ⊢
      rw [List.forM, ih, SourceKind.parse, List.find?_cons]
      cases SourceKind.parse? text <;> rfl

theorem find?_kindTexts_iff {entries : Entries} {text : String} :
    (kindTexts entries).find? (fun text => (SourceKind.parse? text).isNone) = some text ↔
      FirstUnknown entries text := by
  constructor
  · intro found
    rw [kindTexts_eq] at found
    split at found
    · rename_i growing values given
      rw [List.find?_filterMap, Option.bind_eq_some_iff] at found
      obtain ⟨value, first, labelled⟩ := found
      obtain ⟨unknown, before, after, rfl, earlier⟩ := List.find?_eq_some_iff_append.1 first
      refine ⟨growing, before, value, after, given, label?_eq_some_iff.1 labelled, ?_, ?_⟩
      · simpa [labelled] using unknown
      · intro value mem other labelled
        simpa [label?_eq_some_iff.2 labelled] using earlier value mem
    · cases found
  · rintro ⟨growing, before, value, after, given, labelled, unknown, earlier⟩
    rw [kindTexts_eq, given, List.find?_filterMap, Option.bind_eq_some_iff]
    refine ⟨value, List.find?_eq_some_iff_append.2 ⟨?_, before, after, rfl, ?_⟩, label?_eq_some_iff.2 labelled⟩
    · simp [label?_eq_some_iff.2 labelled, unknown]
    · intro value mem
      cases labelled : label? value with
      | none => rfl
      | some other => simpa using earlier value mem other (label?_eq_some_iff.1 labelled)

theorem checkKinds_eq_error_iff {entries : Entries} {error : SettingError} :
    checkKinds (kindTexts entries) = .error error ↔
      ∃ text, error = .unknownKind text ∧ FirstUnknown entries text := by
  simp only [← find?_kindTexts_iff]
  rw [checkKinds_eq]
  split
  · rename_i text first
    rw [first]
    grind
  · simp [*]

theorem checkKinds_eq_ok_iff {entries : Entries} :
    checkKinds (kindTexts entries) = .ok () ↔ ∀ text, ¬ FirstUnknown entries text := by
  cases checked : checkKinds (kindTexts entries) with
  | error error =>
      obtain ⟨text, -, first⟩ := checkKinds_eq_error_iff.1 checked
      exact ⟨nofun, fun none => absurd first (none text)⟩
  | ok =>
      refine ⟨fun _ text first => ?_, fun _ => rfl⟩
      cases checked.symm.trans (checkKinds_eq_error_iff.2 ⟨text, rfl, first⟩)

/-! ## The environment -/

inductive Chosen {α : Type} (read? : String → Option α) (text? : Option String) (old : α) : α → Prop
  | given {text : String} {new : α} (set : text? = some text) (readable : read? text = some new) :
    Chosen read? text? old new
  | kept (unreadable : ∀ text, text? = some text → read? text = none) : Chosen read? text? old old

/-- What becomes of the settings of a file in an environment. -/
structure Overridden (environment : Environment) (file settings : Settings) : Prop where
  sourceLocale :
    Chosen some (environment.lookup "TRANSCAT_SOURCE_LOCALE") file.sourceLocale settings.sourceLocale
  parseRoots : settings.parseRoots = file.parseRoots
  deleteMissing :
    Chosen Flag.parse? (environment.lookup "TRANSCAT_DELETE_MISSING") file.deleteMissing settings.deleteMissing
  markMissing : Chosen Flag.parse? (environment.lookup "TRANSCAT_MARK_MISSING") file.markMissing settings.markMissing
  database : Chosen some (environment.lookup "TRANSCAT_DATABASE") file.database settings.database
  tables : settings.tables = file.tables
  functions : settings.functions = file.functions

theorem chosen_iff {α : Type} {read? : String → Option α} {text? : Option String} {old new : α} :
    Chosen read? text? old new ↔ new = (text?.bind read?).getD old := by
  constructor
  · rintro (⟨rfl, readable⟩ | unreadable)
    · simp [readable]
    · cases text? with
      | none => rfl
      | some text => simp [unreadable text rfl]
  · rintro rfl
    cases text? with
    | none => exact .kept nofun
    | some text =>
        cases readable : read? text with
        | none =>
            rw [Option.bind_some, readable]
            exact .kept fun _ same => Option.some.inj same ▸ readable
        | some new =>
            rw [Option.bind_some, readable]
            exact .given rfl readable

theorem overridden_iff {environment : Environment} {file settings : Settings} :
    Overridden environment file settings ↔ settings = file.override environment := by
  constructor
  · rintro ⟨a, b, c, d, e, f, g⟩
    rw [chosen_iff] at a c d e
    obtain ⟨locale, roots, delete, mark, database, tables, functions⟩ := settings
    simp only at a b c d e f g
    subst a b c d e f g
    simp [override, flagOr]
  · rintro rfl
    constructor <;> simp [chosen_iff, override, flagOr]

/-! ## Checking -/

def Blank (text : String) : Prop := ∀ c ∈ text.toList, isBlank c

def tableNames (settings : Settings) : List String :=
  [settings.tables.grouped, settings.tables.text, settings.tables.messages]

inductive Invalid (settings : Settings) : SettingError → Prop
  | locale (blank : Blank settings.sourceLocale) : Invalid settings .emptyLocale
  | tableName {before after : List String} {name : String} (locale : ¬ Blank settings.sourceLocale)
    (names : settings.tableNames = before ++ name :: after) (earlier : ∀ other ∈ before, isIdentifier other)
    (bad : ¬ isIdentifier name) : Invalid settings (.invalidTableName name)
  | function {before after : List TranslationFunction} {function : TranslationFunction}
    (locale : ¬ Blank settings.sourceLocale) (tables : ∀ name ∈ settings.tableNames, isIdentifier name)
    (functions : settings.functions = before ++ function :: after) (earlier : (before.map (·.name)).Nodup)
    (again : ∃ other ∈ before, other.name = function.name) : Invalid settings (.duplicateFunction function.name)

structure Valid (settings : Settings) : Prop where
  locale : ¬ Blank settings.sourceLocale
  tables : ∀ name ∈ settings.tableNames, isIdentifier name
  functions : (settings.functions.map (·.name)).Nodup

theorem trimBlanks_isEmpty_iff {text : String} : (trimBlanks text.toList).isEmpty ↔ Blank text := by
  rw [trimBlanks, dropTrailing, List.isEmpty_reverse, List.isEmpty_iff, List.dropWhile_eq_nil_iff]
  simp only [List.mem_reverse]
  constructor
  · intro blank c mem
    rw [← List.takeWhile_append_dropWhile (p := isBlank) (l := text.toList), List.mem_append] at mem
    exact mem.elim List.mem_takeWhile_imp (blank c)
  · exact fun blank c mem => blank c ((List.dropWhile_sublist _).subset mem)

theorem firstRepeated?_names_iff {functions : List TranslationFunction} {name : String} :
    firstRepeated? [] (functions.map (·.name)) = some name ↔ ∃ before function after,
      functions = before ++ function :: after ∧ (before.map (·.name)).Nodup ∧
      (∃ other ∈ before, other.name = function.name) ∧ function.name = name := by
  rw [firstRepeated?_eq_some_iff]
  constructor
  · rintro ⟨_, _, names, nodup, -, again⟩
    obtain ⟨before, rest, rfl, rfl, named⟩ := List.map_eq_append_iff.1 names
    obtain ⟨function, after, rfl, rfl, -⟩ := List.map_eq_cons_iff.1 named
    exact ⟨before, function, after, rfl, nodup, List.mem_map.1 (again.resolve_left List.not_mem_nil), rfl⟩
  · rintro ⟨before, function, after, rfl, nodup, again, rfl⟩
    exact ⟨before.map (·.name), after.map (·.name), by simp, nodup, nofun, .inr (List.mem_map.2 again)⟩

theorem exists_functionTable {settings : Settings} (nodup : (settings.functions.map (·.name)).Nodup) :
    ∃ table, settings.functionTable = .ok table ∧ table.functions = settings.functions := by
  rw [functionTable, FunctionTable.ofList]
  split
  · rename_i name repeated
    cases (firstRepeated?_eq_none_iff.2 nodup).symm.trans repeated
  · exact ⟨_, rfl, rfl⟩

theorem discard_functionTable (settings : Settings) :
    (discard settings.functionTable : Except SettingError Unit) =
      match firstRepeated? [] (settings.functions.map (·.name)) with
      | some name => .error (.duplicateFunction name)
      | none => .ok () := by
  rw [functionTable, FunctionTable.ofList]
  split
  · rename_i name repeated
    simp only [repeated]
    rfl
  · rename_i fresh
    simp only [fresh]
    rfl

theorem validate_eq (settings : Settings) :
    settings.validate =
      if (trimBlanks settings.sourceLocale.toList).isEmpty then .error .emptyLocale
      else
        match settings.tableNames.find? (!isIdentifier ·) with
        | some name => .error (.invalidTableName name)
        | none =>
          match firstRepeated? [] (settings.functions.map (·.name)) with
          | some name => .error (.duplicateFunction name)
          | none => .ok () := by
  rw [validate, ← discard_functionTable]
  split
  · rfl
  · rw [TableNames.validate, tableNames]
    cases List.find? (!isIdentifier ·) _ <;> rfl

theorem find?_tableNames_eq_none_iff {settings : Settings} :
    settings.tableNames.find? (!isIdentifier ·) = none ↔ ∀ name ∈ settings.tableNames, isIdentifier name := by
  simp [List.find?_eq_none]

theorem validate_eq_error_iff {settings : Settings} {error : SettingError} :
    settings.validate = .error error ↔ Invalid settings error := by
  rw [validate_eq]
  constructor
  · intro failed
    split at failed
    · rename_i blank
      cases failed
      exact .locale (trimBlanks_isEmpty_iff.1 blank)
    · rename_i some
      have locale := mt trimBlanks_isEmpty_iff.2 some
      split at failed
      · rename_i name first
        cases failed
        obtain ⟨bad, before, after, names, earlier⟩ := List.find?_eq_some_iff_append.1 first
        exact .tableName locale names (fun other mem => by simpa using earlier other mem) (by simpa using bad)
      · rename_i tables
        split at failed
        · rename_i name repeated
          cases failed
          obtain ⟨before, function, after, functions, earlier, again, rfl⟩ := firstRepeated?_names_iff.1 repeated
          exact .function locale (find?_tableNames_eq_none_iff.1 tables) functions earlier again
        · cases failed
  · rintro (blank | ⟨locale, names, earlier, bad⟩ | ⟨locale, tables, functions, earlier, again⟩)
    · rw [if_pos (trimBlanks_isEmpty_iff.2 blank)]
    · have first := List.find?_eq_some_iff_append (p := (!isIdentifier ·)).2
        ⟨by simpa using bad, _, _, names, by simpa using earlier⟩
      rw [if_neg (mt trimBlanks_isEmpty_iff.1 locale), first]
    · have repeated := firstRepeated?_names_iff.2 ⟨_, _, _, functions, earlier, again, rfl⟩
      rw [if_neg (mt trimBlanks_isEmpty_iff.1 locale), find?_tableNames_eq_none_iff.2 tables, repeated]

theorem validate_eq_ok_iff {settings : Settings} : settings.validate = .ok () ↔ Valid settings := by
  rw [validate_eq]
  constructor
  · intro passed
    split at passed
    · cases passed
    · rename_i some
      split at passed
      · cases passed
      · rename_i tables
        split at passed
        · cases passed
        · rename_i fresh
          exact ⟨mt trimBlanks_isEmpty_iff.2 some, find?_tableNames_eq_none_iff.1 tables,
            firstRepeated?_eq_none_iff.1 fresh⟩
  · rintro ⟨locale, tables, functions⟩
    rw [if_neg (mt trimBlanks_isEmpty_iff.1 locale), find?_tableNames_eq_none_iff.2 tables,
      firstRepeated?_eq_none_iff.2 functions]

/-! ## Loading -/

/-- What loading gives for the entries of a file in an environment. -/
inductive Outcome (entries : Entries) (environment : Environment) : Except SettingError Settings → Prop
  | unknownKind {text : String} (first : FirstUnknown entries text) :
    Outcome entries environment (.error (.unknownKind text))
  | malformed (kinds : ∀ text, ¬ FirstUnknown entries text) (misread : Misread entries) :
    Outcome entries environment (.error .malformed)
  | invalid {file settings : Settings} {error : SettingError} (kinds : ∀ text, ¬ FirstUnknown entries text)
    (read : Describes entries file) (overridden : Overridden environment file settings)
    (invalid : Invalid settings error) : Outcome entries environment (.error error)
  | loaded {file settings : Settings} (kinds : ∀ text, ¬ FirstUnknown entries text)
    (read : Describes entries file) (overridden : Overridden environment file settings)
    (valid : Valid settings) : Outcome entries environment (.ok settings)

def loadEntries (entries : Entries) (environment : Environment) : Except SettingError Settings := do
  checkKinds (kindTexts entries)
  let settings := (← ofEntries entries).override environment
  settings.validate
  return settings

theorem load_bytes {content : List UInt8} {text : List Char} {entries : Entries} (path : String)
    (environment : Environment) (utf8 : Utf8.decode? content = some text) (toml : Toml.parse? text = some entries) :
    load path (.bytes content) environment = loadEntries entries environment := by
  simp only [load, ofFile, utf8, ofToml, toml, loadEntries, bind_assoc]

theorem loadEntries_of_described {entries : Entries} {environment : Environment} {file settings : Settings}
    (kinds : ∀ text, ¬ FirstUnknown entries text) (described : Describes entries file)
    (overridden : Overridden environment file settings) :
    loadEntries entries environment = settings.validate.map fun _ => settings := by
  obtain rfl := overridden_iff.1 overridden
  rw [loadEntries, checkKinds_eq_ok_iff.2 kinds, reads_ofEntries.ok_iff.2 described]
  change ((file.override environment).validate >>= fun _ => pure (file.override environment)) = _
  cases (file.override environment).validate <;> rfl

theorem outcome_loadEntries (entries : Entries) (environment : Environment) :
    Outcome entries environment (loadEntries entries environment) := by
  -- The steps in the order in which they are taken; the first that fails settles the outcome.
  cases checked : checkKinds (kindTexts entries) with
  | error error =>
      obtain ⟨text, rfl, first⟩ := checkKinds_eq_error_iff.1 checked
      rw [loadEntries, checked]
      exact .unknownKind first
  | ok =>
      have kinds := checkKinds_eq_ok_iff.1 checked
      cases read : ofEntries entries with
      | error error =>
          obtain rfl := reads_ofEntries.onlyMalformed entries error read
          rw [loadEntries, checked, read]
          refine .malformed kinds (wrong_describes_iff.1 fun settings described => ?_)
          cases read.symm.trans (reads_ofEntries.ok_iff.2 described)
      | ok file =>
          have described := reads_ofEntries.ok_iff.1 read
          have overridden := overridden_iff.2 (Eq.refl (file.override environment))
          rw [loadEntries_of_described kinds described overridden]
          cases validated : (file.override environment).validate with
          | error error => exact .invalid kinds described overridden (validate_eq_error_iff.1 validated)
          | ok => exact .loaded kinds described overridden (validate_eq_ok_iff.1 validated)

theorem Outcome.eq_loadEntries {entries : Entries} {environment : Environment}
    {result : Except SettingError Settings} (outcome : Outcome entries environment result) :
    result = loadEntries entries environment := by
  cases outcome with
  | unknownKind first =>
      rw [loadEntries, checkKinds_eq_error_iff.2 ⟨_, rfl, first⟩]
      rfl
  | malformed kinds misread =>
      rw [loadEntries, checkKinds_eq_ok_iff.2 kinds]
      cases read : ofEntries entries with
      | error error =>
          obtain rfl := reads_ofEntries.onlyMalformed entries error read
          rfl
      | ok settings => exact absurd (reads_ofEntries.ok_iff.1 read) (wrong_describes_iff.2 misread settings)
  | invalid kinds described overridden invalid =>
      rw [loadEntries_of_described kinds described overridden, validate_eq_error_iff.2 invalid]
      rfl
  | loaded kinds described overridden valid =>
      rw [loadEntries_of_described kinds described overridden, validate_eq_ok_iff.2 valid]
      rfl

/-- Loading has one outcome, and where it is settings, a table of their functions finds each by its name. -/
theorem load_eq_iff {content : List UInt8} {text : List Char} {entries : Entries} (path : String)
    (environment : Environment) (utf8 : Utf8.decode? content = some text) (toml : Toml.parse? text = some entries) :
    (∀ result, load path (.bytes content) environment = result ↔ Outcome entries environment result) ∧
      ∀ settings, load path (.bytes content) environment = .ok settings →
        ∃ table, settings.functionTable = .ok table ∧ table.functions = settings.functions ∧
          ∀ function ∈ settings.functions, table.get? function.name = some function := by
  rw [load_bytes path environment utf8 toml]
  constructor
  · intro result
    constructor
    · rintro rfl
      exact outcome_loadEntries entries environment
    · exact fun outcome => outcome.eq_loadEntries.symm
  · intro settings loaded
    have outcome := outcome_loadEntries entries environment
    rw [loaded] at outcome
    cases outcome with
    | loaded _ _ _ valid =>
        obtain ⟨table, built, same⟩ := exists_functionTable valid.functions
        exact ⟨table, built, same, fun function mem => FunctionTable.get?_name (same ▸ mem)⟩

theorem load_eq_iff_overridden :
    Utf8.decode? (Utf8.encode "[[functions]]\nname = 't'\nkind = 'text'".toList) =
        some "[[functions]]\nname = 't'\nkind = 'text'".toList ∧
      Outcome
        [("functions", .array true [.table .header [("name", .string "t"), ("kind", .string "text")]])]
        [("TRANSCAT_SOURCE_LOCALE", "de"), ("TRANSCAT_MARK_MISSING", "maybe")]
        (.ok { standard with sourceLocale := "de", functions := [⟨"t", 0, .text⟩] }) ∧
      ∃ table, functionTable { standard with sourceLocale := "de", functions := [⟨"t", 0, .text⟩] } = .ok table ∧
        table.get? "t" = some ⟨"t", 0, .text⟩ := by
  have utf8 := Utf8.decode?_encode "[[functions]]\nname = 't'\nkind = 'text'".toList
  have toml : Toml.parse? "[[functions]]\nname = 't'\nkind = 'text'".toList =
      some [("functions", .array true [.table .header [("name", .string "t"), ("kind", .string "text")]])] := rfl
  have loaded : load path (.bytes (Utf8.encode "[[functions]]\nname = 't'\nkind = 'text'".toList))
      [("TRANSCAT_SOURCE_LOCALE", "de"), ("TRANSCAT_MARK_MISSING", "maybe")] =
      .ok { standard with sourceLocale := "de", functions := [⟨"t", 0, .text⟩] } := by
    rw [load_bytes path _ utf8 toml]
    decide
  obtain ⟨outcome, found⟩ := load_eq_iff path
    [("TRANSCAT_SOURCE_LOCALE", "de"), ("TRANSCAT_MARK_MISSING", "maybe")] utf8 toml
  obtain ⟨table, built, -, finds⟩ := found _ loaded
  exact ⟨utf8, (outcome _).1 loaded, table, built, finds _ (List.mem_singleton_self _)⟩

/-- A locale that is a date, and table names that are found by their places, do not make a file malformed; a kind
that is found by its place is not looked at before the rest. -/
theorem load_positional :
    (Toml.parse? "source_locale = 1979-05-27\ntables = ['g', 't', 'm']".toList =
        some [("source_locale", .datetime "1979-05-27"),
          ("tables", .array false [.string "g", .string "t", .string "m"])] ∧
      load path (.bytes (Utf8.encode "source_locale = 1979-05-27\ntables = ['g', 't', 'm']".toList)) [] =
        .ok { standard with sourceLocale := "1979-05-27", tables := ⟨"g", "t", "m"⟩ }) ∧
      Toml.parse? "functions = [['t', 2, 'json']]".toList =
        some [("functions", .array false [.array false [.string "t", .integer 2, .string "json"]])] ∧
      load path (.bytes (Utf8.encode "functions = [['t', 2, 'json']]".toList)) [] = .error .malformed := by
  have named : Toml.parse? "source_locale = 1979-05-27\ntables = ['g', 't', 'm']".toList =
      some [("source_locale", .datetime "1979-05-27"),
        ("tables", .array false [.string "g", .string "t", .string "m"])] := rfl
  have called : Toml.parse? "functions = [['t', 2, 'json']]".toList =
      some [("functions", .array false [.array false [.string "t", .integer 2, .string "json"]])] := rfl
  refine ⟨⟨named, ?_⟩, called, ?_⟩
  · rw [load_bytes path [] (Utf8.decode?_encode _) named]
    decide
  · rw [load_bytes path [] (Utf8.decode?_encode _) called]
    decide

end Settings

end Phrasebook
