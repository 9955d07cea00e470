import Mathlib.Logic.Function.Basic
import Phrasebook.Catalogue.Catalogue

/-!
# The three tables of a catalogue

`Laid names db sources messages` says that `db` is the database of a catalogue opened under `names`: it
holds the table of each kind of sources, in `sources`, and the table of messages, and nothing else. With
names that are apart (`TableNames.Apart`) each is found under its name alone.
-/

namespace Phrasebook

structure TableNames.Apart (names : TableNames) : Prop where
  groupedText : sameName names.grouped names.text = false
  groupedMessages : sameName names.grouped names.messages = false
  textMessages : sameName names.text names.messages = false

theorem sameName_refl (name : String) : sameName name name = true := by simp [sameName]

theorem sameName_comm (a b : String) : sameName a b = sameName b a := by
  simp only [sameName]
  exact Bool.beq_comm

namespace TableNames.Apart

variable {names : TableNames}

theorem ofKind (apart : names.Apart) (kind other : SourceKind) :
    sameName (names.ofKind kind) (names.ofKind other) = decide (kind = other) := by
  have flipped := apart.groupedText
  rw [sameName_comm] at flipped
  cases kind <;> cases other
  all_goals simp [TableNames.ofKind, sameName_refl, apart.groupedText, flipped]

theorem ofKind_messages (apart : names.Apart) (kind : SourceKind) :
    sameName (names.ofKind kind) names.messages = false := by
  cases kind
  · exact apart.groupedMessages
  · exact apart.textMessages

theorem messages_ofKind (apart : names.Apart) (kind : SourceKind) :
    sameName names.messages (names.ofKind kind) = false := by
  rw [sameName_comm]
  exact apart.ofKind_messages kind

end TableNames.Apart

def SourceKind.shape : SourceKind → Shape
  | .grouped => .grouped
  | .text => .text

/-- What a database says about indexes: whether there is one of a name, and that no table has this name. -/
def Database.Indexed (db : Database) (index : String) : Prop :=
  db.hasIndex index = true ∧ db.table? index = none

def FreeName (name : String) : Prop :=
  reservedWords.any (sameName name) = false ∧
    sameName (String.ofList (name.toList.take 7)) "sqlite_" = false

def messageIndexes (messages : String) : List String :=
  [s!"idx_{messages}_grouped", s!"idx_{messages}_text", s!"idx_{messages}_locale"]

structure Table.SameForm (a b : Table) : Prop where
  name : a.name = b.name
  shape : a.shape = b.shape

theorem Table.SameForm.refl (table : Table) : table.SameForm table := ⟨rfl, rfl⟩

def Database.withTables (db : Database) (sources : SourceKind → Table) (messages : Table) : Database :=
  { db with tables := [sources .grouped, sources .text, messages] }

structure Laid (names : TableNames) (db : Database) (sources : SourceKind → Table) (messages : Table) :
    Prop where
  tables : db.tables = [sources .grouped, sources .text, messages]
  sourceName : ∀ kind, (sources kind).name = names.ofKind kind
  sourceShape : ∀ kind, (sources kind).shape = kind.shape
  sourceMessages : ∀ kind, (sources kind).messages = []
  messagesName : messages.name = names.messages
  messagesShape : messages.shape = .messages names.grouped names.text
  messagesSources : messages.sources = []
  valid : names.validate = .ok ()
  free : FreeName names.grouped ∧ FreeName names.text ∧ FreeName names.messages
  namespaceIndexed : db.Indexed (Database.namespaceIndex names.grouped)
  globalIndexed : db.Indexed (Database.globalIndex names.grouped)
  messagesIndexed : ∀ index ∈ messageIndexes names.messages, db.Indexed index

namespace Laid

open Function (update)

variable {names : TableNames} {db : Database} {sources : SourceKind → Table} {messages : Table}

/-! ## Finding the tables -/

theorem table?_source (laid : Laid names db sources messages) (apart : names.Apart) (kind : SourceKind) :
    db.table? (names.ofKind kind) = some (sources kind) := by
  cases kind
  all_goals simp [Database.table?, laid.tables, laid.sourceName, apart.ofKind]

theorem table_source (laid : Laid names db sources messages) (apart : names.Apart) (kind : SourceKind) :
    db.table (names.ofKind kind) = .ok (sources kind) := by
  simp [Database.table, laid.table?_source apart]

theorem table?_messages (laid : Laid names db sources messages) (apart : names.Apart) :
    db.table? names.messages = some messages := by
  simp [Database.table?, laid.tables, laid.sourceName, laid.messagesName, apart.messages_ofKind,
    sameName_refl]

theorem table_messages (laid : Laid names db sources messages) (apart : names.Apart) :
    db.table names.messages = .ok messages := by
  simp [Database.table, laid.table?_messages apart]

/-! ## Changing them -/

theorem indexed_of_names {db' : Database} {index : String}
    (sameTables : db'.tables.map (·.name) = db.tables.map (·.name)) (sameIndexes : db'.indexes = db.indexes)
    (indexed : db.Indexed index) : db'.Indexed index := by
  obtain ⟨present, absent⟩ := indexed
  refine ⟨by simpa only [Database.hasIndex, sameIndexes] using present, ?_⟩
  have none_iff (tables : List Table) : tables.find? (sameName index ·.name) = none ↔
      ∀ name ∈ tables.map (·.name), sameName index name = false := by simp
  rw [Database.table?, none_iff] at absent ⊢
  rwa [sameTables]

theorem withTables (laid : Laid names db sources messages) {sources' : SourceKind → Table}
    {messages' : Table} (form : ∀ kind, (sources' kind).SameForm (sources kind))
    (alone : ∀ kind, (sources' kind).messages = []) (messagesForm : messages'.SameForm messages)
    (messagesAlone : messages'.sources = []) :
    Laid names (db.withTables sources' messages') sources' messages' := by
  have sameTables : (db.withTables sources' messages').tables.map (·.name) = db.tables.map (·.name) := by
    simp [Database.withTables, laid.tables, (form _).name, messagesForm.name]
  exact {
    tables := rfl
    sourceName := fun kind => (form kind).name.trans (laid.sourceName kind)
    sourceShape := fun kind => (form kind).shape.trans (laid.sourceShape kind)
    sourceMessages := alone
    messagesName := messagesForm.name.trans laid.messagesName
    messagesShape := messagesForm.shape.trans laid.messagesShape
    messagesSources := messagesAlone
    valid := laid.valid
    free := laid.free
    namespaceIndexed := indexed_of_names sameTables rfl laid.namespaceIndexed
    globalIndexed := indexed_of_names sameTables rfl laid.globalIndexed
    messagesIndexed := fun index member =>
      indexed_of_names sameTables rfl (laid.messagesIndexed index member) }

theorem withTables_self (laid : Laid names db sources messages) : db.withTables sources messages = db := by
  rw [Database.withTables, ← laid.tables]

theorem change_source (laid : Laid names db sources messages) (apart : names.Apart) (kind : SourceKind)
    (f : Table → Table) :
    db.change (names.ofKind kind) f = db.withTables (update sources kind (f (sources kind))) messages := by
  simp only [Database.change, Database.withTables, laid.tables, List.map_cons, List.map_nil,
    laid.sourceName, laid.messagesName, apart.ofKind, apart.ofKind_messages]
  cases kind <;> simp [update]

theorem change_messages (laid : Laid names db sources messages) (apart : names.Apart)
    (f : Table → Table) : db.change names.messages f = db.withTables sources (f messages) := by
  simp [Database.change, Database.withTables, laid.tables, laid.sourceName, laid.messagesName,
    apart.messages_ofKind, sameName_refl]

theorem withSource (laid : Laid names db sources messages) (kind : SourceKind) {table messages' : Table}
    (form : table.SameForm (sources kind)) (alone : table.messages = [])
    (messagesForm : messages'.SameForm messages) (messagesAlone : messages'.sources = []) :
    Laid names (db.withTables (update sources kind table) messages') (update sources kind table)
      messages' := by
  refine laid.withTables ?_ ?_ messagesForm messagesAlone
  all_goals
    intro other
    by_cases same : other = kind
    · subst same
      simp [form, alone]
    · simp [same, laid.sourceMessages, Table.SameForm.refl]

end Laid

/-! ## Opening -/

theorem sameName_trans {a b c : String} (ab : sameName a b = true) (bc : sameName b c = true) :
    sameName a c = true := by
  simp only [sameName, beq_iff_eq] at *
  exact ab.trans bc

theorem runAll_cons_ok {db db' : Database} {statement : Statement} {statements : List Statement} {n : Nat}
    (ran : runAll db (statement :: statements) = (db', .ok n)) :
    ∃ middle k, statement.run db = .ok (middle, k) ∧ ∃ m, runAll middle statements = (db', .ok m) := by
  unfold runAll at ran
  split at ran
  · cases ran
  · rename_i middle k first
    refine ⟨middle, k, first, ?_⟩
    rcases rest : runAll middle statements with ⟨final, _ | m⟩
    · rw [rest] at ran
      cases ran
    · rw [rest] at ran
      cases ran
      exact ⟨m, rfl⟩

theorem Except.map_ok {ε α β : Type} {x : Except ε α} {f : α → β} {b : β} (h : x.map f = .ok b) :
    ∃ a, x = .ok a ∧ f a = b := by
  cases x with
  | error e => cases h
  | ok a => exact ⟨a, rfl, by simpa [Except.map] using h⟩

theorem createTable_ok {db db' : Database} {name : String} {shape : Shape}
    (created : db.createTable name shape = .ok db') :
    FreeName name ∧ (db.table? name = none →
      db.hasIndex name = false ∧ db' = { db with tables := db.tables ++ [Table.empty name shape] }) := by
  unfold Database.createTable at created
  split at created
  · cases created
  split at created
  · cases created
  rename_i notReserved notInternal
  refine ⟨⟨by simpa using notReserved, by simpa using notInternal⟩, fun absent => ?_⟩
  simp only [absent, Option.isSome_none, Bool.false_eq_true, ↓reduceIte] at created
  split at created
  · cases created
  rename_i noIndex
  split at created
  · cases created
  · exact ⟨by simpa using noIndex, (Except.ok.inj created).symm⟩

theorem createIndex_ok {db db' : Database} {name table : String} {columns : List String}
    (created : db.createIndex name table columns = .ok db') :
    db'.tables = db.tables ∧ db'.Indexed name ∧ ∀ index, db.hasIndex index = true → db'.hasIndex index = true := by
  unfold Database.createIndex at created
  cases found : db.table table with
  | error e => rw [found] at created; cases created
  | ok indexed =>
    rw [found] at created
    simp only [bind, Except.bind, pure, Except.pure] at created
    split at created
    · cases created
    rename_i noTable
    have absent : db.table? name = none := by simpa using noTable
    split at created
    · rename_i present
      cases created
      exact ⟨rfl, ⟨present, absent⟩, fun _ h => h⟩
    · cases lacking : Database.need indexed columns with
      | error e => rw [lacking] at created; cases created
      | ok _ =>
        rw [lacking] at created
        cases created
        refine ⟨rfl, ⟨?_, absent⟩, fun index h => ?_⟩
        · simp [Database.hasIndex, sameName_refl]
        · simp only [Database.hasIndex, List.any_append, Bool.or_eq_true] at h ⊢
          exact Or.inl h

theorem Database.Indexed.createTable {db : Database} {index name : String} {shape : Shape}
    (indexed : db.Indexed index) (noIndex : db.hasIndex name = false) :
    { db with tables := db.tables ++ [Table.empty name shape] : Database }.Indexed index := by
  obtain ⟨present, absent⟩ := indexed
  refine ⟨present, ?_⟩
  have differ : sameName index name = false := by
    by_contra same
    rw [Bool.not_eq_false] at same
    obtain ⟨other, member, sameIndex⟩ := List.any_eq_true.1 present
    have here : db.hasIndex name = true :=
      List.any_eq_true.2 ⟨other, member, sameName_trans (by rwa [sameName_comm]) sameIndex⟩
    rw [here] at noIndex
    cases noIndex
  simp only [Database.table?, List.find?_append] at absent ⊢
  simp [absent, Table.empty, differ]

theorem Database.Indexed.of_createIndex {db db' : Database} {index name table : String}
    {columns : List String} (indexed : db.Indexed index)
    (created : db.createIndex name table columns = .ok db') : db'.Indexed index := by
  obtain ⟨sameTables, -, kept⟩ := createIndex_ok created
  exact ⟨kept index indexed.1, by rw [Database.table?, sameTables]; exact indexed.2⟩

theorem createTable_run_ok {db db' : Database} {name : String} {shape : Shape} {k : Nat}
    (ran : (Statement.createTable name shape).run db = .ok (db', k)) :
    db.createTable name shape = .ok db' := by
  obtain ⟨created, h, same⟩ := Except.map_ok ran
  cases same
  exact h

theorem createIndex_run_ok {db db' : Database} {name table : String} {columns : List String} {k : Nat}
    (ran : (Statement.createIndex name table columns).run db = .ok (db', k)) :
    db.createIndex name table columns = .ok db' := by
  obtain ⟨created, h, same⟩ := Except.map_ok ran
  cases same
  exact h

def freshSources (names : TableNames) (kind : SourceKind) : Table :=
  Table.empty (names.ofKind kind) kind.shape

def freshMessages (names : TableNames) : Table :=
  Table.empty names.messages (.messages names.grouped names.text)

theorem openWith_ok {names : TableNames} {db db' : Database} {c : Catalogue}
    (opened : Catalogue.openWith names db = (db', .ok c)) :
    names.validate = .ok () ∧ c = ⟨names, db', none⟩ ∧
      ∃ n, runAll db (Catalogue.schema names) = (db', .ok n) := by
  unfold Catalogue.openWith at opened
  split at opened
  · cases opened
  · rename_i valid
    split at opened
    · rename_i final n ran
      cases opened
      exact ⟨valid, rfl, n, ran⟩
    · cases opened

theorem openWith_empty {names : TableNames} (apart : names.Apart) {db : Database} {c : Catalogue}
    (opened : Catalogue.openWith names .empty = (db, .ok c)) :
    c = ⟨names, db, none⟩ ∧ Laid names db (freshSources names) (freshMessages names) := by
  obtain ⟨valid, rfl, n, ran⟩ := openWith_ok opened
  refine ⟨rfl, ?_⟩
  obtain ⟨db₁, k₁, first, m₁, ran⟩ := runAll_cons_ok ran
  obtain ⟨db₂, k₂, second, m₂, ran⟩ := runAll_cons_ok ran
  obtain ⟨db₃, k₃, third, m₃, ran⟩ := runAll_cons_ok ran
  obtain ⟨db₄, k₄, fourth, m₄, ran⟩ := runAll_cons_ok ran
  obtain ⟨db₅, k₅, fifth, m₅, ran⟩ := runAll_cons_ok ran
  obtain ⟨db₆, k₆, sixth, m₆, ran⟩ := runAll_cons_ok ran
  obtain ⟨db₇, k₇, seventh, m₇, ran⟩ := runAll_cons_ok ran
  obtain ⟨db₈, k₈, eighth, m₈, ran⟩ := runAll_cons_ok ran
  have last : db₈ = db := congrArg Prod.fst ran
  subst last
  -- The table of grouped sources and its two indexes.
  obtain ⟨groupedFree, new⟩ := createTable_ok (createTable_run_ok first)
  obtain ⟨-, rfl⟩ := new rfl
  have second := createIndex_run_ok second
  have third := createIndex_run_ok third
  obtain ⟨tables₂, indexed₂, -⟩ := createIndex_ok second
  obtain ⟨tables₃, indexed₃, -⟩ := createIndex_ok third
  have tables₃ : db₃.tables = [freshSources names .grouped] := tables₃.trans tables₂
  -- The table of texts.
  obtain ⟨textFree, new⟩ := createTable_ok (createTable_run_ok fourth)
  have flipped := apart.groupedText
  rw [sameName_comm] at flipped
  obtain ⟨noText, rfl⟩ := new (by
    simp [Database.table?, tables₃, freshSources, Table.empty, TableNames.ofKind, flipped])
  -- The table of messages and its three indexes.
  obtain ⟨messagesFree, new⟩ := createTable_ok (createTable_run_ok fifth)
  obtain ⟨noMessages, rfl⟩ := new (by
    have noGrouped := apart.messages_ofKind .grouped
    have noText := apart.messages_ofKind .text
    simp only [TableNames.ofKind] at noGrouped noText
    simp [Database.table?, tables₃, freshSources, Table.empty, TableNames.ofKind, noGrouped, noText])
  have sixth := createIndex_run_ok sixth
  have seventh := createIndex_run_ok seventh
  have eighth := createIndex_run_ok eighth
  obtain ⟨tables₆, indexed₆, -⟩ := createIndex_ok sixth
  obtain ⟨tables₇, indexed₇, -⟩ := createIndex_ok seventh
  obtain ⟨tables₈, indexed₈, -⟩ := createIndex_ok eighth
  have later {index : String} {db' : Database} (indexed : db'.Indexed index)
      (carried : db'.Indexed index → db₃.Indexed index) : db₈.Indexed index :=
    ((((carried indexed).createTable noText).createTable noMessages).of_createIndex sixth
      |>.of_createIndex seventh).of_createIndex eighth
  exact {
    tables := by
      rw [tables₈, tables₇, tables₆]
      simp [tables₃, freshSources, freshMessages, TableNames.ofKind, SourceKind.shape]
    sourceName := fun _ => rfl
    sourceShape := fun _ => rfl
    sourceMessages := fun _ => rfl
    messagesName := rfl
    messagesShape := rfl
    messagesSources := rfl
    valid := valid
    free := ⟨groupedFree, textFree, messagesFree⟩
    namespaceIndexed := later indexed₂ (·.of_createIndex third)
    globalIndexed := later indexed₃ id
    messagesIndexed := by
      intro index member
      simp only [messageIndexes, List.mem_cons, List.not_mem_nil, or_false] at member
      rcases member with rfl | rfl | rfl
      · exact (indexed₆.of_createIndex seventh).of_createIndex eighth
      · exact indexed₇.of_createIndex eighth
      · exact indexed₈ }

theorem standard_apart : TableNames.standard.Apart := ⟨by decide, by decide, by decide⟩

theorem standard_opens : ∃ db c, Catalogue.openWith .standard .empty = (db, .ok c) := by
  have valid : TableNames.standard.validate = .ok () := rfl
  have ran : (runAll .empty (Catalogue.schema .standard)).2.toOption = some 0 := by decide +kernel
  unfold Catalogue.openWith
  rw [valid]
  rcases h : runAll .empty (Catalogue.schema .standard) with ⟨db, _ | n⟩
  · rw [h] at ran
    cases ran
  · exact ⟨db, _, rfl⟩

def TableNames.brief : TableNames := ⟨"g", "t", "m"⟩

def briefDatabase : Database :=
  ⟨[.empty "g" .grouped, .empty "t" .text, .empty "m" (.messages "g" "t")],
    ["idx_g_namespace_source", "idx_g_global_source", "idx_m_grouped", "idx_m_text", "idx_m_locale"]⟩

/-- A fresh catalogue in full, so that what operations do to it can be computed. -/
def briefCatalogue : Catalogue := ⟨.brief, briefDatabase, none⟩

theorem brief_apart : TableNames.brief.Apart := ⟨by decide, by decide, by decide⟩

theorem brief_opens : Catalogue.openWith .brief .empty = (briefDatabase, .ok briefCatalogue) := by
  have valid : TableNames.brief.validate = .ok () := rfl
  have ran : Prod.map id Except.toOption (runAll .empty (Catalogue.schema .brief)) = (briefDatabase, some 0) := by
    decide +kernel
  unfold Catalogue.openWith
  rw [valid]
  rcases h : runAll .empty (Catalogue.schema .brief) with ⟨db, _ | n⟩
  · simp [h, Except.toOption] at ran
  · rw [h, Prod.map_apply, Prod.mk.injEq, id] at ran
    rw [ran.1]
    rfl

theorem createTable_present {db : Database} {name : String} {shape : Shape} (free : FreeName name)
    (present : (db.table? name).isSome = true) :
    (Statement.createTable name shape).run db = .ok (db, 0) := by
  simp [Statement.run, Database.createTable, free.1, free.2, present, Except.map]

theorem createIndex_present {db : Database} {index name : String} {columns : List String} {table : Table}
    (found : db.table name = .ok table) (indexed : db.Indexed index) :
    (Statement.createIndex index name columns).run db = .ok (db, 0) := by
  simp [Statement.run, Database.createIndex, found, indexed.1, indexed.2, Except.map, bind, Except.bind,
    pure, Except.pure]

theorem runAll_idle {db : Database} {statements : List Statement}
    (idle : ∀ statement ∈ statements, statement.run db = .ok (db, 0)) :
    runAll db statements = (db, .ok 0) := by
  induction statements with
  | nil => rfl
  | cons statement statements ih =>
      have first := idle statement (List.mem_cons_self ..)
      have rest := ih fun s member => idle s (List.mem_cons_of_mem _ member)
      simp [runAll, first, rest, Except.map]

theorem openWith_of_laid {names : TableNames} (apart : names.Apart) {db : Database}
    {sources : SourceKind → Table} {messages : Table} (laid : Laid names db sources messages) :
    Catalogue.openWith names db = (db, .ok ⟨names, db, none⟩) := by
  have grouped := laid.table?_source apart .grouped
  have text := laid.table?_source apart .text
  have stored := laid.table?_messages apart
  have idle : ∀ statement ∈ Catalogue.schema names, statement.run db = .ok (db, 0) := by
    intro statement member
    simp only [Catalogue.schema, List.mem_cons, List.not_mem_nil, or_false] at member
    rcases member with rfl | rfl | rfl | rfl | rfl | rfl | rfl | rfl
    · exact createTable_present laid.free.1 (by rw [TableNames.ofKind] at grouped; simp [grouped])
    · exact createIndex_present (laid.table_source apart .grouped) laid.namespaceIndexed
    · exact createIndex_present (laid.table_source apart .grouped) laid.globalIndexed
    · exact createTable_present laid.free.2.1 (by rw [TableNames.ofKind] at text; simp [text])
    · exact createTable_present laid.free.2.2 (by simp [stored])
    all_goals
      exact createIndex_present (laid.table_messages apart)
        (laid.messagesIndexed _ (by simp [messageIndexes]))
  simp [Catalogue.openWith, laid.valid, runAll_idle idle]

end Phrasebook
