import Mathlib.Data.List.Nodup
import Phrasebook.Proofs.Catalogue.Layout

namespace Phrasebook

variable {db db' : Database}

namespace Database

theorem createTable_cases {name : String} {shape : Shape} (created : db.createTable name shape = .ok db') :
    (db.table? name).isSome = true ∧ db' = db ∨
      db.table? name = none ∧ db' = { db with tables := db.tables ++ [Table.empty name shape] } := by
  unfold createTable at created
  split at created
  · cases created
  split at created
  · cases created
  split at created
  · rename_i present
    exact Or.inl ⟨present, (Except.ok.inj created).symm⟩
  rename_i absent
  split at created
  · cases created
  split at created
  · cases created
  · exact Or.inr ⟨by simpa using absent, (Except.ok.inj created).symm⟩

theorem createIndex_cases {name table : String} {columns : List String}
    (created : db.createIndex name table columns = .ok db') :
    ∃ indexed, db.table? table = some indexed ∧
      (db.hasIndex name = true ∧ db' = db ∨
        indexed.lacking? columns = none ∧ db' = { db with indexes := db.indexes ++ [name] }) := by
  unfold createIndex Database.table at created
  cases found : db.table? table with
  | none => simp [found, bind, Except.bind] at created
  | some indexed =>
      refine ⟨indexed, rfl, ?_⟩
      simp only [found, bind, Except.bind, pure, Except.pure] at created
      split at created
      · cases created
      split at created
      · rename_i present
        exact Or.inl ⟨present, (Except.ok.inj created).symm⟩
      · unfold need at created
        cases lacking : indexed.lacking? columns with
        | some column => simp [lacking] at created
        | none =>
            simp only [lacking, Except.ok.injEq] at created
            exact Or.inr ⟨rfl, created.symm⟩

theorem mem_indexes_of_createIndex {name table index : String} {columns : List String}
    (created : db.createIndex name table columns = .ok db') (member : index ∈ db'.indexes) :
    index ∈ db.indexes ∨ index = name := by
  obtain ⟨-, -, ⟨-, rfl⟩ | ⟨-, rfl⟩⟩ := createIndex_cases created
  · exact Or.inl member
  · simpa using member

theorem indexes_of_createTable {name : String} {shape : Shape}
    (created : db.createTable name shape = .ok db') : db'.indexes = db.indexes := by
  rcases createTable_cases created with ⟨-, rfl⟩ | ⟨-, rfl⟩ <;> rfl

theorem table?_of_extended {name : String} {table : Table} (more : db.tables <+: db'.tables)
    (found : db.table? name = some table) : db'.table? name = some table := by
  obtain ⟨rest, all⟩ := more
  rw [table?] at found ⊢
  rw [← all, List.find?_append, found, Option.some_or]

/-- A database has what another one has, and empty tables and indexes besides. -/
structure Grows (db db' : Database) : Prop where
  tables : ∃ added, db'.tables = db.tables ++ added ∧ ∀ table ∈ added, table = .empty table.name table.shape
  indexes : db.indexes <+: db'.indexes

namespace Grows

theorem refl (db : Database) : db.Grows db := ⟨⟨[], by simp⟩, List.prefix_rfl⟩

theorem trans {db'' : Database} (first : db.Grows db') (second : db'.Grows db'') : db.Grows db'' := by
  obtain ⟨⟨added, all, new⟩, indexes⟩ := first
  obtain ⟨⟨added', all', new'⟩, indexes'⟩ := second
  refine ⟨⟨added ++ added', by rw [all', all, List.append_assoc], ?_⟩, indexes.trans indexes'⟩
  intro table member
  exact (List.mem_append.1 member).elim (new table) (new' table)

theorem kept (grows : db.Grows db') : db.tables <+: db'.tables := by
  obtain ⟨added, all, -⟩ := grows.tables
  exact ⟨added, all.symm⟩

theorem table? (grows : db.Grows db') {name : String} (found : (db.table? name).isSome = true) :
    (db'.table? name).isSome = true := by
  obtain ⟨table, found⟩ := Option.isSome_iff_exists.1 found
  rw [table?_of_extended grows.kept found, Option.isSome_some]

theorem of_createTable {name : String} {shape : Shape} (created : db.createTable name shape = .ok db') :
    db.Grows db' := by
  rcases createTable_cases created with ⟨-, rfl⟩ | ⟨-, rfl⟩
  · exact .refl _
  · exact ⟨⟨[.empty name shape], rfl, by simp [Table.empty]⟩, List.prefix_rfl⟩

theorem of_createIndex {name table : String} {columns : List String}
    (created : db.createIndex name table columns = .ok db') : db.Grows db' := by
  obtain ⟨-, -, ⟨-, rfl⟩ | ⟨-, rfl⟩⟩ := createIndex_cases created
  · exact .refl _
  · exact ⟨⟨[], by simp⟩, List.prefix_append ..⟩

end Grows

end Database

namespace Statement

def Creates : Statement → Prop
  | .createTable .. => True
  | .createIndex .. => True
  | _ => False

def Made (db : Database) : Statement → Prop
  | .createTable name _ => FreeName name ∧ (db.table? name).isSome = true
  | .createIndex name table _ => (db.table? table).isSome = true ∧ db.Indexed name
  | _ => False

variable {statement other : Statement} {n : Nat}

theorem run_grows (creates : statement.Creates) (ran : statement.run db = .ok (db', n)) :
    db.Grows db' ∧ n = 0 := by
  cases statement with
  | createTable name shape =>
      obtain ⟨_, created, same⟩ := Except.map_ok ran
      cases same
      exact ⟨.of_createTable created, rfl⟩
  | createIndex name table columns =>
      obtain ⟨_, created, same⟩ := Except.map_ok ran
      cases same
      exact ⟨.of_createIndex created, rfl⟩
  | _ => exact creates.elim

theorem made_of_run (creates : statement.Creates) (ran : statement.run db = .ok (db', n)) :
    statement.Made db' := by
  cases statement with
  | createTable name shape =>
      have created := createTable_run_ok ran
      refine ⟨(createTable_ok created).1, ?_⟩
      rcases Database.createTable_cases created with ⟨present, rfl⟩ | ⟨-, rfl⟩
      · exact present
      · simp [Database.table?, List.find?_append, Table.empty, sameName_refl]
  | createIndex name table columns =>
      have created := createIndex_run_ok ran
      obtain ⟨indexed, found, -⟩ := Database.createIndex_cases created
      have grows := Database.Grows.of_createIndex created
      exact ⟨grows.table? (by rw [found, Option.isSome_some]), (createIndex_ok created).2.1⟩
  | _ => exact creates.elim

namespace Made

theorem run (made : statement.Made db) : statement.run db = .ok (db, 0) := by
  cases statement with
  | createTable name shape => exact createTable_present made.1 made.2
  | createIndex name table columns =>
      obtain ⟨found, indexed⟩ := made
      obtain ⟨_, found⟩ := Option.isSome_iff_exists.1 found
      exact createIndex_present (by rw [Database.table, found]) indexed
  | _ => exact made.elim

/-- The step: what is there stays there when something else is created. A table never takes the name of an
index. -/
theorem step (made : statement.Made db) (creates : other.Creates) (ran : other.run db = .ok (db', n)) :
    statement.Made db' := by
  have grows := (run_grows creates ran).1
  cases statement with
  | createTable name shape => exact ⟨made.1, grows.table? made.2⟩
  | createIndex name table columns =>
      refine ⟨grows.table? made.1, ?_⟩
      cases other with
      | createTable new shape =>
          have created := createTable_run_ok ran
          rcases Database.createTable_cases created with ⟨-, rfl⟩ | ⟨absent, rfl⟩
          · exact made.2
          · exact made.2.createTable ((createTable_ok created).2 absent).1
      | createIndex new table columns => exact made.2.of_createIndex (createIndex_run_ok ran)
      | _ => exact creates.elim
  | _ => exact made.elim

end Made

end Statement

variable {statements : List Statement} {result : Except DatabaseError Nat}

theorem runAll_cons {statement : Statement} (ran : runAll db (statement :: statements) = (db', result)) :
    (∃ cause, statement.run db = .error cause ∧ db' = db ∧ result = .error cause) ∨
      ∃ middle n rest, statement.run db = .ok (middle, n) ∧ runAll middle statements = (db', rest) ∧
        result = rest.map (n + ·) := by
  rw [runAll] at ran
  cases first : statement.run db with
  | error cause =>
      rw [first] at ran
      cases ran
      exact Or.inl ⟨cause, rfl, rfl, rfl⟩
  | ok changed =>
      obtain ⟨middle, n⟩ := changed
      rw [first] at ran
      cases ran
      exact Or.inr ⟨middle, n, _, rfl, rfl, rfl⟩

theorem runAll_grows (creates : ∀ statement ∈ statements, statement.Creates)
    (ran : runAll db statements = (db', result)) : db.Grows db' := by
  induction statements generalizing db result with
  | nil =>
      cases ran
      exact .refl _
  | cons statement statements ih =>
      obtain ⟨here, later⟩ := List.forall_mem_cons.1 creates
      rcases runAll_cons ran with ⟨-, -, rfl, -⟩ | ⟨middle, n, rest, first, ran, -⟩
      · exact .refl _
      · exact (Statement.run_grows here first).1.trans (ih later ran)

theorem Statement.Made.runAll {statement : Statement} (made : statement.Made db)
    (creates : ∀ statement ∈ statements, statement.Creates) (ran : runAll db statements = (db', result)) :
    statement.Made db' := by
  induction statements generalizing db result with
  | nil =>
      cases ran
      exact made
  | cons other statements ih =>
      obtain ⟨here, later⟩ := List.forall_mem_cons.1 creates
      rcases runAll_cons ran with ⟨-, -, rfl, -⟩ | ⟨middle, n, rest, first, ran, -⟩
      · exact made
      · exact ih (made.step here first) later ran

theorem made_of_runAll (creates : ∀ statement ∈ statements, statement.Creates) {n : Nat}
    (ran : runAll db statements = (db', .ok n)) : ∀ statement ∈ statements, statement.Made db' := by
  induction statements generalizing db n with
  | nil => exact fun _ => False.elim ∘ List.not_mem_nil
  | cons statement statements ih =>
      obtain ⟨here, later⟩ := List.forall_mem_cons.1 creates
      obtain ⟨middle, k, first, m, ran⟩ := runAll_cons_ok ran
      refine List.forall_mem_cons.2 ⟨?_, ih later ran⟩
      exact (Statement.made_of_run here first).runAll later ran

theorem runAll_creates (creates : ∀ statement ∈ statements, statement.Creates) {n : Nat}
    (ran : runAll db statements = (db', .ok n)) : n = 0 := by
  induction statements generalizing db n with
  | nil =>
      cases ran
      rfl
  | cons statement statements ih =>
      obtain ⟨here, later⟩ := List.forall_mem_cons.1 creates
      rcases runAll_cons ran with ⟨_, -, -, same⟩ | ⟨middle, k, rest, first, onward, same⟩
      · cases same
      · obtain ⟨m, rfl, rfl⟩ := Except.map_ok same.symm
        rw [(Statement.run_grows here first).2, ih later onward]

theorem runAll_again (creates : ∀ statement ∈ statements, statement.Creates)
    (ran : runAll db statements = (db', result)) : runAll db' statements = (db', result) := by
  induction statements generalizing db result with
  | nil =>
      cases ran
      rfl
  | cons statement statements ih =>
      obtain ⟨here, later⟩ := List.forall_mem_cons.1 creates
      rcases runAll_cons ran with ⟨cause, first, rfl, rfl⟩ | ⟨middle, n, rest, first, onward, rfl⟩
      · rw [runAll, first]
      -- A statement that has run finds its work done by the end of all of them, so it does nothing and the rest goes
      -- on from the same tables.
      · obtain ⟨-, rfl⟩ := Statement.run_grows here first
        have made := (Statement.made_of_run here first).runAll later onward
        rw [runAll, made.run]
        simp only [ih later onward]

theorem runAll_error_iff {cause : DatabaseError} :
    runAll db statements = (db', .error cause) ↔ ∃ done failing rest n, statements = done ++ failing :: rest ∧
      runAll db done = (db', .ok n) ∧ failing.run db' = .error cause := by
  constructor
  · intro ran
    induction statements generalizing db with
    | nil => cases ran
    | cons statement statements ih =>
        rcases runAll_cons ran with ⟨_, first, rfl, same⟩ | ⟨middle, n, rest, first, ran, same⟩
        · cases same
          exact ⟨[], statement, statements, 0, rfl, rfl, first⟩
        · cases rest with
          | ok _ => cases same
          | error _ =>
              cases same
              obtain ⟨done, failing, rest, m, rfl, before, fails⟩ := ih ran
              exact ⟨statement :: done, failing, rest, n + m, rfl, by simp [runAll, first, before, Except.map],
                fails⟩
  · rintro ⟨done, failing, rest, n, rfl, before, fails⟩
    induction done generalizing db n with
    | nil =>
        cases before
        rw [List.nil_append, runAll, fails]
    | cons statement done ih =>
        obtain ⟨middle, k, first, m, before⟩ := runAll_cons_ok before
        simp [runAll, first, ih m before, Except.map]

theorem Catalogue.schema_creates (names : TableNames) :
    ∀ statement ∈ Catalogue.schema names, statement.Creates := by
  simp [Catalogue.schema, Statement.Creates]

namespace Catalogue

variable {names : TableNames} {opened : Except CatalogueError Catalogue}

theorem openWith_of_runAll {result : Except DatabaseError Nat} (valid : names.validate = .ok ())
    (ran : runAll db (schema names) = (db', result)) :
    openWith names db = (db', (result.mapError .database).map fun _ => ⟨names, db', none⟩) := by
  rw [openWith, valid]
  cases result <;> simp only [ran, Except.mapError, Except.map]

/-- Opening adds empty tables and indexes to a database and changes nothing else, also if it fails; opening what it
leaves does nothing more, and ends in the same way. Where a statement fails, what those before it create is there;
so the database is as it was if, and only if, it had all of that. -/
theorem openWith_stepwise (valid : names.validate = .ok ()) (ran : openWith names db = (db', opened)) :
    db.Grows db' ∧ openWith names db' = (db', opened) ∧
      ∀ cause, opened = .error cause → ∃ done failing rest reason,
        schema names = done ++ failing :: rest ∧ runAll db done = (db', .ok 0) ∧
          failing.run db' = .error reason ∧ cause = .database reason ∧
            (db' = db ↔ ∀ statement ∈ done, statement.Made db) := by
  rcases all : runAll db (schema names) with ⟨final, result⟩
  rw [openWith_of_runAll valid all] at ran
  cases ran
  refine ⟨runAll_grows (schema_creates names) all,
    openWith_of_runAll valid (runAll_again (schema_creates names) all), fun cause failed => ?_⟩
  cases result with
  | ok n => cases failed
  | error reason =>
      cases failed
      obtain ⟨done, failing, rest, n, split, before, fails⟩ := runAll_error_iff.1 all
      have creates : ∀ statement ∈ done, statement.Creates := fun statement member =>
        schema_creates names statement (by simp [split, member])
      have none : n = 0 := runAll_creates creates before
      refine ⟨done, failing, rest, reason, split, none ▸ before, fails, rfl, ?_, fun made => ?_⟩
      · rintro rfl
        exact made_of_runAll creates before
      · have idle := runAll_idle fun statement member => (made statement member).run
        rw [before] at idle
        exact congrArg Prod.fst idle

def halfNamed : TableNames := ⟨"a", "select", "m"⟩

def halfOpened : Database :=
  { briefDatabase with
    tables := briefDatabase.tables ++ [.empty "a" .grouped]
    indexes := briefDatabase.indexes ++ ["idx_a_namespace_source", "idx_a_global_source"] }

theorem halfNamed_opens :
    openWith halfNamed briefDatabase = (halfOpened, .error (.database (.reservedWord "select"))) := by
  decide +kernel

theorem openWith_stepwise_halfNamed :
    halfNamed.validate = .ok () ∧
      openWith halfNamed briefDatabase = (halfOpened, .error (.database (.reservedWord "select"))) ∧
      briefDatabase.Grows halfOpened ∧
      openWith halfNamed halfOpened = (halfOpened, .error (.database (.reservedWord "select"))) := by
  have valid : halfNamed.validate = .ok () := by decide +kernel
  obtain ⟨grows, again, -⟩ := openWith_stepwise valid halfNamed_opens
  exact ⟨valid, halfNamed_opens, grows, again⟩

/-- Names that are accepted, an opening that fails, and a table with its indexes that was not there before. -/
theorem openWith_half_done :
    halfNamed.validate = .ok () ∧
      (openWith halfNamed briefDatabase).2 = .error (.database (.reservedWord "select")) ∧
      briefDatabase.table? "a" = none ∧ briefDatabase.hasIndex "idx_a_global_source" = false ∧
      (openWith halfNamed briefDatabase).1.table? "a" = some (.empty "a" .grouped) ∧
      (openWith halfNamed briefDatabase).1.hasIndex "idx_a_global_source" = true := by
  decide +kernel

end Catalogue

end Phrasebook
