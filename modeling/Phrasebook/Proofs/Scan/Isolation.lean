import Phrasebook.Proofs.Catalogue.Opening
import Phrasebook.Proofs.Scan.Idempotence

namespace Phrasebook

open Function (update)

theorem sameName_last {a b : String} (same : sameName a b = true) :
    a.toList.getLast?.map lowerAscii = b.toList.getLast?.map lowerAscii := by
  rw [sameName, beq_iff_eq] at same
  rw [← List.getLast?_map, ← List.getLast?_map, same]

theorem groupedIndex_apart (messages grouped : String) :
    sameName s!"idx_{messages}_grouped" (Database.namespaceIndex grouped) = false ∧
      sameName s!"idx_{messages}_grouped" (Database.globalIndex grouped) = false := by
  have first : (toString "_grouped").toList.getLast? = some 'd' := by decide
  have second : (toString "_namespace_source").toList.getLast? = some 'e' := by decide
  have third : (toString "_global_source").toList.getLast? = some 'e' := by decide
  constructor
  all_goals
    rw [← Bool.not_eq_true]
    intro same
    have last := sameName_last same
    simp only [Database.namespaceIndex, Database.globalIndex, String.toList_append, List.getLast?_append,
      first, second, third, Option.some_or, Option.map_some] at last
    exact absurd last (by decide)

namespace Catalogue

variable {names : TableNames} {db : Database} {c : Catalogue}

theorem openWith_first (opened : openWith names .empty = (db, .ok c)) :
    db.tables.head? = some (freshSources names .grouped) := by
  obtain ⟨-, rfl, n, ran⟩ := openWith_ok opened
  obtain ⟨db₁, k₁, first, m₁, rest⟩ := runAll_cons_ok ran
  have started : db₁.tables = [freshSources names .grouped] := by
    rcases Database.createTable_cases (createTable_run_ok first) with ⟨present, -⟩ | ⟨-, rfl⟩
    · cases present
    · rfl
  have creates := (List.forall_mem_cons.1 (schema_creates names)).2
  obtain ⟨tables, all⟩ := (runAll_grows creates rest).kept
  rw [← all, started]
  rfl

theorem table?_of_created {db₃ db₄ : Database} {n : Nat} (started : db₃.tables = [freshSources names .grouped])
    (ran : (Statement.createTable names.text .text).run db₃ = .ok (db₄, n)) {name : String}
    {kind : SourceKind} (same : sameName name (names.ofKind kind) = true) :
    ∃ kind, db₄.table? name = some (freshSources names kind) := by
  by_cases grouped : sameName name names.grouped = true
  · refine ⟨.grouped, Database.table?_of_extended (Database.Grows.of_createTable (createTable_run_ok ran)).kept ?_⟩
    simpa [Database.table?, started, freshSources, Table.empty, TableNames.ofKind] using grouped
  · have text : sameName name names.text = true := by
      cases kind with
      | grouped => exact absurd same grouped
      | text => exact same
    have other : sameName names.text names.grouped = false := by
      rw [← Bool.not_eq_true]
      exact fun alike => grouped (sameName_trans text alike)
    rcases Database.createTable_cases (createTable_run_ok ran) with ⟨present, -⟩ | ⟨-, rfl⟩
    · simp [Database.table?, started, freshSources, Table.empty, TableNames.ofKind, other] at present
    · refine ⟨.text, ?_⟩
      simp [Database.table?, started, freshSources, Table.empty, TableNames.ofKind, grouped, text,
        SourceKind.shape]

theorem openWith_messages (opened : openWith names .empty = (db, .ok c)) (kind : SourceKind) :
    sameName names.messages (names.ofKind kind) = false := by
  obtain ⟨-, rfl, n, ran⟩ := openWith_ok opened
  obtain ⟨db₁, k₁, first, m₁, ran⟩ := runAll_cons_ok ran
  obtain ⟨db₂, k₂, second, m₂, ran⟩ := runAll_cons_ok ran
  obtain ⟨db₃, k₃, third, m₃, ran⟩ := runAll_cons_ok ran
  obtain ⟨db₄, k₄, fourth, m₄, ran⟩ := runAll_cons_ok ran
  obtain ⟨db₅, k₅, fifth, m₅, ran⟩ := runAll_cons_ok ran
  obtain ⟨db₆, k₆, sixth, m₆, ran⟩ := runAll_cons_ok ran
  rcases Database.createTable_cases (createTable_run_ok first) with ⟨present, -⟩ | ⟨-, rfl⟩
  · cases present
  have started : db₃.tables = [freshSources names .grouped] :=
    (createIndex_ok (createIndex_run_ok third)).1.trans (createIndex_ok (createIndex_run_ok second)).1
  have unindexed : db₅.hasIndex s!"idx_{names.messages}_grouped" = false := by
    obtain ⟨namespaced, global⟩ := groupedIndex_apart names.messages names.grouped
    refine List.any_eq_false.2 fun index member => ?_
    rw [Database.indexes_of_createTable (createTable_run_ok fifth),
      Database.indexes_of_createTable (createTable_run_ok fourth)] at member
    rcases Database.mem_indexes_of_createIndex (createIndex_run_ok third) member with member | rfl
    · rcases Database.mem_indexes_of_createIndex (createIndex_run_ok second) member with member | rfl
      · cases member
      · simpa using namespaced
    · simpa using global
  -- If the names were one, the first index of the messages would be made on a table of sources, which lacks its
  -- columns.
  rw [← Bool.not_eq_true]
  intro same
  obtain ⟨source, found⟩ := table?_of_created started fourth same
  have still := Database.table?_of_extended (Database.Grows.of_createTable (createTable_run_ok fifth)).kept found
  obtain ⟨indexed, there, ⟨present, -⟩ | ⟨fills, -⟩⟩ :=
    Database.createIndex_cases (createIndex_run_ok sixth)
  · rw [unindexed] at present
    cases present
  · obtain rfl := Option.some.inj (still.symm.trans there)
    cases source <;> cases fills

theorem apart_of_opens (opened : openWith names .empty = (db, .ok c))
    (differ : sameName names.grouped names.text = false) : names.Apart where
  groupedText := differ
  groupedMessages := by
    rw [sameName_comm]
    exact openWith_messages opened .grouped
  textMessages := by
    rw [sameName_comm]
    exact openWith_messages opened .text

end Catalogue

/-- Whether an operation is on the sources of a kind. Its plan, if it has one, may be any. -/
def Operation.OfKind (kind : SourceKind) : Operation → Prop
  | .insertSource owner _ _ _ _ => owner = kind
  | .apply owner _ _ _ _ => owner = kind
  | _ => False

namespace Catalogue

variable {c : Catalogue} {sources sources' : SourceKind → Table} {messages messages' : Table}
  {kind : SourceKind}

def Touched (c : Catalogue) (sources : SourceKind → Table) (kind : SourceKind) (c' : Catalogue) : Prop :=
  ∃ table messages, c' = c.withTables (update sources kind table) messages

theorem Touched.others {c' : Catalogue} (touched : Touched c sources kind c')
    (sound : c'.Sound sources' messages') {other : SourceKind} (differ : other ≠ kind) :
    sources' other = sources other := by
  obtain ⟨table, messages, rfl⟩ := touched
  have tables := sound.laid.tables
  simp only [withTables, Database.withTables, List.cons.injEq] at tables
  cases other with
  | grouped => rw [← tables.1, Function.update_of_ne differ]
  | text => rw [← tables.2.1, Function.update_of_ne differ]

namespace Sound

theorem touched_self (sound : c.Sound sources messages) (kind : SourceKind) : Touched c sources kind c := by
  refine ⟨sources kind, messages, ?_⟩
  rw [Function.update_eq_self, withTables, sound.laid.withTables_self]

theorem touched_insertSource (sound : c.Sound sources messages) (apart : c.names.Apart) (kind : SourceKind)
    (scope? : Option String) (source locale : String) (now : Instant) :
    Touched c sources kind (c.insertSource kind scope? source locale now).1 := by
  have fits : kind = .text → (if kind = .grouped then scope? else none) = none := fun text => by simp [text]
  have ran := sound.laid.insertSource_run apart kind fits source locale now
  rw [Catalogue.insertSource, insert_fst, ran]
  by_cases held : (sources kind).Holds (if kind = .grouped then scope? else none) source
  · rw [if_pos held]
    exact sound.touched_self kind
  · rw [if_neg held]
    exact ⟨_, _, rfl⟩

theorem touched_apply (sound : c.Sound sources messages) (apart : c.names.Apart) (kind : SourceKind)
    (plan : Plan) (policy : MissingPolicy) (locale : String) (now : Instant) :
    Touched c sources kind (c.apply kind plan policy locale now).1 := by
  by_cases fresh : (sources kind).Fresh plan.inserts
  · obtain ⟨outcome, applied, -⟩ := applyIn_of_fresh apart sound.laid sound.idle chunkSize kind plan policy
      locale now fresh
    rw [Catalogue.apply, applied]
    exact ⟨_, _, rfl⟩
  · rw [Catalogue.apply, applyIn_of_stale apart sound.laid sound.idle chunkSize kind plan policy locale now fresh]
    exact sound.touched_self kind

theorem perform_ofKind (sound : c.Sound sources messages) (apart : c.names.Apart) {operation : Operation}
    (own : operation.OfKind kind) :
    ∃ sources' messages', (c.perform operation).Sound sources' messages' ∧
      (c.perform operation).names = c.names ∧ ∀ other ≠ kind, sources' other = sources other := by
  obtain ⟨sources', messages', after, names, -⟩ := sound.perform apart operation
  refine ⟨sources', messages', after, names, fun other differ => ?_⟩
  cases operation with
  | insertSource owner scope? source locale now =>
      cases own
      exact (sound.touched_insertSource apart kind scope? source locale now).others after differ
  | apply owner plan policy locale now =>
      cases own
      exact (sound.touched_apply apart kind plan policy locale now).others after differ
  | insertMessage => cases own
  | reopen => cases own

theorem performAll_ofKind (sound : c.Sound sources messages) (apart : c.names.Apart)
    {operations : List Operation} (own : ∀ operation ∈ operations, operation.OfKind kind) :
    ∃ sources' messages', (c.performAll operations).Sound sources' messages' ∧
      (c.performAll operations).names = c.names ∧ ∀ other ≠ kind, sources' other = sources other := by
  -- Along the operations, as each leaves a sound catalogue under the same names.
  induction operations generalizing c sources messages with
  | nil => exact ⟨sources, messages, sound, rfl, fun _ _ => rfl⟩
  | cons operation operations ih =>
      obtain ⟨first, rest⟩ := List.forall_mem_cons.1 own
      obtain ⟨sources₁, messages₁, sound₁, names₁, others₁⟩ := sound.perform_ofKind apart first
      obtain ⟨sources₂, messages₂, sound₂, names₂, others₂⟩ := ih sound₁ (by rwa [names₁]) rest
      exact ⟨sources₂, messages₂, sound₂, names₂.trans names₁,
        fun other differ => (others₂ other differ).trans (others₁ other differ)⟩

end Sound

theorem records_of_first {table : Table} (first : c.database.tables.head? = some table)
    (name : sameName c.names.grouped table.name = true) (shape : table.shape = .grouped) :
    c.records .grouped = .ok table.sources := by
  have columns : table.lacking? Shape.grouped.columns = none := by
    rw [Table.lacking?, shape]
    decide
  obtain ⟨rest, first⟩ := List.head?_eq_some_iff.1 first
  simp [records, sourcesWith, Database.table, Database.table?, first, TableNames.ofKind, name, Database.need,
    columns, bind, Except.bind, pure, Except.pure]

theorem insertSource_shared {names : TableNames} {db : Database} (opened : openWith names .empty = (db, .ok c))
    (shared : sameName names.grouped names.text = true) (source locale : String) (now : Instant) :
    c.records .grouped = .ok [] ∧
      (c.perform (.insertSource .text none source locale now)).records .grouped =
        .ok [⟨1, locale, none, source, false, now, none⟩] := by
  have first := openWith_first opened
  obtain ⟨-, rfl, -⟩ := openWith_ok opened
  have before : (⟨names, db, none⟩ : Catalogue).records .grouped = .ok (freshSources names .grouped).sources :=
    records_of_first first (sameName_refl _) rfl
  refine ⟨before, ?_⟩
  obtain ⟨rest, tables⟩ := List.head?_eq_some_iff.1 first
  -- The name of the texts finds the first table, which is that of the grouped sources.
  rw [sameName_comm] at shared
  let add (table : Table) : Table :=
    { table with lastId := 1, sources := table.sources ++ [⟨1, locale, none, source, false, now, none⟩] }
  have ran : (Statement.insertSource names.text locale none source now).run db =
      .ok (db.change names.text add, 1) := by
    simp [add, Statement.run, Database.table, Database.table?, tables, freshSources, Table.empty,
      TableNames.ofKind, shared, Database.needToFill, Table.lacking?, SourceKind.shape, Shape.columns, bind,
      Except.bind, Except.map, Database.insertRow, Database.repeated?, pure, Except.pure]
  have changed : (db.change names.text add).tables.head? = some (add (freshSources names .grouped)) := by
    simp [Database.change, tables, freshSources, Table.empty, TableNames.ofKind, shared]
  have after : (⟨names, db.change names.text add, none⟩ : Catalogue).records .grouped =
      .ok (add (freshSources names .grouped)).sources := records_of_first changed (sameName_refl _) rfl
  rw [perform, insertSource, insert_fst]
  simp only [TableNames.ofKind, reduceCtorEq, if_false, ran]
  exact after

end Catalogue

namespace Workspace

/-- Under names that mean different tables, operations on one kind leave the records of the other, and a second
scan that deletes what it does not find deletes nothing. Under two names for one table a single text is enough to
change the grouped records. -/
theorem kinds_isolated {names : TableNames} {db : Database} {c : Catalogue}
    (opened : Catalogue.openWith names .empty = (db, .ok c)) :
    (sameName names.grouped names.text = false →
      (∀ earlier kind other steps, other ≠ kind → (∀ step ∈ steps, Operation.OfKind kind step) →
        ∃ rows, (c.performAll earlier).records other = .ok rows ∧
          ((c.performAll earlier).performAll steps).records other = .ok rows) ∧
      ∀ earlier (workspace : Workspace) roots table locale order now working events, ∃ first summary,
        workspace.scanRoots roots table .delete locale order now ⟨c.performAll earlier, working, events⟩ =
          (first, .ok summary) ∧
        ∀ locale' order' now' working' events', ∃ second,
          workspace.scanRoots roots table .delete locale' order' now' ⟨first.store, working', events'⟩ =
            (second, .ok { summary with outcome := .zero }) ∧
          second.store = first.store) ∧
    (sameName names.grouped names.text = true → ∀ source locale now,
      (c.perform (.insertSource .text none source locale now)).records .grouped ≠ c.records .grouped) := by
  refine ⟨fun differ => ?_, fun shared source locale now => ?_⟩
  · have apart := Catalogue.apart_of_opens opened differ
    constructor
    · intro earlier kind other steps away own
      obtain ⟨sameNames, sources, messages, sound⟩ := Catalogue.performAll_sound apart opened earlier
      have apart' : (c.performAll earlier).names.Apart := by rwa [sameNames]
      obtain ⟨sources', messages', sound', names', others⟩ := sound.performAll_ofKind apart' own
      refine ⟨_, sound.records_eq apart' other, ?_⟩
      rw [sound'.records_eq (by rwa [names']), others other away]
    · intro earlier workspace roots table locale order now working events
      obtain ⟨sameNames, sources, messages, sound⟩ := Catalogue.performAll_sound apart opened earlier
      have apart' : (c.performAll earlier).names.Apart := by rwa [sameNames]
      obtain ⟨first, outcome, ran, sources', messages', sound', names', settled⟩ := Scan.run_settles sound
        apart' (fun path => workspace.extractOrSkip Template.compile table ("/".intercalate path))
        { table, locale, files := workspace.listRoots roots, schedule := order (workspace.listRoots roots)
          policy := .delete, now } ⟨c.performAll earlier, working, events⟩ rfl
      refine ⟨first, _, ran, fun locale' order' now' working' events' => ?_⟩
      exact Scan.run_settled sound' (by rwa [names'])
        (fun path => workspace.extractOrSkip Template.compile table ("/".intercalate path))
        { table, locale := locale', files := workspace.listRoots roots
          schedule := order' (workspace.listRoots roots), policy := .delete, now := now' }
        ⟨first.store, working', events'⟩ rfl settled
  · obtain ⟨before, after⟩ := Catalogue.insertSource_shared opened shared source locale now
    simp [before, after]

theorem kinds_isolated_of_brief :
    Catalogue.openWith .brief .empty = (briefDatabase, .ok briefCatalogue) ∧
      sameName TableNames.brief.grouped TableNames.brief.text = false ∧
      ((briefCatalogue.performAll [.insertSource .grouped none "a" "en" ⟨10, 0⟩]).performAll
        [.insertSource .text none "b" "en" ⟨10, 0⟩, .apply .text ⟨["c"], [1], [1]⟩ .delete "en" ⟨20, 0⟩]).records
          .grouped = .ok [⟨1, "en", none, "a", false, ⟨10, 0⟩, none⟩] := by
  have stored : (briefCatalogue.performAll [.insertSource .grouped none "a" "en" ⟨10, 0⟩]).records .grouped =
      .ok [⟨1, "en", none, "a", false, ⟨10, 0⟩, none⟩] := by decide +kernel
  have differ : sameName TableNames.brief.grouped TableNames.brief.text = false := by decide
  obtain ⟨rows, before, after⟩ := ((kinds_isolated brief_opens).1 differ).1
    [.insertSource .grouped none "a" "en" ⟨10, 0⟩] .text .grouped
    [.insertSource .text none "b" "en" ⟨10, 0⟩, .apply .text ⟨["c"], [1], [1]⟩ .delete "en" ⟨20, 0⟩]
    (by decide) (by simp [Operation.OfKind])
  exact ⟨brief_opens, differ, after.trans (before.symm.trans stored)⟩

def twins : TableNames := ⟨"t", "T", "m"⟩

def twinDatabase : Database :=
  ⟨[.empty "t" .grouped, .empty "m" (.messages "t" "T")],
    ["idx_t_namespace_source", "idx_t_global_source", "idx_m_grouped", "idx_m_text", "idx_m_locale"]⟩

/-- Scans twice for a text that a file holds; answers what the second scan has done, and the texts after each. -/
def scanTwice (c : Catalogue) : Option (Outcome × Option (List SourceRow) × Option (List SourceRow)) :=
  let extract (_ : FilePath) : List Occurrence := [⟨"__", "x"⟩]
  let job : ScanJob := ⟨.standard, "en", [["a.php"]], [["a.php"]], .delete, ⟨10, 0⟩⟩
  match Scan.run Catalogue.store extract job ⟨c, .empty, []⟩ with
  | (_, .error _) => none
  | (first, .ok _) =>
    match Scan.run Catalogue.store extract job first with
    | (_, .error _) => none
    | (second, .ok summary) =>
      some (summary.outcome, (first.store.records .text).toOption, (second.store.records .text).toOption)

/-- The names are accepted and open; a text is a grouped source as well, and a second scan deletes it. -/
theorem kinds_shared_of_twins :
    twins.validate = .ok () ∧
      Catalogue.openWith twins .empty = (twinDatabase, .ok ⟨twins, twinDatabase, none⟩) ∧
      (⟨twins, twinDatabase, none⟩ : Catalogue).records .grouped = .ok [] ∧
      ((⟨twins, twinDatabase, none⟩ : Catalogue).perform (.insertSource .text none "x" "en" ⟨10, 0⟩)).records
        .grouped = .ok [⟨1, "en", none, "x", false, ⟨10, 0⟩, none⟩] ∧
      scanTwice ⟨twins, twinDatabase, none⟩ =
        some (⟨0, 0, 1⟩, some [⟨1, "en", none, "x", false, ⟨10, 0⟩, none⟩], some []) := by
  decide +kernel

end Workspace

end Phrasebook
