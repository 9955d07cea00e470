import Mathlib.Data.List.Nodup
import Phrasebook.Proofs.Catalogue.Statements

namespace Phrasebook

open Function (update)

namespace Plan

def refresh (plan : Plan) (locale : String) (now : Instant) (table : Table) : Table :=
  (table.addAll locale now plan.inserts).mapSources (SourceRow.renewed plan.renew)

/-- The table of a kind and the messages after the rows of some ids have been dealt with. -/
def settle (policy : MissingPolicy) (kind : SourceKind) (now : Instant) (ids : List Int)
    (state : Table × Table) : Table × Table :=
  match policy with
  | .keep => state
  | .mark => (state.1.mapSources (SourceRow.marked ids now), state.2)
  | .delete => (Database.Table.without state.1 ids, state.2.forget kind (state.1.chosen ids))

def acted (policy : MissingPolicy) (ids : List Int) (table : Table) : Nat :=
  match policy with
  | .keep => 0
  | .mark => table.sources.countP (SourceRow.markedBy ids)
  | .delete => (table.chosen ids).length

def enact (plan : Plan) (policy : MissingPolicy) (kind : SourceKind) (locale : String) (now : Instant)
    (state : Table × Table) : Table × Table :=
  settle policy kind now plan.pending (plan.refresh locale now state.1, state.2)

def tally (plan : Plan) (policy : MissingPolicy) (locale : String) (now : Instant) (table : Table) :
    Outcome :=
  ⟨plan.inserts.length,
    (table.addAll locale now plan.inserts).sources.countP fun row => plan.renew.contains row.id,
    acted policy plan.pending (plan.refresh locale now table)⟩

end Plan

theorem flatten_chunks {α : Type} (size : Nat) (list : List α) :
    (Catalogue.chunks size list).flatten = list := by
  induction list using Catalogue.chunks.induct size with
  | case1 => simp [Catalogue.chunks]
  | case2 x rest ih => simp [Catalogue.chunks, ih]

/-- The statement for some ids changes the table of a kind and the messages by `effect`, and counts `count`. -/
def Acts (names : TableNames) (kind : SourceKind) (act : List Int → Statement)
    (effect : List Int → Table × Table → Table × Table) (count : List Int → Table → Nat) : Prop :=
  ∀ db sources messages, Laid names db sources messages → ∀ ids,
    (act ids).run db =
        .ok (db.withTables (update sources kind (effect ids (sources kind, messages)).1)
          (effect ids (sources kind, messages)).2, count ids (sources kind)) ∧
      Laid names
        (db.withTables (update sources kind (effect ids (sources kind, messages)).1)
          (effect ids (sources kind, messages)).2)
        (update sources kind (effect ids (sources kind, messages)).1)
        (effect ids (sources kind, messages)).2

theorem Acts.runAll {names : TableNames} {kind : SourceKind} {act : List Int → Statement}
    {effect : List Int → Table × Table → Table × Table} {count : List Int → Table → Nat}
    (acts : Acts names kind act effect count) (Countable : List Int → Prop)
    (empty : ∀ state, effect [] state = state)
    (append : ∀ xs ys state, effect (xs ++ ys) state = effect ys (effect xs state))
    (none : ∀ table, count [] table = 0)
    (tail : ∀ xs ys, Countable (xs ++ ys) → Countable ys)
    (add : ∀ xs ys, Countable (xs ++ ys) → ∀ state,
      count (xs ++ ys) state.1 = count xs state.1 + count ys (effect xs state).1)
    {db : Database} {sources : SourceKind → Table} {messages : Table}
    (laid : Laid names db sources messages) (pieces : List (List Int)) :
    ∃ n, Phrasebook.runAll db (pieces.map act) =
        (db.withTables (update sources kind (effect pieces.flatten (sources kind, messages)).1)
          (effect pieces.flatten (sources kind, messages)).2, .ok n) ∧
      (Countable pieces.flatten → n = count pieces.flatten (sources kind)) := by
  -- Each piece acts on what those before it have left; the counts add up as long as no id is counted twice.
  induction pieces generalizing db sources messages with
  | nil =>
      refine ⟨0, ?_, fun _ => (none _).symm⟩
      simp [Phrasebook.runAll, empty, laid.withTables_self]
  | cons piece pieces ih =>
      obtain ⟨ran, laid'⟩ := acts db sources messages laid piece
      obtain ⟨n, rest, counted⟩ := ih laid'
      simp only [Function.update_self, Function.update_idem] at rest counted
      refine ⟨count piece (sources kind) + n, ?_, fun countable => ?_⟩
      · simp only [List.map_cons, Phrasebook.runAll, ran, List.flatten_cons, append]
        rw [rest]
        rfl
      · rw [List.flatten_cons] at countable ⊢
        rw [add _ _ countable (sources kind, messages), counted (tail _ _ countable)]

namespace Laid

variable {names : TableNames} {db : Database} {sources : SourceKind → Table} {messages : Table}

theorem acts_renew (apart : names.Apart) (kind : SourceKind) :
    Acts names kind (.renew (names.ofKind kind))
      (fun ids state => (state.1.mapSources (SourceRow.renewed ids), state.2))
      (fun ids table => table.sources.countP fun row => ids.contains row.id) :=
  fun _ _ _ laid ids => ⟨laid.renew_run apart kind ids,
    laid.withSource kind ⟨rfl, rfl⟩ (laid.sourceMessages kind) (.refl _) laid.messagesSources⟩

theorem acts_mark (apart : names.Apart) (kind : SourceKind) (now : Instant) :
    Acts names kind (.mark (names.ofKind kind) · now)
      (fun ids state => (state.1.mapSources (SourceRow.marked ids now), state.2))
      (fun ids table => table.sources.countP (SourceRow.markedBy ids)) :=
  fun _ _ _ laid ids => ⟨laid.mark_run apart kind ids now,
    laid.withSource kind ⟨rfl, rfl⟩ (laid.sourceMessages kind) (.refl _) laid.messagesSources⟩

theorem acts_delete (apart : names.Apart) (kind : SourceKind) :
    Acts names kind (.delete (names.ofKind kind))
      (fun ids state => (Database.Table.without state.1 ids, state.2.forget kind (state.1.chosen ids)))
      (fun ids table => (table.chosen ids).length) := by
  intro db sources messages laid ids
  refine ⟨laid.delete_run apart kind ids, ?_⟩
  refine laid.withSource kind ⟨rfl, rfl⟩ ?_ ⟨rfl, rfl⟩ laid.messagesSources
  simp [Database.Table.without, laid.sourceMessages]

end Laid

theorem countP_or {α : Type} (rows : List α) (p q : α → Bool) (apart : ∀ row ∈ rows, ¬ (p row ∧ q row)) :
    rows.countP (fun row => p row || q row) = rows.countP p + rows.countP q := by
  induction rows with
  | nil => rfl
  | cons row rows ih =>
      have rest := ih fun other member => apart other (List.mem_cons_of_mem _ member)
      have here := apart row (List.mem_cons_self ..)
      simp only [List.countP_cons, rest]
      cases first : p row <;> cases second : q row
      · simp
      · simp [Nat.add_assoc]
      · simp [Nat.add_right_comm]
      · exact absurd ⟨first, second⟩ here

namespace SourceRow

theorem renewed_append (xs ys : List Int) (row : SourceRow) :
    row.renewed (xs ++ ys) = (row.renewed xs).renewed ys := by
  unfold renewed
  by_cases first : row.id ∈ xs <;> by_cases second : row.id ∈ ys <;> simp [first, second]

theorem renewed_id (ids : List Int) (row : SourceRow) : (row.renewed ids).id = row.id := by
  unfold renewed
  split <;> rfl

theorem marked_append (xs ys : List Int) (now : Instant) (row : SourceRow) :
    row.marked (xs ++ ys) now = (row.marked xs now).marked ys now := by
  unfold marked markedBy
  by_cases active : row.missingAt = none <;> by_cases first : row.id ∈ xs <;>
    by_cases second : row.id ∈ ys <;> simp [active, first, second]

theorem markedBy_append (xs ys : List Int) (now : Instant) (row : SourceRow) :
    row.markedBy (xs ++ ys) = (row.markedBy xs || (row.marked xs now).markedBy ys) := by
  unfold marked markedBy
  by_cases active : row.missingAt = none <;> by_cases first : row.id ∈ xs <;>
    by_cases second : row.id ∈ ys <;> simp [active, first, second]

theorem marked_of_markedBy {xs : List Int} {now : Instant} {row : SourceRow} (chosen : row.markedBy xs)
    (ys : List Int) : (row.marked xs now).markedBy ys = false := by
  rw [marked, if_pos chosen]
  rfl

end SourceRow

namespace Table

theorem without_nil (table : Table) : Database.Table.without table [] = table := by
  simp [Database.Table.without]

theorem without_append (table : Table) (xs ys : List Int) :
    Database.Table.without table (xs ++ ys) =
      Database.Table.without (Database.Table.without table xs) ys := by
  simp [Database.Table.without, List.filter_filter, Bool.and_comm]

theorem ids_without (table : Table) (xs : List Int) :
    (Database.Table.without table xs).ids = table.ids.filter (!xs.contains ·) := by
  simp [Database.Table.without, ids, List.filter_append, List.filter_map, Function.comp_def]

theorem mem_chosen {table : Table} {ids : List Int} {id : Int} :
    id ∈ table.chosen ids ↔ id ∈ table.ids ∧ id ∈ ids := by
  simp [chosen]

theorem forget_append (messages table : Table) (kind : SourceKind) (xs ys : List Int) :
    messages.forget kind (table.chosen (xs ++ ys)) =
      (messages.forget kind (table.chosen xs)).forget kind
        ((Database.Table.without table xs).chosen ys) := by
  simp only [forget, List.filter_filter]
  congr 1
  apply List.filter_congr
  intro row _
  cases row.sourceId? kind with
  | none => rfl
  | some id =>
      simp only [Option.any_some, mem_chosen, ids_without, List.mem_filter, List.mem_append]
      by_cases here : id ∈ table.ids <;> by_cases first : id ∈ xs <;> by_cases second : id ∈ ys <;>
        simp [here, first, second]

theorem chosen_append_length (table : Table) (xs ys : List Int) :
    (table.chosen (xs ++ ys)).length =
      (table.chosen xs).length + ((Database.Table.without table xs).chosen ys).length := by
  have split : (xs ++ ys).contains =
      fun id => xs.contains id || (ys.contains id && !xs.contains id) := by
    funext id
    by_cases first : id ∈ xs <;> simp [first]
  simp only [chosen, ids_without, ← List.countP_eq_length_filter, List.countP_filter]
  rw [split, countP_or]
  rintro id - ⟨first, second⟩
  rw [first, Bool.not_true, Bool.and_false] at second
  cases second

end Table

namespace Laid

variable {names : TableNames} {db : Database} {sources : SourceKind → Table} {messages : Table}

theorem runAll_renew (laid : Laid names db sources messages) (apart : names.Apart) (kind : SourceKind)
    (pieces : List (List Int)) :
    ∃ n, runAll db (pieces.map (.renew (names.ofKind kind))) =
        (db.withTables (update sources kind
          ((sources kind).mapSources (SourceRow.renewed pieces.flatten))) messages, .ok n) ∧
      (pieces.flatten.Nodup →
        n = (sources kind).sources.countP fun row => pieces.flatten.contains row.id) := by
  -- Renewing leaves the ids, so an id that stands in two pieces would be counted twice.
  refine (acts_renew apart kind).runAll List.Nodup ?_ ?_ ?_ ?_ ?_ laid pieces
  · intro state
    have same : SourceRow.renewed [] = id := by
      funext row
      simp [SourceRow.renewed]
    simp [Table.mapSources, same]
  · intro xs ys state
    rw [Table.mapSources_comp]
    congr 2
    funext row
    exact SourceRow.renewed_append xs ys row
  · simp
  · exact fun xs ys nodup => nodup.of_append_right
  · intro xs ys nodup state
    have split (row : SourceRow) : (xs ++ ys).contains row.id =
        (xs.contains row.id || ys.contains (row.renewed xs).id) := by
      simp [SourceRow.renewed_id]
    simp only [split, Table.mapSources, List.countP_map]
    apply countP_or
    intro row _ both
    simp only [SourceRow.renewed_id, List.contains_iff_mem] at both
    exact List.disjoint_of_nodup_append nodup both.1 both.2

theorem runAll_mark (laid : Laid names db sources messages) (apart : names.Apart) (kind : SourceKind)
    (now : Instant) (pieces : List (List Int)) :
    runAll db (pieces.map (.mark (names.ofKind kind) · now)) =
      (db.withTables (update sources kind
        ((sources kind).mapSources (SourceRow.marked pieces.flatten now))) messages,
        .ok ((sources kind).sources.countP (SourceRow.markedBy pieces.flatten))) := by
  obtain ⟨n, ran, counted⟩ := (acts_mark apart kind now).runAll (fun _ => True)
    (fun state => by
      have same : SourceRow.marked [] now = id := by
        funext row
        simp [SourceRow.marked, SourceRow.markedBy]
      simp [Table.mapSources, same])
    (fun xs ys state => by
      rw [Table.mapSources_comp]
      congr 2
      funext row
      exact SourceRow.marked_append xs ys now row)
    (fun table => by simp [SourceRow.markedBy]) (fun _ _ _ => trivial)
    (fun xs ys _ state => by
      simp only [Table.mapSources, List.countP_map]
      rw [funext (SourceRow.markedBy_append xs ys now)]
      apply countP_or
      rintro row - ⟨first, second⟩
      rw [SourceRow.marked_of_markedBy first] at second
      cases second)
    laid pieces
  rw [ran, counted trivial]

theorem runAll_delete (laid : Laid names db sources messages) (apart : names.Apart) (kind : SourceKind)
    (pieces : List (List Int)) :
    runAll db (pieces.map (.delete (names.ofKind kind))) =
      (db.withTables
        (update sources kind (Database.Table.without (sources kind) pieces.flatten))
        (messages.forget kind ((sources kind).chosen pieces.flatten)),
        .ok ((sources kind).chosen pieces.flatten).length) := by
  obtain ⟨n, ran, counted⟩ := (acts_delete apart kind).runAll (fun _ => True)
    (fun state => by
      simp [Table.without_nil, Table.chosen, Table.forget])
    (fun xs ys state => by rw [Table.without_append, Table.forget_append])
    (fun table => by simp [Table.chosen]) (fun _ _ _ => trivial)
    (fun xs ys _ state => state.1.chosen_append_length xs ys) laid pieces
  rw [ran, counted trivial]

end Laid

namespace Laid

variable {names : TableNames} {db : Database} {sources : SourceKind → Table} {messages : Table}

theorem addAll (laid : Laid names db sources messages) (kind : SourceKind) (locale : String)
    (now : Instant) (values : List String) :
    Laid names
      (db.withTables (update sources kind ((sources kind).addAll locale now values)) messages)
      (update sources kind ((sources kind).addAll locale now values)) messages :=
  laid.withSource kind (Table.addAll_sameForm values)
    ((Table.addAll_messages values).trans (laid.sourceMessages kind)) (.refl _) laid.messagesSources

theorem runAll_insertSources (laid : Laid names db sources messages) (apart : names.Apart)
    (kind : SourceKind) (locale : String) (now : Instant) (pieces : List (List String))
    (fresh : (sources kind).Fresh pieces.flatten) :
    runAll db (pieces.map (.insertSources (names.ofKind kind) locale · now)) =
      (db.withTables (update sources kind ((sources kind).addAll locale now pieces.flatten)) messages,
        .ok pieces.flatten.length) := by
  induction pieces generalizing db sources with
  | nil => simp [runAll, Table.addAll, laid.withTables_self]
  | cons piece pieces ih =>
      rw [List.flatten_cons, Table.fresh_append locale now] at fresh
      have rest := ih (laid.addAll kind locale now piece) (by simpa using fresh.2)
      simp only [Function.update_self, Function.update_idem] at rest
      simp only [List.map_cons, runAll, laid.insertSources_run apart,
        laid.insertRows_eq apart kind locale now piece fresh.1, Except.map]
      rw [rest]
      simp [Database.withTables, Table.addAll_append]

theorem runAll_insertSources_fails (laid : Laid names db sources messages) (apart : names.Apart)
    (kind : SourceKind) (locale : String) (now : Instant) (pieces : List (List String))
    (stale : ¬ (sources kind).Fresh pieces.flatten) :
    ∃ done piece rest, pieces = done ++ piece :: rest ∧ (sources kind).Fresh done.flatten ∧
      ¬ (sources kind).Fresh (done ++ [piece]).flatten ∧
      runAll db (pieces.map (.insertSources (names.ofKind kind) locale · now)) =
        (db.withTables (update sources kind ((sources kind).addAll locale now done.flatten)) messages,
          .error (.notUnique (names.ofKind kind) ["source"])) := by
  induction pieces generalizing db sources with
  | nil => simp [Table.Fresh] at stale
  | cons piece pieces ih =>
      simp only [List.map_cons, runAll, laid.insertSources_run apart]
      -- Either the first piece is the one that clashes, or it goes in and the rest clashes with what is there then.
      by_cases fresh : (sources kind).Fresh piece
      · rw [List.flatten_cons, Table.fresh_append locale now] at stale
        obtain ⟨done, failing, rest, rfl, before, clash, failed⟩ :=
          ih (laid.addAll kind locale now piece) (by simpa [fresh] using stale)
        refine ⟨piece :: done, failing, rest, rfl, ?_, ?_, ?_⟩
        · rw [List.flatten_cons, Table.fresh_append locale now]
          exact ⟨fresh, by simpa using before⟩
        · rw [List.cons_append, List.flatten_cons, Table.fresh_append locale now]
          exact fun both => clash (by simpa using both.2)
        · simp only [laid.insertRows_eq apart kind locale now piece fresh, Except.map]
          rw [failed]
          simp [Database.withTables, Table.addAll_append]
      · refine ⟨[], piece, pieces, rfl, by simp [Table.Fresh], by simpa using fresh, ?_⟩
        have failed := laid.insertRows_fails apart kind locale now piece fresh
        simp [failed, Except.map, Table.addAll, laid.withTables_self]

theorem runAll_missing (laid : Laid names db sources messages) (apart : names.Apart) (kind : SourceKind)
    (policy : MissingPolicy) (size : Nat) (now : Instant) (ids : List Int) :
    runAll db (Catalogue.missingStatements policy (names.ofKind kind) size now ids) =
      (db.withTables (update sources kind (Plan.settle policy kind now ids (sources kind, messages)).1)
        (Plan.settle policy kind now ids (sources kind, messages)).2,
        .ok (Plan.acted policy ids (sources kind))) := by
  cases policy with
  | keep => simp [Catalogue.missingStatements, runAll, Plan.settle, Plan.acted, laid.withTables_self]
  | delete =>
      rw [Catalogue.missingStatements, laid.runAll_delete apart, flatten_chunks]
      rfl
  | mark =>
      rw [Catalogue.missingStatements, laid.runAll_mark apart, flatten_chunks]
      rfl

end Laid

namespace Catalogue

def withTables (c : Catalogue) (sources : SourceKind → Table) (messages : Table) : Catalogue :=
  { c with database := c.database.withTables sources messages }

variable {c : Catalogue} {sources : SourceKind → Table} {messages : Table}

theorem applyIn_of_fresh (apart : c.names.Apart) (laid : Laid c.names c.database sources messages)
    (idle : c.before = none) (size : Nat) (kind : SourceKind) (plan : Plan) (policy : MissingPolicy)
    (locale : String) (now : Instant) (fresh : (sources kind).Fresh plan.inserts) :
    ∃ outcome : Outcome,
      c.applyIn size kind plan policy locale now =
        (c.withTables
            (update sources kind (plan.enact policy kind locale now (sources kind, messages)).1)
            (plan.enact policy kind locale now (sources kind, messages)).2, .ok outcome) ∧
      (plan.renew.Nodup → outcome = plan.tally policy locale now (sources kind)) := by
  have inserted := laid.runAll_insertSources apart kind locale now (chunks size plan.inserts)
    (by rwa [flatten_chunks])
  rw [flatten_chunks] at inserted
  have laid₁ := laid.addAll kind locale now plan.inserts
  obtain ⟨n, renewed, counted⟩ := laid₁.runAll_renew apart kind (chunks size plan.renew)
  have laid₂ := (Laid.acts_renew apart kind _ _ _ laid₁ plan.renew).2
  have settled := laid₂.runAll_missing apart kind policy size now plan.pending
  rw [flatten_chunks] at renewed counted
  simp only [Function.update_self, Function.update_idem] at renewed counted settled
  refine ⟨⟨plan.inserts.length, n, Plan.acted policy plan.pending (plan.refresh locale now (sources kind))⟩,
    ?_, ?_⟩
  · simp only [applyIn, carryOut, run, begin, inserted, renewed]
    rw [settled]
    simp [commit, idle, withTables, Database.withTables, Plan.enact, Plan.refresh]
  · intro nodup
    rw [counted nodup, Plan.tally]

theorem carryOut_of_stale (apart : c.names.Apart) (laid : Laid c.names c.database sources messages)
    (size : Nat) (kind : SourceKind) (plan : Plan) (policy : MissingPolicy) (locale : String)
    (now : Instant) (stale : ¬ (sources kind).Fresh plan.inserts) :
    ∃ done chunk rest, chunks size plan.inserts = done ++ chunk :: rest ∧
      (sources kind).Fresh done.flatten ∧ ¬ (sources kind).Fresh (done ++ [chunk]).flatten ∧
      carryOut size c kind plan policy locale now =
        (c.withTables (update sources kind ((sources kind).addAll locale now done.flatten)) messages,
          .error (.notUnique (c.names.ofKind kind) ["source"])) := by
  obtain ⟨done, chunk, rest, split, before, clash, failed⟩ := laid.runAll_insertSources_fails apart kind
    locale now (chunks size plan.inserts) (by rwa [flatten_chunks])
  refine ⟨done, chunk, rest, split, before, clash, ?_⟩
  simp only [carryOut, run, failed]
  rfl

theorem applyIn_of_stale (apart : c.names.Apart) (laid : Laid c.names c.database sources messages)
    (idle : c.before = none) (size : Nat) (kind : SourceKind) (plan : Plan) (policy : MissingPolicy)
    (locale : String) (now : Instant) (stale : ¬ (sources kind).Fresh plan.inserts) :
    c.applyIn size kind plan policy locale now =
      (c, .error (.notUnique (c.names.ofKind kind) ["source"])) := by
  obtain ⟨done, chunk, rest, -, -, -, failed⟩ := carryOut_of_stale (c := c.begin) apart laid size kind plan
    policy locale now stale
  simp only [applyIn, failed]
  simp [rollback, withTables, begin, ← idle]

end Catalogue

end Phrasebook
