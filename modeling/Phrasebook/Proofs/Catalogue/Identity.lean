import Phrasebook.Proofs.Catalogue.Staleness
import Phrasebook.Proofs.Catalogue.Atomicity

namespace Phrasebook

open Function (update)

/-- What ids stand for in the course of time, `rows n` being the rows at the moment `n` and `identity` what stays
the same about a row. -/
structure Lasting {α β : Type} (id : α → Int) (identity : α → β) (rows : Nat → List α) : Prop where
  distinct : ∀ n, ((rows n).map id).Nodup
  beyond : ∀ n, ∀ row ∈ rows (n + 1), (∃ old ∈ rows n, identity old = identity row) ∨
    ∀ m ≤ n, ∀ old ∈ rows m, id old < id row
  one : ∀ m n, ∀ a ∈ rows m, ∀ b ∈ rows n, id a = id b → identity a = identity b
  unbroken : ∀ l m n, l ≤ m → m ≤ n → ∀ first ∈ rows l, ∀ last ∈ rows n, id first = id last →
    ∃ between ∈ rows m, identity between = identity first

section Lasting

variable {α β : Type} {id : α → Int} {identity : α → β} {rows : Nat → List α}

/-- It is enough to look at single steps: a row whose id was given before was there before. -/
theorem lasting_of_steps (last : Nat → Int) (own : ∀ a b, identity a = identity b → id a = id b)
    (distinct : ∀ n, ((rows n).map id).Nodup) (bounded : ∀ n, ∀ row ∈ rows n, id row ≤ last n)
    (grows : ∀ n, last n ≤ last (n + 1))
    (kept : ∀ n, ∀ row ∈ rows (n + 1), id row ≤ last n → ∃ old ∈ rows n, identity old = identity row) :
    Lasting id identity rows := by
  have grown {m n : Nat} (before : m ≤ n) : last m ≤ last n := by
    induction n, before using Nat.le_induction with
    | base => exact Int.le_refl _
    | succ n before ih => exact Int.le_trans ih (grows n)
  -- Steps taken together: a row whose id was given at `m` comes from a row at `m`.
  have origin {m n : Nat} (before : m ≤ n) :
      ∀ row ∈ rows n, id row ≤ last m → ∃ old ∈ rows m, identity old = identity row := by
    induction n, before using Nat.le_induction with
    | base => exact fun row stored _ => ⟨row, stored, rfl⟩
    | succ n before ih =>
        intro row stored given
        obtain ⟨middle, there, same⟩ := kept n row stored (Int.le_trans given (grown before))
        obtain ⟨old, here, equal⟩ := ih middle there (by rwa [own _ _ same])
        exact ⟨old, here, equal.trans same⟩
  have one {m n : Nat} (before : m ≤ n) {a b : α} (first : a ∈ rows m) (second : b ∈ rows n)
      (same : id a = id b) : identity a = identity b := by
    obtain ⟨old, here, equal⟩ := origin before b second (same ▸ bounded m a first)
    rwa [List.inj_on_of_nodup_map (distinct m) first here (same.trans (own _ _ equal).symm)]
  refine ⟨distinct, fun n row stored => ?_, fun m n a first b second same => ?_, ?_⟩
  · rcases Int.lt_or_le (last n) (id row) with new | given
    · refine Or.inr fun m before old here => ?_
      exact Int.lt_of_le_of_lt (Int.le_trans (bounded m old here) (grown before)) new
    · exact Or.inl (kept n row stored given)
  · rcases Nat.le_total m n with before | after
    · exact one before first second same
    · exact (one after second first same.symm).symm
  · intro l m n early late first here final there same
    have given : id final ≤ last m := Int.le_trans (same ▸ bounded l first here) (grown early)
    obtain ⟨between, stored, equal⟩ := origin late final there given
    exact ⟨between, stored, equal.trans (one (Nat.le_trans early late) here there same).symm⟩

end Lasting

theorem SourceRow.id_of_frame {a b : SourceRow} (same : a.frame = b.frame) : a.id = b.id :=
  congrArg Prod.fst same

theorem SourceRow.renewed_frame (ids : List Int) (row : SourceRow) : (row.renewed ids).frame = row.frame := by
  unfold renewed
  split <;> rfl

theorem SourceRow.marked_frame (ids : List Int) (now : Instant) (row : SourceRow) :
    (row.marked ids now).frame = row.frame := by
  unfold marked
  split <;> rfl

namespace Table

namespace Succeeds

variable {a b c : Table}

theorem trans (second : c.Succeeds b) (first : b.Succeeds a) : c.Succeeds a where
  lastId := Int.le_trans first.lastId second.lastId
  kept := by
    intro row stored given
    obtain ⟨middle, there, same⟩ := second.kept row stored (Int.le_trans given first.lastId)
    rw [← SourceRow.id_of_frame same] at given
    obtain ⟨old, here, equal⟩ := first.kept middle there given
    exact ⟨old, here, equal.trans same⟩

end Succeeds

variable {locale : String} {now : Instant}

theorem add_succeeds (table : Table) (scope? : Option String) (source : String) :
    (table.add locale scope? source now).Succeeds table where
  lastId := Int.le_add_one (Int.le_refl _)
  kept := by
    intro row stored given
    rcases List.mem_append.1 stored with old | new
    · exact ⟨row, old, rfl⟩
    · rw [List.mem_singleton.1 new, nextRow] at given
      exact absurd given (Int.not_le.2 (Int.lt_succ _))

theorem addAll_succeeds (table : Table) (values : List String) :
    (table.addAll locale now values).Succeeds table := by
  induction values generalizing table with
  | nil => exact .refl table
  | cons value values ih => exact (ih _).trans (table.add_succeeds none value)

theorem mapSources_succeeds (table : Table) {f : SourceRow → SourceRow}
    (frame : ∀ row, (f row).frame = row.frame) : (table.mapSources f).Succeeds table where
  lastId := Int.le_refl _
  kept := by
    intro row stored _
    obtain ⟨old, here, rfl⟩ := List.mem_map.1 stored
    exact ⟨old, here, (frame old).symm⟩

theorem without_succeeds (table : Table) (ids : List Int) :
    (Database.Table.without table ids).Succeeds table where
  lastId := Int.le_refl _
  kept := fun row stored _ => ⟨row, (List.mem_filter.1 stored).1, rfl⟩

theorem enact_succeeds (table messages : Table) (plan : Plan) (policy : MissingPolicy) (kind : SourceKind)
    (locale : String) (now : Instant) :
    (plan.enact policy kind locale now (table, messages)).1.Succeeds table := by
  have refreshed : (plan.refresh locale now table).Succeeds table :=
    (mapSources_succeeds _ (SourceRow.renewed_frame plan.renew)).trans (table.addAll_succeeds plan.inserts)
  cases policy with
  | keep => exact refreshed
  | mark => exact (mapSources_succeeds _ (SourceRow.marked_frame plan.pending now)).trans refreshed
  | delete => exact (without_succeeds _ plan.pending).trans refreshed

structure Retains (later table : Table) : Prop where
  lastId : table.lastId ≤ later.lastId
  kept : ∀ message ∈ later.messages, message.id ≤ table.lastId → message ∈ table.messages

theorem Retains.refl (table : Table) : table.Retains table := ⟨Int.le_refl _, fun _ stored _ => stored⟩

theorem append_retains (table : Table) {message : MessageRow} (id : message.id = table.lastId + 1) :
    { table with lastId := table.lastId + 1, messages := table.messages ++ [message] : Table }.Retains table where
  lastId := Int.le_add_one (Int.le_refl _)
  kept := by
    intro other stored given
    rcases List.mem_append.1 stored with old | new
    · exact old
    · rw [List.mem_singleton.1 new, id] at given
      exact absurd given (Int.not_le.2 (Int.lt_succ _))

theorem enact_retains (table messages : Table) (plan : Plan) (policy : MissingPolicy) (kind : SourceKind)
    (locale : String) (now : Instant) :
    (plan.enact policy kind locale now (table, messages)).2.Retains messages := by
  cases policy with
  | keep => exact .refl messages
  | mark => exact .refl messages
  | delete => exact ⟨Int.le_refl _, fun message stored _ => (List.mem_filter.1 stored).1⟩

end Table

/-- What has become of the tables of a catalogue. -/
structure Succession (sources sources' : SourceKind → Table) (messages messages' : Table) : Prop where
  sources : ∀ kind, (sources' kind).Succeeds (sources kind)
  messages : messages'.Retains messages

namespace Succession

variable {sources : SourceKind → Table} {messages messages' : Table}

theorem refl (sources : SourceKind → Table) (messages : Table) :
    Succession sources sources messages messages := ⟨fun _ => .refl _, .refl _⟩

theorem withSource {kind : SourceKind} {table : Table} (follows : table.Succeeds (sources kind))
    (retains : messages'.Retains messages) :
    Succession sources (update sources kind table) messages messages' := by
  refine ⟨fun other => ?_, retains⟩
  by_cases here : other = kind
  · subst here
    rwa [Function.update_self]
  · rw [Function.update_of_ne here]
    exact .refl _

end Succession

namespace Catalogue

variable {c : Catalogue} {sources sources' : SourceKind → Table} {messages messages' : Table}

theorem Sound.tables_eq (sound : c.Sound sources messages)
    (tables : c.database.tables = [sources' .grouped, sources' .text, messages']) :
    sources = sources' ∧ messages = messages' := by
  have same := sound.laid.tables.symm.trans tables
  simp only [List.cons.injEq, and_true] at same
  refine ⟨funext fun kind => ?_, same.2.2⟩
  cases kind
  · exact same.1
  · exact same.2.1

theorem Sound.perform_succession (sound : c.Sound sources messages) (apart : c.names.Apart)
    (operation : Operation) (sound' : (c.perform operation).Sound sources' messages') :
    Succession sources sources' messages messages' := by
  have unchanged (same : c.perform operation = c) : Succession sources sources' messages messages' := by
    rw [same] at sound'
    obtain ⟨rfl, rfl⟩ := sound'.tables_eq sound.laid.tables
    exact .refl _ _
  -- An operation that is refused leaves the catalogue as it is; each of the others has one lemma on what it does to
  -- the tables.
  cases operation with
  | insertSource kind scope? source locale now =>
      have fits : kind = .text → (if kind = .grouped then scope? else none) = none := fun text => by simp [text]
      have ran := sound.laid.insertSource_run apart kind fits source locale now
      rw [Catalogue.perform, Catalogue.insertSource, insert_fst, ran] at sound' unchanged
      by_cases held : (sources kind).Holds (if kind = .grouped then scope? else none) source
      · rw [if_pos held] at unchanged
        exact unchanged rfl
      · rw [if_neg held] at sound'
        obtain ⟨rfl, rfl⟩ := sound'.tables_eq rfl
        exact .withSource (Table.add_succeeds ..) (.refl _)
  | insertMessage kind sourceId locale message =>
      have ran := sound.laid.insertMessage_run apart kind sourceId locale message
      rw [Catalogue.perform, Catalogue.insertMessage, insert_fst, ran] at sound' unchanged
      by_cases present : sourceId ∈ (sources kind).sources.map (·.id)
      · rw [if_pos present] at sound'
        obtain ⟨rfl, rfl⟩ := sound'.tables_eq rfl
        exact ⟨fun _ => .refl _, Table.append_retains _ rfl⟩
      · rw [if_neg present] at unchanged
        exact unchanged rfl
  | apply kind plan policy locale now =>
      by_cases fresh : (sources kind).Fresh plan.inserts
      · obtain ⟨outcome, applied, -⟩ := applyIn_of_fresh apart sound.laid sound.idle chunkSize kind plan policy
          locale now fresh
        rw [Catalogue.perform, Catalogue.apply, applied] at sound'
        obtain ⟨rfl, rfl⟩ := sound'.tables_eq rfl
        exact .withSource (Table.enact_succeeds ..) (Table.enact_retains ..)
      · have failed := applyIn_of_stale apart sound.laid sound.idle chunkSize kind plan policy locale now fresh
        rw [Catalogue.perform, Catalogue.apply, failed] at unchanged
        exact unchanged rfl
  | reopen => exact unchanged (sound.reopen apart)

section History

variable {names : TableNames} {db : Database}

theorem performAll_take_succ (c : Catalogue) (operations : List Operation) (n : Nat) :
    c.performAll (operations.take (n + 1)) = c.performAll (operations.take n) ∨
      ∃ operation, c.performAll (operations.take (n + 1)) = (c.performAll (operations.take n)).perform operation := by
  rw [List.take_add_one]
  cases operations[n]? with
  | none => exact Or.inl (by simp)
  | some operation =>
      exact Or.inr ⟨operation, by rw [performAll_append]; rfl⟩

/-- Whatever operations are performed on a fresh catalogue, in each of its tables every new row has an id beyond
all that any row of the table ever had, even one that is gone by then; so an id that was met once never stands for
another row, and a message or a source that is gone never comes back. -/
theorem performAll_lasting (apart : names.Apart) (opened : openWith names .empty = (db, .ok c))
    (operations : List Operation) :
    ∃ (rows : Nat → SourceKind → List SourceRow) (messages : Nat → List MessageRow),
      (∀ n, (c.performAll (operations.take n)).Consistent (rows n) (messages n)) ∧
      (∀ kind, Lasting (·.id) (·.frame) fun n => rows n kind) ∧
      Lasting (·.id) (fun message => message) messages := by
  choose sameNames sources messages sound using fun n => performAll_sound apart opened (operations.take n)
  have apart' (n : Nat) : (c.performAll (operations.take n)).names.Apart := by rwa [sameNames]
  have step (n : Nat) : Succession (sources n) (sources (n + 1)) (messages n) (messages (n + 1)) := by
    rcases performAll_take_succ c operations n with same | ⟨operation, next⟩
    · have still := same ▸ sound (n + 1)
      obtain ⟨equal, equal'⟩ := still.tables_eq (sound n).laid.tables
      rw [equal, equal']
      exact .refl _ _
    · exact (sound n).perform_succession (apart' n) operation (next ▸ sound (n + 1))
  refine ⟨fun n kind => (sources n kind).sources, fun n => (messages n).messages,
    fun n => (sound n).consistent (apart' n), fun kind => ?_, ?_⟩
  · refine lasting_of_steps (fun n => (sources n kind).lastId)
      (fun _ _ => SourceRow.id_of_frame)
      (fun n => ((sound n).sound kind).ascending.imp fun below => Int.ne_of_lt below)
      (fun n => ((sound n).sound kind).bounded)
      (fun n => ((step n).sources kind).lastId)
      (fun n => ((step n).sources kind).kept)
  · refine lasting_of_steps (fun n => (messages n).lastId) (fun _ _ => congrArg _)
      (fun n => (sound n).messagesAscending.imp fun below => Int.ne_of_lt below)
      (fun n => (sound n).messagesBounded)
      (fun n => (step n).messages.lastId)
      (fun n message stored given => ⟨message, (step n).messages.kept message stored given, rfl⟩)

end History

def rebirth : List Operation :=
  [.insertSource .text none "a" "en" ⟨10, 0⟩, .insertMessage .text 1 "de" "A",
    .apply .text ⟨["b", "c", "a"], [], []⟩ .keep "en" ⟨20, 0⟩, .apply .text ⟨[], [], [1]⟩ .delete "en" ⟨30, 0⟩,
    .reopen, .insertSource .text none "a" "en" ⟨10, 0⟩, .insertMessage .text 2 "de" "A"]

theorem performAll_lasting_rebirth : TableNames.brief.Apart ∧
    openWith .brief .empty = (briefDatabase, .ok briefCatalogue) ∧
    (briefCatalogue.performAll (rebirth.take 3)).records .text =
      .ok [⟨1, "en", none, "a", false, ⟨10, 0⟩, none⟩] ∧
    (briefCatalogue.performAll (rebirth.take 3)).messages = .ok [⟨1, none, some 1, "de", "A", false⟩] ∧
    ∃ rows messages, (briefCatalogue.performAll (rebirth.take 6)).records .text = .ok rows ∧
      (briefCatalogue.performAll (rebirth.take 7)).messages = .ok messages ∧
      (∀ row ∈ rows, 1 < row.id) ∧ ∀ message ∈ messages, 1 < message.id := by
  obtain ⟨rows, messages, consistent, sources, stored⟩ := performAll_lasting brief_apart brief_opens rebirth
  have source : (briefCatalogue.performAll (rebirth.take 3)).records .text =
      .ok [⟨1, "en", none, "a", false, ⟨10, 0⟩, none⟩] := by decide +kernel
  have message : (briefCatalogue.performAll (rebirth.take 3)).messages =
      .ok [⟨1, none, some 1, "de", "A", false⟩] := by decide +kernel
  have noSource : (briefCatalogue.performAll (rebirth.take 5)).records .text = .ok [] := by decide +kernel
  have noMessage : (briefCatalogue.performAll (rebirth.take 6)).messages = .ok [] := by decide +kernel
  have old := Except.ok.inj (((consistent 3).records .text).symm.trans source)
  have oldMessage := Except.ok.inj ((consistent 3).stored.symm.trans message)
  have gone := Except.ok.inj (((consistent 5).records .text).symm.trans noSource)
  have goneMessage := Except.ok.inj ((consistent 6).stored.symm.trans noMessage)
  refine ⟨brief_apart, brief_opens, source, message, _, _, (consistent 6).records .text, (consistent 7).stored,
    fun row here => ?_, fun message here => ?_⟩
  · have beyond := ((sources .text).beyond 5 row here).resolve_left (by simp [gone])
    exact beyond 3 (by decide) ⟨1, "en", none, "a", false, ⟨10, 0⟩, none⟩ (by simp [old])
  · have beyond := (stored.beyond 6 message here).resolve_left (by simp [goneMessage])
    exact beyond 3 (by decide) ⟨1, none, some 1, "de", "A", false⟩ (by simp [oldMessage])

end Catalogue

end Phrasebook
