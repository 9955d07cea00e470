import Phrasebook.Proofs.Catalogue.Apply

/-!
# What holds of the tables after any operations

`Sound` says that a catalogue is laid out, that no transaction is open, that the rows of each kind have
ascending ids, differ in namespace or source and are flagged as missing when they have a time for it, and that
each message refers to one row. Every operation keeps this, whether it succeeds or fails.
-/

namespace Phrasebook

open Function (update)

/-! ## Operations -/

inductive Operation
  | insertSource (kind : SourceKind) (scope? : Option String) (source locale : String) (now : Instant)
  | insertMessage (kind : SourceKind) (sourceId : Int) (locale message : String)
  | apply (kind : SourceKind) (plan : Plan) (policy : MissingPolicy) (locale : String) (now : Instant)
  | reopen

namespace Catalogue

def reopen (c : Catalogue) : Catalogue :=
  match openWith c.names c.database with
  | (_, .ok opened) => opened
  | (db, .error _) => { c with database := db }

def perform (c : Catalogue) : Operation → Catalogue
  | .insertSource kind scope? source locale now => (c.insertSource kind scope? source locale now).1
  | .insertMessage kind sourceId locale message => (c.insertMessage kind sourceId locale message).1
  | .apply kind plan policy locale now => (c.apply kind plan policy locale now).1
  | .reopen => c.reopen

def performAll (c : Catalogue) (operations : List Operation) : Catalogue := operations.foldl perform c

end Catalogue

/-! ## Sound tables -/

namespace Table

structure Sound (kind : SourceKind) (table : Table) : Prop where
  ascending : (table.sources.map (·.id)).Pairwise (· < ·)
  bounded : ∀ row ∈ table.sources, row.id ≤ table.lastId
  distinct : (table.sources.map fun row => (row.scope?, row.source)).Nodup
  flagged : ∀ row ∈ table.sources, row.missing = row.missingAt.isSome
  unscoped : kind = .text → ∀ row ∈ table.sources, row.scope? = none

namespace Sound

variable {kind : SourceKind} {table : Table} {now : Instant}

theorem empty (name : String) (shape : Shape) : (Table.empty name shape).Sound kind where
  ascending := .nil
  bounded := by simp [Table.empty]
  distinct := .nil
  flagged := by simp [Table.empty]
  unscoped := by simp [Table.empty]

theorem add (sound : table.Sound kind) {locale : String} {scope? : Option String} {source : String}
    (free : ¬ table.Holds scope? source) (fits : kind = .text → scope? = none) :
    (table.add locale scope? source now).Sound kind where
  ascending := by
    simp only [Table.add, List.map_append, List.pairwise_append, List.map_cons, List.map_nil]
    refine ⟨sound.ascending, by simp, ?_⟩
    intro id member new here
    obtain ⟨row, stored, rfl⟩ := List.mem_map.1 member
    have bound := sound.bounded row stored
    simp only [List.mem_cons, List.not_mem_nil, or_false] at here
    rw [here]
    exact Int.lt_add_one_iff.2 bound
  bounded := by
    intro row member
    rcases List.mem_append.1 member with old | new
    · have bound := sound.bounded row old
      simp only [Table.add]
      omega
    · have same := List.mem_singleton.1 new
      subst same
      exact Int.le_refl _
  distinct := by
    simp only [Table.add, List.map_append, List.map_cons, List.map_nil]
    refine List.nodup_append.2 ⟨sound.distinct, List.nodup_singleton _, ?_⟩
    rintro key member other here rfl
    obtain ⟨row, stored, same⟩ := List.mem_map.1 member
    rw [List.mem_singleton.1 here, Prod.mk.injEq] at same
    exact free ⟨row, stored, same.1, same.2⟩
  flagged := by
    intro row member
    rcases List.mem_append.1 member with old | new
    · exact sound.flagged row old
    · rw [List.mem_singleton.1 new]
      rfl
  unscoped := by
    intro text row member
    rcases List.mem_append.1 member with old | new
    · exact sound.unscoped text row old
    · rw [List.mem_singleton.1 new]
      exact fits text

theorem addAll (sound : table.Sound kind) {locale : String} {values : List String}
    (fresh : table.Fresh values) : (table.addAll locale now values).Sound kind := by
  induction values generalizing table with
  | nil => exact sound
  | cons value values ih =>
      obtain ⟨free, rest⟩ := (Table.fresh_cons locale now).1 fresh
      exact ih (sound.add free fun _ => rfl) rest

theorem mapSources (sound : table.Sound kind) {f : SourceRow → SourceRow}
    (id : ∀ row, (f row).id = row.id) (scope : ∀ row, (f row).scope? = row.scope?)
    (source : ∀ row, (f row).source = row.source)
    (flag : ∀ row, row.missing = row.missingAt.isSome → (f row).missing = (f row).missingAt.isSome) :
    (table.mapSources f).Sound kind where
  ascending := by simpa [Table.mapSources, Function.comp_def, id] using sound.ascending
  bounded := by simpa [Table.mapSources, id] using sound.bounded
  distinct := by simpa [Table.mapSources, Function.comp_def, scope, source] using sound.distinct
  flagged := by
    intro row member
    obtain ⟨old, stored, rfl⟩ := List.mem_map.1 member
    exact flag old (sound.flagged old stored)
  unscoped := by simpa [Table.mapSources, scope] using sound.unscoped

theorem renewed (sound : table.Sound kind) (ids : List Int) :
    (table.mapSources (SourceRow.renewed ids)).Sound kind := by
  refine sound.mapSources ?_ ?_ ?_ ?_
  all_goals
    intro row
    unfold SourceRow.renewed
    split <;> simp

theorem marked (sound : table.Sound kind) (ids : List Int) :
    (table.mapSources (SourceRow.marked ids now)).Sound kind := by
  refine sound.mapSources ?_ ?_ ?_ ?_
  all_goals
    intro row
    unfold SourceRow.marked
    split <;> simp

theorem without (sound : table.Sound kind) (ids : List Int) :
    (Database.Table.without table ids).Sound kind := by
  have kept := List.filter_sublist (l := table.sources) (p := fun row => !ids.contains row.id)
  exact {
    ascending := sound.ascending.sublist (kept.map _)
    bounded := fun row member => sound.bounded row (kept.subset member)
    distinct := sound.distinct.sublist (kept.map _)
    flagged := fun row member => sound.flagged row (kept.subset member)
    unscoped := fun text row member => sound.unscoped text row (kept.subset member) }

end Sound

end Table

/-! ## A sound catalogue -/

/-- Whether a message refers to the source of a kind and an id, and to no other. -/
structure MessageRow.RefersTo (message : MessageRow) (kind : SourceKind) (id : Int) : Prop where
  set : message.sourceId? kind = some id
  alone : ∀ other, other ≠ kind → message.sourceId? other = none

structure Catalogue.Sound (c : Catalogue) (sources : SourceKind → Table) (messages : Table) : Prop where
  laid : Laid c.names c.database sources messages
  idle : c.before = none
  sound : ∀ kind, (sources kind).Sound kind
  messagesAscending : (messages.messages.map (·.id)).Pairwise (· < ·)
  messagesBounded : ∀ message ∈ messages.messages, message.id ≤ messages.lastId
  attached : ∀ message ∈ messages.messages, ∃ kind, ∃ row ∈ (sources kind).sources,
    message.RefersTo kind row.id

namespace Catalogue.Sound

variable {c : Catalogue} {sources : SourceKind → Table} {messages : Table}

theorem withSource (sound : c.Sound sources messages) (kind : SourceKind) {table messages' : Table}
    (form : table.SameForm (sources kind)) (alone : table.messages = []) (kept : table.Sound kind)
    (messagesForm : messages'.SameForm messages) (messagesAlone : messages'.sources = [])
    (lastId : messages'.lastId = messages.lastId) (fewer : messages'.messages.Sublist messages.messages)
    (attached : ∀ message ∈ messages'.messages, ∀ row ∈ (sources kind).sources,
      message.RefersTo kind row.id → ∃ row' ∈ table.sources, row'.id = row.id) :
    (c.withTables (update sources kind table) messages').Sound (update sources kind table) messages' where
  laid := sound.laid.withSource kind form alone messagesForm messagesAlone
  idle := sound.idle
  sound := by
    intro other
    by_cases same : other = kind
    · subst same
      simpa using kept
    · simpa [same] using sound.sound other
  messagesAscending := sound.messagesAscending.sublist (fewer.map _)
  messagesBounded := fun message member => by
    rw [lastId]
    exact sound.messagesBounded message (fewer.subset member)
  attached := by
    intro message member
    obtain ⟨other, row, stored, refers⟩ := sound.attached message (fewer.subset member)
    by_cases same : other = kind
    · subst same
      obtain ⟨row', stored', id⟩ := attached message member row stored refers
      exact ⟨other, row', by simpa using stored', by rwa [id]⟩
    · exact ⟨other, row, by simpa [same] using stored, refers⟩

theorem withMessage (sound : c.Sound sources messages) {message : MessageRow} {kind : SourceKind}
    {row : SourceRow} (stored : row ∈ (sources kind).sources) (refers : message.RefersTo kind row.id)
    (id : message.id = messages.lastId + 1) :
    (c.withTables sources
      { messages with lastId := message.id, messages := messages.messages ++ [message] }).Sound sources
      { messages with lastId := message.id, messages := messages.messages ++ [message] } where
  laid := sound.laid.withTables (fun _ => .refl _) sound.laid.sourceMessages ⟨rfl, rfl⟩
    sound.laid.messagesSources
  idle := sound.idle
  sound := sound.sound
  messagesAscending := by
    rw [List.map_append, List.pairwise_append]
    refine ⟨sound.messagesAscending, List.pairwise_singleton _ _, ?_⟩
    intro earlier member new here
    obtain ⟨old, stored, rfl⟩ := List.mem_map.1 member
    have bound := sound.messagesBounded old stored
    rw [List.mem_singleton.1 here]
    simp only [id]
    omega
  messagesBounded := by
    intro other member
    rcases List.mem_append.1 member with old | new
    · have bound := sound.messagesBounded other old
      simp only [id]
      omega
    · have same := List.mem_singleton.1 new
      subst same
      exact Int.le_refl _
  attached := by
    intro other member
    rcases List.mem_append.1 member with old | new
    · exact sound.attached other old
    · rw [List.mem_singleton.1 new]
      exact ⟨kind, row, stored, refers⟩

end Catalogue.Sound

/-! ## Each operation keeps it -/

structure IdsGrow (sources sources' : SourceKind → Table) (messages messages' : Table) : Prop where
  sources : ∀ kind, (sources kind).lastId ≤ (sources' kind).lastId
  messages : messages.lastId ≤ messages'.lastId

namespace IdsGrow

theorem refl (sources : SourceKind → Table) (messages : Table) :
    IdsGrow sources sources messages messages := ⟨fun _ => Int.le_refl _, Int.le_refl _⟩

theorem trans {a b c : SourceKind → Table} {x y z : Table} (first : IdsGrow a b x y)
    (second : IdsGrow b c y z) : IdsGrow a c x z :=
  ⟨fun kind => Int.le_trans (first.sources kind) (second.sources kind),
    Int.le_trans first.messages second.messages⟩

theorem withSource {sources : SourceKind → Table} {messages messages' table : Table} {kind : SourceKind}
    (grown : (sources kind).lastId ≤ table.lastId) (same : messages'.lastId = messages.lastId) :
    IdsGrow sources (update sources kind table) messages messages' := by
  refine ⟨fun other => ?_, Int.le_of_eq same.symm⟩
  by_cases here : other = kind
  · subst here
    simpa using grown
  · simp [here]

end IdsGrow

namespace Catalogue

theorem insert_fst (c : Catalogue) (table : String) (statement : Statement) :
    (c.insert table statement).1 =
      match statement.run c.database with
      | .ok (db, _) => { c with database := db }
      | .error _ => c := by
  unfold insert run runAll
  cases statement.run c.database with
  | error e => rfl
  | ok result => rfl

namespace Sound

variable {c : Catalogue} {sources : SourceKind → Table} {messages : Table}

theorem insertSource (sound : c.Sound sources messages) (apart : c.names.Apart) (kind : SourceKind)
    (scope? : Option String) (source locale : String) (now : Instant) :
    ∃ sources' messages', (c.insertSource kind scope? source locale now).1.Sound sources' messages' ∧
      (c.insertSource kind scope? source locale now).1.names = c.names ∧
      IdsGrow sources sources' messages messages' := by
  let owner := if kind = .grouped then scope? else none
  have fits : kind = .text → owner = none := fun text => by simp [owner, text]
  have ran := sound.laid.insertSource_run apart kind fits source locale now
  rw [Catalogue.insertSource, insert_fst, ran]
  by_cases held : (sources kind).Holds owner source
  · rw [if_pos held]
    exact ⟨sources, messages, sound, rfl, .refl _ _⟩
  · rw [if_neg held]
    refine ⟨_, _, sound.withSource kind (Table.add_sameForm _ _ _) (sound.laid.sourceMessages kind)
      ((sound.sound kind).add held fits) (.refl _) sound.laid.messagesSources rfl (.refl _) ?_, rfl, ?_⟩
    · exact fun _ _ row stored _ => ⟨row, List.mem_append_left _ stored, rfl⟩
    · refine .withSource ?_ rfl
      simp only [Table.add]
      omega

theorem insertMessage (sound : c.Sound sources messages) (apart : c.names.Apart) (kind : SourceKind)
    (sourceId : Int) (locale message : String) :
    ∃ sources' messages', (c.insertMessage kind sourceId locale message).1.Sound sources' messages' ∧
      (c.insertMessage kind sourceId locale message).1.names = c.names ∧
      IdsGrow sources sources' messages messages' := by
  rw [Catalogue.insertMessage, insert_fst, sound.laid.insertMessage_run apart kind]
  by_cases present : sourceId ∈ (sources kind).sources.map (·.id)
  · rw [if_pos present]
    obtain ⟨row, stored, rfl⟩ := List.mem_map.1 present
    have refers : (Laid.newMessage messages kind row.id locale message).RefersTo kind row.id := by
      refine ⟨?_, fun other differ => ?_⟩
      · cases kind <;> rfl
      · cases kind <;> cases other <;> first | rfl | exact absurd rfl differ
    refine ⟨_, _, sound.withMessage stored refers rfl, rfl, fun _ => Int.le_refl _, ?_⟩
    simp only [Laid.newMessage]
    omega
  · rw [if_neg present]
    exact ⟨sources, messages, sound, rfl, .refl _ _⟩

theorem enact (sound : c.Sound sources messages) (kind : SourceKind) (plan : Plan)
    (policy : MissingPolicy) (locale : String) (now : Instant)
    (fresh : (sources kind).Fresh plan.inserts) :
    (c.withTables (update sources kind (plan.enact policy kind locale now (sources kind, messages)).1)
      (plan.enact policy kind locale now (sources kind, messages)).2).Sound
      (update sources kind (plan.enact policy kind locale now (sources kind, messages)).1)
      (plan.enact policy kind locale now (sources kind, messages)).2 := by
  let table := plan.refresh locale now (sources kind)
  have refreshed : table.Sound kind := ((sound.sound kind).addAll fresh).renewed plan.renew
  have form : table.SameForm (sources kind) :=
    (Table.mapSources_sameForm _ _).trans (Table.addAll_sameForm plan.inserts)
  have alone : table.messages = [] :=
    (Table.addAll_messages plan.inserts).trans (sound.laid.sourceMessages kind)
  -- Inserting and renewing keep all ids, so messages lose their rows in the last step at most.
  have survives : ∀ row ∈ (sources kind).sources, row.id ∈ table.sources.map (·.id) := by
    intro row stored
    have still : row ∈ ((sources kind).addAll locale now plan.inserts).sources := by
      rw [Table.addAll_eq]
      exact List.mem_append_left _ stored
    refine List.mem_map.2 ⟨_, List.mem_map_of_mem still, SourceRow.renewed_id _ _⟩
  have present : ∀ row ∈ (sources kind).sources, ∃ row' ∈ table.sources, row'.id = row.id :=
    fun row stored => List.mem_map.1 (survives row stored)
  cases policy with
  | keep =>
      exact sound.withSource kind form alone refreshed (.refl _) sound.laid.messagesSources rfl (.refl _)
        fun _ _ row stored _ => present row stored
  | mark =>
      refine sound.withSource kind ((Table.mapSources_sameForm _ _).trans form) alone
        (refreshed.marked plan.pending) (.refl _) sound.laid.messagesSources rfl (.refl _) ?_
      intro _ _ row stored _
      obtain ⟨row', stored', id⟩ := present row stored
      refine ⟨row'.marked plan.pending now, List.mem_map_of_mem stored', ?_⟩
      rw [← id]
      unfold SourceRow.marked
      split <;> rfl
  | delete =>
      have emptied : (Database.Table.without table plan.pending).messages = [] := by
        simp [Database.Table.without, alone]
      refine sound.withSource kind ((Table.without_sameForm _ _).trans form) emptied
        (refreshed.without plan.pending) ⟨rfl, rfl⟩ sound.laid.messagesSources rfl List.filter_sublist ?_
      intro message kept row stored refers
      obtain ⟨row', stored', id⟩ := present row stored
      refine ⟨row', List.mem_filter.2 ⟨stored', ?_⟩, id⟩
      -- The message is still there, so its source was not chosen.
      have spared := (List.mem_filter.1 kept).2
      rw [refers.set, Option.any_some] at spared
      have listed : row.id ∈ table.ids := List.mem_append_left _ (survives row stored)
      simp only [Bool.not_eq_true', decide_eq_false_iff_not, Table.mem_chosen, not_and] at spared
      rw [id]
      simpa using spared listed

theorem apply (sound : c.Sound sources messages) (apart : c.names.Apart) (kind : SourceKind) (plan : Plan)
    (policy : MissingPolicy) (locale : String) (now : Instant) :
    ∃ sources' messages', (c.apply kind plan policy locale now).1.Sound sources' messages' ∧
      (c.apply kind plan policy locale now).1.names = c.names ∧
      IdsGrow sources sources' messages messages' := by
  by_cases fresh : (sources kind).Fresh plan.inserts
  · obtain ⟨outcome, applied, -⟩ := applyIn_of_fresh apart sound.laid sound.idle chunkSize kind plan policy
      locale now fresh
    rw [Catalogue.apply, applied]
    refine ⟨_, _, sound.enact kind plan policy locale now fresh, rfl, ?_⟩
    have grown : (sources kind).lastId ≤ ((sources kind).addAll locale now plan.inserts).lastId := by
      rw [Table.addAll_eq]
      exact Int.le_add_of_nonneg_right (Int.natCast_nonneg _)
    cases policy <;> exact .withSource grown rfl
  · have failed := applyIn_of_stale apart sound.laid sound.idle chunkSize kind plan policy locale now fresh
    rw [Catalogue.apply, failed]
    exact ⟨sources, messages, sound, rfl, .refl _ _⟩

theorem reopen (sound : c.Sound sources messages) (apart : c.names.Apart) : c.reopen = c := by
  rw [Catalogue.reopen, openWith_of_laid apart sound.laid, ← sound.idle]

theorem perform (sound : c.Sound sources messages) (apart : c.names.Apart) (operation : Operation) :
    ∃ sources' messages', (c.perform operation).Sound sources' messages' ∧
      (c.perform operation).names = c.names ∧ IdsGrow sources sources' messages messages' := by
  cases operation with
  | insertSource kind scope? source locale now =>
      exact sound.insertSource apart kind scope? source locale now
  | insertMessage kind sourceId locale message =>
      exact sound.insertMessage apart kind sourceId locale message
  | apply kind plan policy locale now => exact sound.apply apart kind plan policy locale now
  | reopen =>
      rw [Catalogue.perform, sound.reopen apart]
      exact ⟨sources, messages, sound, rfl, .refl _ _⟩

theorem performAll (sound : c.Sound sources messages) (apart : c.names.Apart)
    (operations : List Operation) :
    ∃ sources' messages', (c.performAll operations).Sound sources' messages' ∧
      (c.performAll operations).names = c.names ∧ IdsGrow sources sources' messages messages' := by
  induction operations generalizing c sources messages with
  | nil => exact ⟨sources, messages, sound, rfl, .refl _ _⟩
  | cons operation operations ih =>
      obtain ⟨sources₁, messages₁, sound₁, names₁, grow₁⟩ := sound.perform apart operation
      obtain ⟨sources₂, messages₂, sound₂, names₂, grow₂⟩ := ih sound₁ (by rwa [names₁])
      exact ⟨sources₂, messages₂, sound₂, names₂.trans names₁, grow₁.trans grow₂⟩

end Sound

theorem openWith_sound {names : TableNames} (apart : names.Apart) {db : Database} {c : Catalogue}
    (opened : openWith names .empty = (db, .ok c)) :
    c.names = names ∧ c.Sound (freshSources names) (freshMessages names) := by
  obtain ⟨rfl, laid⟩ := openWith_empty apart opened
  exact ⟨rfl, {
    laid := laid
    idle := rfl
    sound := fun _ => .empty _ _
    messagesAscending := .nil
    messagesBounded := by simp [freshMessages, Table.empty]
    attached := by simp [freshMessages, Table.empty] }⟩

theorem performAll_sound {names : TableNames} (apart : names.Apart) {db : Database} {c : Catalogue}
    (opened : openWith names .empty = (db, .ok c)) (operations : List Operation) :
    (c.performAll operations).names = names ∧
      ∃ sources messages, (c.performAll operations).Sound sources messages := by
  obtain ⟨rfl, sound⟩ := openWith_sound apart opened
  obtain ⟨sources, messages, sound', sameNames, -⟩ := sound.performAll apart operations
  exact ⟨sameNames, sources, messages, sound'⟩

end Catalogue

end Phrasebook
