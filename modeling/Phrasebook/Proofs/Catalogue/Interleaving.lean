import Phrasebook.Proofs.Catalogue.Staleness

/-!
# Two reconciliations side by side

A reconciliation makes three moves: it takes a snapshot, it makes a plan, and it applies the plan. Each move is
whole, but between two of them another reconciliation of the same kind may move. Of the two here one, the `own`,
applies its plan last; the other is its `rival`.

* `Interleaving.Underway.step`, `Underway.play`: where the two have got to, move by move and after a trace.
* `found_active_iff`: a value that was found ends up with an active row unless the rival, after the own snapshot,
  has taken away or marked the row that was there for it.
-/

namespace Phrasebook

open Function (update)

structure Reconciliation where
  found : List String
  policy : MissingPolicy
  locale : String
  now : Instant

inductive Move
  | snapshot
  | plan
  | apply
  deriving DecidableEq, Repr

inductive Stage
  | ready
  | read (snapshot : Snapshot)
  | planned (plan : Plan)
  | ended (result : Except DatabaseError Outcome)

def Reconciliation.move? (run : Reconciliation) (kind : SourceKind) (c : Catalogue) :
    Stage → Move → Option (Catalogue × Stage)
  | .ready, .snapshot =>
    match c.snapshot kind with
    | .ok snapshot => some (c, .read snapshot)
    | .error e => some (c, .ended (.error e))
  | .read snapshot, .plan => some (c, .planned (Plan.make snapshot run.found))
  | .planned plan, .apply =>
    let (c, result) := c.apply kind plan run.policy run.locale run.now
    some (c, .ended result)
  | _, _ => none

inductive Party
  | own
  | rival
  deriving DecidableEq, Repr

structure Interleaving where
  catalogue : Catalogue
  stage : Party → Stage

namespace Interleaving

def start (c : Catalogue) : Interleaving := ⟨c, fun _ => .ready⟩

def outcome? (state : Interleaving) : Option Outcome :=
  match state.stage .own with
  | .ended (.ok outcome) => some outcome
  | _ => none

def step? (kind : SourceKind) (runs : Party → Reconciliation) (state : Interleaving)
    (label : Party × Move) : Option Interleaving :=
  ((runs label.1).move? kind state.catalogue (state.stage label.1) label.2).map fun moved =>
    ⟨moved.1, update state.stage label.1 moved.2⟩

def play? (kind : SourceKind) (runs : Party → Reconciliation) (state : Interleaving)
    (trace : List (Party × Move)) : Option Interleaving :=
  trace.foldlM (step? kind runs) state

end Interleaving

/-- Whether the rival has applied its plan after the own snapshot. -/
def Overtaken (trace : List (Party × Move)) : Prop :=
  [(Party.own, Move.snapshot), (Party.rival, Move.apply)].Sublist trace

instance (trace : List (Party × Move)) : Decidable (Overtaken trace) :=
  inferInstanceAs (Decidable (List.Sublist _ _))

theorem overtaken_concat {trace : List (Party × Move)} {label : Party × Move} :
    Overtaken (trace ++ [label]) ↔
      Overtaken trace ∨ (Party.own, Move.snapshot) ∈ trace ∧ label = (.rival, .apply) := by
  rw [Overtaken, Overtaken, List.sublist_append_iff]
  constructor
  · rintro ⟨front, back, split, inside, last⟩
    rcases List.sublist_singleton.1 last with rfl | rfl
    · rw [List.append_nil] at split
      exact Or.inl (split ▸ inside)
    · have parts : [(Party.own, Move.snapshot)] ++ [(Party.rival, Move.apply)] = front ++ [label] := split
      obtain ⟨rfl, same⟩ := List.append_inj' parts rfl
      exact Or.inr ⟨inside.subset (List.mem_singleton_self _), (List.singleton_inj.1 same).symm⟩
  · rintro (inside | ⟨member, rfl⟩)
    · exact ⟨_, [], (List.append_nil _).symm, inside, List.nil_sublist _⟩
    · exact ⟨[_], [_], rfl, List.singleton_sublist.2 member, .refl _⟩

theorem Overtaken.applied {trace : List (Party × Move)} (overtaken : Overtaken trace) :
    (Party.rival, Move.apply) ∈ trace :=
  overtaken.subset (by simp)

namespace Reconciliation

variable {run : Reconciliation} {kind : SourceKind} {c c' : Catalogue} {stage stage' : Stage} {move : Move}

theorem move?_cases (moved : run.move? kind c stage move = some (c', stage')) :
    (move = .snapshot ∧ stage = .ready ∧ c' = c ∧
      stage' = match c.snapshot kind with
        | .ok snapshot => .read snapshot
        | .error e => .ended (.error e)) ∨
    (move = .plan ∧ ∃ snapshot, stage = .read snapshot ∧ c' = c ∧
      stage' = .planned (Plan.make snapshot run.found)) ∨
    (move = .apply ∧ ∃ plan, stage = .planned plan ∧
      c' = (c.apply kind plan run.policy run.locale run.now).1 ∧
      stage' = .ended (c.apply kind plan run.policy run.locale run.now).2) := by
  unfold move? at moved
  split at moved
  · refine Or.inl ⟨rfl, rfl, ?_⟩
    split at moved <;> simp_all
  · simp_all
  · simp_all
  · cases moved

end Reconciliation

/-! ## How far the two have got -/

def Stage.Follows (table : Table) (found : List String) : Stage → Prop
  | .ready => True
  | .read snapshot => snapshot = (globalRows table.sources).map .ofRow
  | .planned plan => plan = table.planned found
  | .ended _ => False

namespace Interleaving

variable {kind : SourceKind} {runs : Party → Reconciliation} {c : Catalogue}
  {sources : SourceKind → Table} {messages : Table} {trace : List (Party × Move)}
  {state state' : Interleaving}

theorem play?_concat {label : Party × Move} : state.play? kind runs (trace ++ [label]) = some state' ↔
    ∃ between, state.play? kind runs trace = some between ∧ between.step? kind runs label = some state' := by
  rw [play?, List.foldlM_append]
  simp [play?, Option.bind_eq_some_iff]

theorem ended_of_apply {party : Party} (moved : state.step? kind runs (party, .apply) = some state') :
    ∃ result, state'.stage party = .ended result := by
  obtain ⟨⟨c', stage'⟩, made, rfl⟩ := Option.map_eq_some_iff.1 moved
  obtain ⟨move, -⟩ | ⟨move, -⟩ | ⟨-, plan, -, -, rfl⟩ := Reconciliation.move?_cases made
  · cases move
  · cases move
  · exact ⟨_, Function.update_self ..⟩

theorem unended_of_step {label : Party × Move} (moved : state.step? kind runs label = some state')
    (result : Except DatabaseError Outcome) : state.stage label.1 ≠ .ended result := by
  intro ended
  simp [step?, ended, Reconciliation.move?] at moved

theorem ended_stays {label : Party × Move} {party : Party} {result : Except DatabaseError Outcome}
    (moved : state.step? kind runs label = some state') (ended : state.stage party = .ended result) :
    state'.stage party = .ended result := by
  have other : party ≠ label.1 := fun same => unended_of_step moved result (same ▸ ended)
  obtain ⟨⟨c', stage'⟩, made, rfl⟩ := Option.map_eq_some_iff.1 moved
  simpa [other] using ended

/-- The rows when the rival has applied its plan, `table` being those at the start. -/
def rivalled (runs : Party → Reconciliation) (table : Table) : Table :=
  table.reconciled (runs .rival).found (runs .rival).policy (runs .rival).locale (runs .rival).now

def current (runs : Party → Reconciliation) (table : Table) (trace : List (Party × Move)) : Table :=
  if (.rival, .apply) ∈ trace then rivalled runs table else table

def seen (runs : Party → Reconciliation) (table : Table) (trace : List (Party × Move)) : Party → Table
  | .rival => table
  | .own => if Overtaken trace then table else current runs table trace

section

variable {table : Table} {label : Party × Move}

theorem current_concat (quiet : label ≠ (.rival, .apply)) :
    current runs table (trace ++ [label]) = current runs table trace := by
  simp only [current, List.mem_append, List.mem_singleton, quiet.symm, or_false]

theorem seen_concat (quiet : label ≠ (.rival, .apply)) :
    seen runs table (trace ++ [label]) = seen runs table trace := by
  funext party
  cases party with
  | rival => rfl
  | own => simp only [seen, overtaken_concat, quiet, and_false, or_false, current_concat quiet]

end

/-- Where the two have got to after a trace in which the own plan has not been applied: only the rival may have
changed something, and it has done so as if it were alone. -/
structure Underway (kind : SourceKind) (runs : Party → Reconciliation) (c : Catalogue)
    (sources : SourceKind → Table) (trace : List (Party × Move)) (state : Interleaving) : Prop where
  names : state.catalogue.names = c.names
  sound : ∃ messages, state.catalogue.Sound (update sources kind (current runs (sources kind) trace)) messages
  follows : ∀ party, (party = .own ∨ (.rival, .apply) ∉ trace) →
    (state.stage party).Follows (seen runs (sources kind) trace party) (runs party).found
  ended : (.rival, .apply) ∈ trace → ∃ result, state.stage .rival = .ended result
  begun : (.own, .snapshot) ∈ trace ↔ state.stage .own ≠ .ready

namespace Underway

theorem start (sound : c.Sound sources messages) : Underway kind runs c sources [] (.start c) where
  names := rfl
  sound := ⟨messages, by simpa [current, Interleaving.start] using sound⟩
  follows := fun _ _ => trivial
  ended := by simp
  begun := by simp [Interleaving.start]

theorem unapplied (underway : Underway kind runs c sources trace state)
    (unended : ∀ result, state.stage .rival ≠ .ended result) : (Party.rival, Move.apply) ∉ trace := by
  intro applied
  obtain ⟨result, ended⟩ := underway.ended applied
  exact unended result ended

theorem follows_of_unended (underway : Underway kind runs c sources trace state) {party : Party}
    (unended : ∀ result, state.stage party ≠ .ended result) :
    (state.stage party).Follows (seen runs (sources kind) trace party) (runs party).found := by
  refine underway.follows party ?_
  cases party with
  | own => exact Or.inl rfl
  | rival => exact Or.inr (underway.unapplied unended)

theorem seen_of_ready (underway : Underway kind runs c sources trace state) {party : Party}
    (ready : state.stage party = .ready) :
    seen runs (sources kind) trace party = current runs (sources kind) trace := by
  cases party with
  | rival =>
      rw [seen, current, if_neg (underway.unapplied (by simp [ready]))]
  | own =>
      have behind : ¬ Overtaken trace := fun overtaken =>
        underway.begun.1 (overtaken.subset (by simp)) ready
      rw [seen, if_neg behind]

theorem snapshot_eq (underway : Underway kind runs c sources trace state) (apart : c.names.Apart) :
    state.catalogue.snapshot kind =
      .ok ((globalRows (current runs (sources kind) trace).sources).map .ofRow) := by
  obtain ⟨messages, sound⟩ := underway.sound
  rw [sound.snapshot_eq (underway.names ▸ apart), Function.update_self]

theorem read (underway : Underway kind runs c sources trace state) {party : Party} {move : Move}
    {stage : Stage} (quiet : move ≠ .apply) (started : stage ≠ .ready)
    (begun : move = .snapshot ∨ state.stage party ≠ .ready)
    (unended : ∀ result, state.stage party ≠ .ended result)
    (follows : stage.Follows (seen runs (sources kind) trace party) (runs party).found) :
    Underway kind runs c sources (trace ++ [(party, move)])
      ⟨state.catalogue, update state.stage party stage⟩ := by
  have label : (party, move) ≠ (.rival, .apply) := by simp [quiet]
  have applied : (Party.rival, Move.apply) ∈ trace ++ [(party, move)] ↔ (.rival, .apply) ∈ trace := by
    simp [label.symm]
  -- The rows stay, and so does what each party has seen; only the stage of the one that moves is another.
  refine ⟨underway.names, ?_, ?_, ?_, ?_⟩
  · rw [current_concat label]
    exact underway.sound
  · intro other relevant
    rw [seen_concat label]
    rw [applied] at relevant
    by_cases same : other = party
    · subst same
      simpa using follows
    · simpa [same] using underway.follows other relevant
  · intro member
    obtain ⟨result, ended⟩ := underway.ended (applied.1 member)
    have same : party ≠ .rival := fun same => unended result (same ▸ ended)
    exact ⟨result, by simpa [same.symm] using ended⟩
  · rw [List.mem_append, underway.begun]
    cases party with
    | own => simpa [started, eq_comm] using begun.symm
    | rival => simp

theorem rivalApplies (underway : Underway kind runs c sources trace state) (apart : c.names.Apart) {plan : Plan}
    (planned : state.stage .rival = .planned plan) (result : Except DatabaseError Outcome) :
    Underway kind runs c sources (trace ++ [(.rival, .apply)])
      ⟨(state.catalogue.apply kind plan (runs .rival).policy (runs .rival).locale (runs .rival).now).1,
        update state.stage .rival (.ended result)⟩ := by
  have unapplied := underway.unapplied (by simp [planned])
  have still : current runs (sources kind) trace = sources kind := by rw [current, if_neg unapplied]
  have applied : (Party.rival, Move.apply) ∈ trace ++ [(.rival, .apply)] := by simp
  have made : (state.stage .rival).Follows _ _ := underway.follows_of_unended (by simp [planned])
  obtain ⟨messages, sound⟩ := underway.sound
  rw [still, Function.update_eq_self] at sound
  rw [planned, Stage.Follows, seen] at made
  subst made
  rw [sound.apply_planned (underway.names ▸ apart)]
  have reconciled := sound.reconciled kind (runs .rival).found (runs .rival).policy (runs .rival).locale
    (runs .rival).now
  -- From here on the own party is overtaken if it has its snapshot, and will see the new rows if it has not.
  refine ⟨underway.names, ?_, ?_, fun _ => ⟨result, by simp⟩, ?_⟩
  · rw [current, if_pos applied, rivalled]
    exact ⟨_, reconciled⟩
  · rintro party relevant
    cases party with
    | rival => exact absurd applied (relevant.resolve_left (by simp))
    | own =>
        by_cases begun : (Party.own, Move.snapshot) ∈ trace
        · have overtaken : Overtaken (trace ++ [(.rival, .apply)]) :=
            overtaken_concat.2 (Or.inr ⟨begun, rfl⟩)
          have follows := underway.follows .own (Or.inl rfl)
          simp only [seen, still, ite_self] at follows
          simpa [seen, overtaken] using follows
        · have ready : state.stage .own = .ready := by
            by_contra started
            exact begun (underway.begun.2 started)
          simp [ready, Stage.Follows]
  · rw [List.mem_append, underway.begun]
    simp

theorem step (underway : Underway kind runs c sources trace state) (apart : c.names.Apart)
    {label : Party × Move} (moved : state.step? kind runs label = some state') (early : label ≠ (.own, .apply)) :
    Underway kind runs c sources (trace ++ [label]) state' := by
  obtain ⟨party, move⟩ := label
  obtain ⟨⟨c', stage'⟩, made, rfl⟩ := Option.map_eq_some_iff.1 moved
  obtain ⟨rfl, ready, rfl, rfl⟩ | ⟨rfl, snapshot, read, rfl, rfl⟩ | ⟨rfl, plan, planned, rfl, rfl⟩ :=
    Reconciliation.move?_cases made
  · refine underway.read (by simp) ?_ (Or.inl rfl) (by simp [ready]) ?_
    · simp [underway.snapshot_eq apart]
    · simp [underway.snapshot_eq apart, Stage.Follows, underway.seen_of_ready ready]
  · have follows : (state.stage party).Follows _ _ := underway.follows_of_unended (by simp [read])
    refine underway.read (by simp) (by simp) (Or.inr (by simp [read])) (by simp [read]) ?_
    rw [read, Stage.Follows] at follows
    rw [Stage.Follows, follows, Table.planned]
  · cases party with
    | own => exact absurd rfl early
    | rival => exact underway.rivalApplies apart planned _

theorem play (sound : c.Sound sources messages) (apart : c.names.Apart)
    (played : (Interleaving.start c).play? kind runs trace = some state)
    (unended : ∀ result, state.stage .own ≠ .ended result) :
    Underway kind runs c sources trace state := by
  -- By induction on the trace. The own plan has not been applied before its end, or its party would have ended.
  induction trace using List.reverseRecOn generalizing state with
  | nil =>
      obtain rfl := Option.some.inj played
      exact .start sound
  | append_singleton trace label ih =>
      obtain ⟨between, before, moved⟩ := play?_concat.1 played
      have waiting : ∀ result, between.stage .own ≠ .ended result := fun result ended =>
        unended result (ended_stays moved ended)
      refine (ih before waiting).step apart moved ?_
      rintro rfl
      obtain ⟨result, ended⟩ := ended_of_apply moved
      exact unended result ended

theorem ownApplies (underway : Underway kind runs c sources trace state) (apart : c.names.Apart)
    (moved : state.step? kind runs (.own, .apply) = some state') :
    ∃ plan, plan = (seen runs (sources kind) trace .own).planned (runs .own).found ∧
      ((∃ outcome, state'.stage .own = .ended (.ok outcome)) ↔
        (current runs (sources kind) trace).Fresh plan.inserts) ∧
      ((∃ outcome, state'.stage .own = .ended (.ok outcome)) → ∃ messages,
        state'.catalogue.records kind = .ok (plan.enact (runs .own).policy kind (runs .own).locale (runs .own).now
          (current runs (sources kind) trace, messages)).1.sources) := by
  obtain ⟨⟨c', stage'⟩, made, rfl⟩ := Option.map_eq_some_iff.1 moved
  obtain ⟨move, -⟩ | ⟨move, -⟩ | ⟨-, plan, planned, rfl, rfl⟩ := Reconciliation.move?_cases made
  · cases move
  · cases move
  have apart' : state.catalogue.names.Apart := underway.names ▸ apart
  have follows := underway.follows .own (Or.inl rfl)
  rw [planned, Stage.Follows] at follows
  obtain ⟨messages, sound⟩ := underway.sound
  refine ⟨plan, follows, ?_⟩
  simp only [Function.update_self, Stage.ended.injEq]
  by_cases fresh : (current runs (sources kind) trace).Fresh plan.inserts
  · have fresh' : (update sources kind (current runs (sources kind) trace) kind).Fresh plan.inserts := by
      rwa [Function.update_self]
    obtain ⟨outcome, applied, -⟩ := Catalogue.applyIn_of_fresh apart' sound.laid sound.idle
      Catalogue.chunkSize kind plan (runs .own).policy (runs .own).locale (runs .own).now fresh'
    have enacted := sound.enact kind plan (runs .own).policy (runs .own).locale (runs .own).now fresh'
    rw [Catalogue.apply, applied]
    refine ⟨by simp [fresh], fun _ => ⟨messages, ?_⟩⟩
    rw [enacted.records_eq apart', Function.update_self, Function.update_self]
  · have failed := Catalogue.applyIn_of_stale apart' sound.laid sound.idle Catalogue.chunkSize kind plan
      (runs .own).policy (runs .own).locale (runs .own).now (by rwa [Function.update_self])
    rw [Catalogue.apply, failed]
    simp [fresh]

end Underway

theorem Underway.own_shows_iff (underway : Underway kind runs c sources trace state) (apart : c.names.Apart)
    (sound : c.Sound sources messages) (moved : state.step? kind runs (.own, .apply) = some state')
    (succeeded : ∃ outcome, state'.stage .own = .ended (.ok outcome)) :
    ∃ after, state'.catalogue.records kind = .ok after ∧ ∀ value ∈ (runs .own).found,
      (∃ row ∈ after, row.Shows value) ↔ ¬ (Overtaken trace ∧ ∃ row ∈ globalRows (sources kind).sources,
        row.source = value ∧ row.Unsettled (runs .rival).found (runs .rival).policy) := by
  obtain ⟨plan, rfl, -, applied⟩ := underway.ownApplies apart moved
  obtain ⟨messages', after⟩ := applied succeeded
  refine ⟨_, after, fun value listed => ?_⟩
  obtain ⟨_, sound'⟩ := underway.sound
  have now := sound'.sound kind
  rw [Function.update_self] at now
  by_cases overtaken : Overtaken trace
  · rw [current, if_pos overtaken.applied, rivalled] at now
    rw [seen, if_pos overtaken, current, if_pos overtaken.applied, rivalled,
      (sound.sound kind).active_of_reconciled now _ _ _ _ listed]
    simp [overtaken]
  · rw [seen, if_neg overtaken]
    simp only [overtaken, false_and, not_false_eq_true, iff_true]
    exact now.active_planned _ _ _ _ listed

/-! ## What was found -/

theorem play?_alone (party : Party) {snapshot : Snapshot} (answered : c.snapshot kind = .ok snapshot) :
    (start c).play? kind runs [(party, .snapshot), (party, .plan), (party, .apply)] =
      let (c', result) :=
        c.reconcile kind (runs party).found (runs party).policy (runs party).locale (runs party).now
      some ⟨c', update (start c).stage party (.ended (result.map (·.2)))⟩ := by
  simp only [play?, step?, start, Reconciliation.move?, Catalogue.reconcile, answered, List.foldlM_cons,
    List.foldlM_nil, Option.map_some, Option.bind_some, Option.bind_eq_bind, Option.pure_def,
    Function.update_self, Function.update_idem]
  cases (c.apply kind (Plan.make snapshot (runs party).found) (runs party).policy (runs party).locale
    (runs party).now).2 <;> rfl

end Interleaving

namespace Catalogue

theorem found_active_iff {names : TableNames} (apart : names.Apart) {db : Database} {c : Catalogue}
    (opened : openWith names .empty = (db, .ok c)) (operations : List Operation) (kind : SourceKind)
    (runs : Party → Reconciliation) {trace : List (Party × Move)} {state : Interleaving}
    (played : (Interleaving.start (c.performAll operations)).play? kind runs (trace ++ [(.own, .apply)]) =
      some state)
    (succeeded : ∃ outcome, state.stage .own = .ended (.ok outcome)) :
    ∃ before after, (c.performAll operations).records kind = .ok before ∧
      state.catalogue.records kind = .ok after ∧
      ∀ value ∈ (runs .own).found, (∃ row ∈ after, row.Shows value) ↔
        ¬ (Overtaken trace ∧ ∃ row ∈ globalRows before, row.source = value ∧
          row.Unsettled (runs .rival).found (runs .rival).policy) := by
  obtain ⟨sameNames, sources, messages, sound⟩ := performAll_sound apart opened operations
  have apart' : (c.performAll operations).names.Apart := by rwa [sameNames]
  obtain ⟨between, before, moved⟩ := Interleaving.play?_concat.1 played
  have underway := Interleaving.Underway.play sound apart' before (Interleaving.unended_of_step moved)
  obtain ⟨after, answered, shows⟩ := underway.own_shows_iff apart' sound moved succeeded
  exact ⟨_, after, sound.records_eq apart' kind, answered, shows⟩

def halfAgreed (policy : MissingPolicy) : Party → Reconciliation
  | .own => ⟨["a", "b"], .keep, "en", ⟨20, 0⟩⟩
  | .rival => ⟨["a"], policy, "en", ⟨20, 0⟩⟩

def bothStored : Catalogue :=
  briefCatalogue.performAll
    [.insertSource .text none "a" "en" ⟨10, 0⟩, .insertSource .text none "b" "en" ⟨10, 0⟩]

def overtaking : List (Party × Move) :=
  [(.own, .snapshot), (.rival, .snapshot), (.rival, .plan), (.rival, .apply), (.own, .plan)]

theorem overtaking_played (policy : MissingPolicy) (rows : List SourceRow)
    (computed : (((Interleaving.start bothStored).play? .text (halfAgreed policy)
      (overtaking ++ [(.own, .apply)])).map fun state =>
        (state.outcome?, (state.catalogue.records .text).toOption)) = some (some .zero, some rows)) :
    ∃ state, (Interleaving.start bothStored).play? .text (halfAgreed policy) (overtaking ++ [(.own, .apply)]) =
        some state ∧
      (∃ outcome, state.stage .own = .ended (.ok outcome)) ∧ state.catalogue.records .text = .ok rows := by
  obtain ⟨state, played, same⟩ := Option.map_eq_some_iff.1 computed
  obtain ⟨ended, answered⟩ := Prod.mk.injEq .. ▸ same
  refine ⟨state, played, ?_, ?_⟩
  · unfold Interleaving.outcome? at ended
    split at ended
    · exact ⟨_, ‹_›⟩
    · cases ended
  · cases answer : state.catalogue.records .text with
    | error e => simp [answer, Except.toOption] at answered
    | ok after => simpa [answer, Except.toOption] using answered

/-- The row of a value is marked after the own snapshot, and the own plan, made before, does not renew it. -/
theorem found_lost_halfAgreed : TableNames.brief.Apart ∧
    openWith .brief .empty = (briefDatabase, .ok briefCatalogue) ∧
    ∃ state, (Interleaving.start bothStored).play? .text (halfAgreed .mark) (overtaking ++ [(.own, .apply)]) =
        some state ∧
      (∃ outcome, state.stage .own = .ended (.ok outcome)) ∧ "b" ∈ (halfAgreed .mark .own).found ∧
      ∃ after, state.catalogue.records .text = .ok after ∧ ¬ ∃ row ∈ after, row.Shows "b" := by
  obtain ⟨state, played, succeeded, answered⟩ := overtaking_played .mark
    [⟨1, "en", none, "a", false, ⟨10, 0⟩, none⟩, ⟨2, "en", none, "b", true, ⟨10, 0⟩, some ⟨20, 0⟩⟩]
    (by decide +kernel)
  refine ⟨brief_apart, brief_opens, state, played, succeeded, by decide, _, answered, ?_⟩
  rintro ⟨row, member, shows⟩
  simp only [List.mem_cons, List.not_mem_nil, or_false] at member
  rcases member with rfl | rfl
  · exact absurd shows.source (by decide)
  · exact absurd shows.active (by decide)

theorem found_active_iff_halfAgreed : TableNames.brief.Apart ∧
    openWith .brief .empty = (briefDatabase, .ok briefCatalogue) ∧
    ∃ state, (Interleaving.start bothStored).play? .text (halfAgreed .delete) (overtaking ++ [(.own, .apply)]) =
        some state ∧
      (∃ outcome, state.stage .own = .ended (.ok outcome)) ∧
      ∃ after, state.catalogue.records .text = .ok after ∧ (∃ row ∈ after, row.Shows "a") ∧
        ¬ ∃ row ∈ after, row.Shows "b" := by
  have stored : bothStored.records .text =
      .ok [⟨1, "en", none, "a", false, ⟨10, 0⟩, none⟩, ⟨2, "en", none, "b", false, ⟨10, 0⟩, none⟩] := by
    decide +kernel
  obtain ⟨state, played, succeeded, -⟩ := overtaking_played .delete
    [⟨1, "en", none, "a", false, ⟨10, 0⟩, none⟩] (by decide +kernel)
  obtain ⟨before, after, same, answered, shows⟩ :=
    found_active_iff brief_apart brief_opens _ .text (halfAgreed .delete) played succeeded
  obtain rfl := Except.ok.inj (stored.symm.trans same)
  refine ⟨brief_apart, brief_opens, state, played, succeeded, after, answered, ?_, ?_⟩
  · refine (shows "a" (by decide)).2 ?_
    decide
  · rw [shows "b" (by decide), not_not]
    decide

end Catalogue

end Phrasebook
