import Mathlib.Data.List.Induction
import Phrasebook.Proofs.Catalogue.Round

/-!
# What rounds leave, read off their history

A run of rounds reconciles kinds one after another. The row of a value is told by the rounds of its kind alone:
the last that found it, the one that began its present life, and the first that marked it since.

* `Life`, `Absence`: what the history says about a row; `Lapsed`: what it says about a value without one.
* `reconcileAll_history`: the records that a run leaves are those that are traced.
-/

namespace Phrasebook

open Function (update)

structure Round where
  kind : SourceKind
  found : List String
  policy : MissingPolicy
  locale : String
  now : Instant

def Catalogue.reconcileAll (c : Catalogue) (rounds : List Round) : Catalogue :=
  rounds.foldl (fun c round => (c.reconcile round.kind round.found round.policy round.locale round.now).1) c

/-! ## Reading a history -/

def RoundAt (rounds : List Round) (sort : Round → Prop) (i : Nat) : Prop :=
  ∃ round, rounds[i]? = some round ∧ sort round

def FoundAt (rounds : List Round) (kind : SourceKind) (value : String) (i : Nat) : Prop :=
  RoundAt rounds (fun round => round.kind = kind ∧ value ∈ round.found) i

def PolicyAt (rounds : List Round) (kind : SourceKind) (policy : MissingPolicy) (i : Nat) : Prop :=
  RoundAt rounds (fun round => round.kind = kind ∧ round.policy = policy) i

structure LastFound (rounds : List Round) (kind : SourceKind) (value : String) (i : Nat) : Prop where
  finds : FoundAt rounds kind value i
  last : ∀ j, i < j → ¬ FoundAt rounds kind value j

/-- The earliest round that found a value, up to `i`, from which no round up to `i` deleted it. -/
structure Origin (rounds : List Round) (kind : SourceKind) (value : String) (i f : Nat) : Prop where
  le : f ≤ i
  finds : FoundAt rounds kind value f
  unbroken : ∀ j, f < j → j < i → PolicyAt rounds kind .delete j → FoundAt rounds kind value j
  earliest : ∀ e, e < f → FoundAt rounds kind value e →
    ∃ j, e < j ∧ j < i ∧ PolicyAt rounds kind .delete j ∧ ¬ FoundAt rounds kind value j

/-- The first round after `i` that marks what it does not find. -/
structure FirstMark (rounds : List Round) (kind : SourceKind) (i m : Nat) : Prop where
  after : i < m
  marks : PolicyAt rounds kind .mark m
  first : ∀ j, i < j → j < m → ¬ PolicyAt rounds kind .mark j

structure Life (rounds : List Round) (kind : SourceKind) (row : SourceRow) (i f : Nat) : Prop where
  last : LastFound rounds kind row.source i
  kept : ∀ j, i < j → ¬ PolicyAt rounds kind .delete j
  origin : Origin rounds kind row.source i f
  fields : ∀ round, rounds[f]? = some round → row.locale = round.locale ∧ row.createdAt = round.now

structure Absence (rounds : List Round) (kind : SourceKind) (row : SourceRow) (i : Nat) : Prop where
  missing : row.missing = true ↔ ∃ m, i < m ∧ PolicyAt rounds kind .mark m
  marked : ∀ m round, FirstMark rounds kind i m → rounds[m]? = some round → row.missingAt = some round.now
  unmarked : (∀ m, i < m → ¬ PolicyAt rounds kind .mark m) → row.missingAt = none

/-- Every round that found the value was followed by one that deleted it. -/
def Lapsed (rounds : List Round) (kind : SourceKind) (value : String) : Prop :=
  ∀ e, FoundAt rounds kind value e →
    ∃ j, e < j ∧ PolicyAt rounds kind .delete j ∧ ¬ FoundAt rounds kind value j

section Reading

variable {rounds : List Round} {round : Round} {sort : Round → Prop} {kind : SourceKind} {value : String}
  {policy : MissingPolicy} {i : Nat}

theorem RoundAt.lt (here : RoundAt rounds sort i) : i < rounds.length := by
  obtain ⟨_, present, -⟩ := here
  exact (List.getElem?_eq_some_iff.1 present).1

theorem roundAt_concat :
    RoundAt (rounds ++ [round]) sort i ↔ RoundAt rounds sort i ∨ i = rounds.length ∧ sort round := by
  constructor
  · rintro ⟨other, present, holds⟩
    rw [List.getElem?_append] at present
    split at present
    · exact Or.inl ⟨other, present, holds⟩
    · rename_i late
      obtain ⟨bound, rfl⟩ := List.getElem?_eq_some_iff.1 present
      rw [List.length_singleton] at bound
      refine Or.inr ⟨by omega, ?_⟩
      simpa using holds
  · rintro (⟨other, present, holds⟩ | ⟨rfl, holds⟩)
    · have bound := (List.getElem?_eq_some_iff.1 present).1
      exact ⟨other, by rwa [List.getElem?_append_left bound], holds⟩
    · exact ⟨round, List.getElem?_concat_length, holds⟩

theorem getElem?_of_roundAt_concat {other : Round} (bound : i < rounds.length)
    (present : (rounds ++ [round])[i]? = some other) : rounds[i]? = some other := by
  rwa [List.getElem?_append_left bound] at present

theorem foundAt_concat : FoundAt (rounds ++ [round]) kind value i ↔
    FoundAt rounds kind value i ∨ i = rounds.length ∧ round.kind = kind ∧ value ∈ round.found :=
  roundAt_concat

theorem policyAt_concat : PolicyAt (rounds ++ [round]) kind policy i ↔
    PolicyAt rounds kind policy i ∨ i = rounds.length ∧ round.kind = kind ∧ round.policy = policy :=
  roundAt_concat

end Reading

/-! ## One more round -/

section Step

variable {rounds : List Round} {round : Round} {kind : SourceKind} {value : String} {row : SourceRow}
  {i f : Nat}

theorem no_round_after {sort : Round → Prop} {j : Nat} (after : rounds.length < j) :
    ¬ RoundAt (rounds ++ [round]) sort j := by
  intro here
  have bound := here.lt
  rw [List.length_append, List.length_singleton] at bound
  omega

theorem foundAt_last (same : round.kind = kind) (found : value ∈ round.found) :
    LastFound (rounds ++ [round]) kind value rounds.length :=
  ⟨foundAt_concat.2 (Or.inr ⟨rfl, same, found⟩), fun _ after => no_round_after after⟩

theorem not_foundAt_concat {j : Nat} (before : j < rounds.length) (apart : ¬ FoundAt rounds kind value j) :
    ¬ FoundAt (rounds ++ [round]) kind value j := by
  intro here
  rcases foundAt_concat.1 here with old | ⟨rfl, -⟩
  · exact apart old
  · exact Nat.lt_irrefl _ before

theorem Lapsed.found (lapsed : Lapsed rounds kind row.source) (same : round.kind = kind)
    (found : row.source ∈ round.found) (locale : row.locale = round.locale)
    (created : row.createdAt = round.now) :
    Life (rounds ++ [round]) kind row rounds.length rounds.length where
  last := foundAt_last same found
  kept := fun _ after => no_round_after after
  origin := by
    refine ⟨Nat.le_refl _, (foundAt_last same found).finds, fun j after before => by omega, ?_⟩
    intro e before earlier
    rcases foundAt_concat.1 earlier with old | ⟨rfl, -⟩
    · obtain ⟨j, after, deletes, apart⟩ := lapsed e old
      exact ⟨j, after, deletes.lt, policyAt_concat.2 (Or.inl deletes), not_foundAt_concat deletes.lt apart⟩
    · exact absurd before (Nat.lt_irrefl _)
  fields := by
    intro other present
    rw [List.getElem?_concat_length, Option.some.injEq] at present
    subst present
    exact ⟨locale, created⟩

theorem Life.found (life : Life rounds kind row i f) (same : round.kind = kind)
    (found : row.source ∈ round.found) {row' : SourceRow} (frame : row'.frame = row.frame) :
    Life (rounds ++ [round]) kind row' rounds.length f := by
  simp only [SourceRow.frame, Prod.mk.injEq] at frame
  obtain ⟨-, locale, -, source, created⟩ := frame
  have latest := life.last.finds.lt
  have begun : f < rounds.length := Nat.lt_of_le_of_lt life.origin.le latest
  rw [← source] at found
  refine ⟨foundAt_last same found, fun _ after => no_round_after after, ?_, ?_⟩
  · rw [source]
    refine ⟨Nat.le_of_lt begun, foundAt_concat.2 (Or.inl life.origin.finds), ?_, ?_⟩
    · intro j after before deletes
      rcases policyAt_concat.1 deletes with old | ⟨rfl, -⟩
      · -- The rounds after `i` do not delete, and those before it that do have found the value.
        rcases Nat.lt_trichotomy j i with earlier | rfl | later
        · exact foundAt_concat.2 (Or.inl (life.origin.unbroken j after earlier old))
        · exact foundAt_concat.2 (Or.inl life.last.finds)
        · exact absurd old (life.kept j later)
      · exact absurd before (Nat.lt_irrefl _)
    · intro e before earlier
      rcases foundAt_concat.1 earlier with old | ⟨rfl, -⟩
      · obtain ⟨j, after, until', deletes, apart⟩ := life.origin.earliest e before old
        exact ⟨j, after, Nat.lt_trans until' latest, policyAt_concat.2 (Or.inl deletes),
          not_foundAt_concat deletes.lt apart⟩
      · omega
  · rw [locale, created]
    exact fun other present => life.fields other (getElem?_of_roundAt_concat begun present)

theorem Life.pass (life : Life rounds kind row i f)
    (unfound : ¬ (round.kind = kind ∧ row.source ∈ round.found))
    (spared : ¬ (round.kind = kind ∧ round.policy = .delete)) {row' : SourceRow}
    (frame : row'.frame = row.frame) : Life (rounds ++ [round]) kind row' i f := by
  simp only [SourceRow.frame, Prod.mk.injEq] at frame
  obtain ⟨-, locale, -, source, created⟩ := frame
  have latest := life.last.finds.lt
  have begun : f < rounds.length := Nat.lt_of_le_of_lt life.origin.le latest
  have foundAt : ∀ j, FoundAt (rounds ++ [round]) kind row.source j ↔ FoundAt rounds kind row.source j := by
    intro j
    rw [foundAt_concat, or_iff_left fun here => unfound here.2]
  have deleteAt : ∀ j, PolicyAt (rounds ++ [round]) kind .delete j ↔ PolicyAt rounds kind .delete j := by
    intro j
    rw [policyAt_concat, or_iff_left fun here => spared here.2]
  refine ⟨?_, ?_, ?_, ?_⟩
  · rw [source]
    exact ⟨(foundAt i).2 life.last.finds, fun j after => mt (foundAt j).1 (life.last.last j after)⟩
  · exact fun j after => mt (deleteAt j).1 (life.kept j after)
  · rw [source]
    constructor
    · exact life.origin.le
    · exact (foundAt f).2 life.origin.finds
    · simpa only [foundAt, deleteAt] using life.origin.unbroken
    · simpa only [foundAt, deleteAt] using life.origin.earliest
  · rw [locale, created]
    exact fun other present => life.fields other (getElem?_of_roundAt_concat begun present)

theorem lapsed_of_delete (same : round.kind = kind) (unfound : value ∉ round.found)
    (delete : round.policy = .delete) : Lapsed (rounds ++ [round]) kind value := by
  have spared : ¬ FoundAt (rounds ++ [round]) kind value rounds.length := by
    intro here
    rcases foundAt_concat.1 here with old | ⟨-, -, found⟩
    · exact Nat.lt_irrefl _ old.lt
    · exact unfound found
  intro e earlier
  rcases foundAt_concat.1 earlier with old | ⟨rfl, -⟩
  · exact ⟨rounds.length, old.lt, policyAt_concat.2 (Or.inr ⟨rfl, same, delete⟩), spared⟩
  · exact absurd earlier spared

theorem Lapsed.pass (lapsed : Lapsed rounds kind value)
    (unfound : ¬ (round.kind = kind ∧ value ∈ round.found)) : Lapsed (rounds ++ [round]) kind value := by
  intro e earlier
  rcases foundAt_concat.1 earlier with old | ⟨rfl, found⟩
  · obtain ⟨j, after, deletes, apart⟩ := lapsed e old
    exact ⟨j, after, policyAt_concat.2 (Or.inl deletes), not_foundAt_concat deletes.lt apart⟩
  · exact absurd found unfound

theorem absence_of_active (active : row.missing = false) (unmarked : row.missingAt = none) :
    Absence (rounds ++ [round]) kind row rounds.length where
  missing := by
    rw [active]
    constructor
    · intro impossible
      cases impossible
    · rintro ⟨m, after, marks⟩
      exact absurd marks (no_round_after after)
  marked := fun m _ first _ => absurd first.marks (no_round_after first.after)
  unmarked := fun _ => unmarked

theorem Absence.pass (absence : Absence rounds kind row i)
    (idle : round.kind = kind → round.policy = .mark → row.missing = true) :
    Absence (rounds ++ [round]) kind row i where
  missing := by
    rw [absence.missing]
    constructor
    · rintro ⟨m, after, marks⟩
      exact ⟨m, after, policyAt_concat.2 (Or.inl marks)⟩
    · rintro ⟨m, after, marks⟩
      rcases policyAt_concat.1 marks with old | ⟨-, same, mark⟩
      · exact ⟨m, after, old⟩
      · exact absence.missing.1 (idle same mark)
  marked := by
    intro m other first present
    have earlier : ∀ j, i < j → j < m → ¬ PolicyAt rounds kind .mark j := fun j after before marks =>
      first.first j after before (policyAt_concat.2 (Or.inl marks))
    rcases policyAt_concat.1 first.marks with old | ⟨rfl, same, mark⟩
    · exact absence.marked m other ⟨first.after, old, earlier⟩ (getElem?_of_roundAt_concat old.lt present)
    · obtain ⟨j, after, marks⟩ := absence.missing.1 (idle same mark)
      exact absurd marks (earlier j after marks.lt)
  unmarked := fun none => absence.unmarked fun m after marks =>
    none m after (policyAt_concat.2 (Or.inl marks))

theorem Absence.mark (absence : Absence rounds kind row i) (latest : i < rounds.length)
    (same : round.kind = kind) (mark : round.policy = .mark) (active : row.missing = false) {row' : SourceRow}
    (missing : row'.missing = true) (missingAt : row'.missingAt = some round.now) :
    Absence (rounds ++ [round]) kind row' i := by
  have now : PolicyAt (rounds ++ [round]) kind .mark rounds.length :=
    policyAt_concat.2 (Or.inr ⟨rfl, same, mark⟩)
  refine ⟨iff_of_true missing ⟨rounds.length, latest, now⟩, ?_, fun none => absurd now (none _ latest)⟩
  intro m other first present
  rcases policyAt_concat.1 first.marks with old | ⟨rfl, -⟩
  · have earlier := absence.missing.2 ⟨m, first.after, old⟩
    rw [active] at earlier
    cases earlier
  · rw [List.getElem?_concat_length, Option.some.injEq] at present
    rw [missingAt, present]

theorem Life.reconciled (life : Life rounds kind row i f) (absence : Absence rounds kind row i)
    (same : round.kind = kind) (unscoped : row.scope? = none) {row' : SourceRow}
    (left : row.reconciled round.found round.policy round.now = some row') :
    ∃ i', Life (rounds ++ [round]) kind row' i' f ∧ Absence (rounds ++ [round]) kind row' i' := by
  have frame := SourceRow.reconciled_frame round.found round.policy round.now row
  rw [left, Option.map_some] at frame
  have spared : ¬ row.Dropped round.found round.policy := by
    intro dropped
    rw [if_pos dropped] at frame
    cases frame
  rw [if_neg spared, Option.some.injEq] at frame
  simp only [SourceRow.reconciled, unscoped, ne_eq, not_true_eq_false, if_false] at left
  -- A value that was found starts a new stretch of presence; otherwise the policy decides, and only `mark` adds an
  -- absence.
  by_cases found : row.source ∈ round.found
  · rw [if_pos found, Option.some.injEq] at left
    subst left
    exact ⟨rounds.length, life.found same found frame, absence_of_active rfl rfl⟩
  · rw [if_neg found] at left
    have passed := life.pass (fun here => found here.2)
      (fun here => spared ⟨here.2, unscoped, found⟩) frame
    refine ⟨i, passed, ?_⟩
    cases policy : round.policy with
    | keep =>
        simp only [policy, Option.some.injEq] at left
        subst left
        exact absence.pass fun _ mark => by simp [policy] at mark
    | delete => exact absurd ⟨policy, unscoped, found⟩ spared
    | mark =>
        simp only [policy, Option.some.injEq] at left
        by_cases missing : row.missing = true
        · rw [if_pos missing] at left
          subst left
          exact absence.pass fun _ _ => missing
        · rw [if_neg missing] at left
          subst left
          exact absence.mark life.last.finds.lt same policy (by simpa using missing) rfl rfl

end Step

/-! ## Whole runs -/

structure Born (c : Catalogue) (rounds : List Round) (kind : SourceKind) (row : SourceRow) (f : Nat) :
    Prop where
  given : ∃ rows, (c.reconcileAll (rounds.take (f + 1))).records kind = .ok rows ∧
    ∃ first ∈ rows, first.id = row.id ∧ first.source = row.source
  new : ∀ k ≤ f, ∀ earlier, (c.reconcileAll (rounds.take k)).records kind = .ok earlier →
    ∀ old ∈ earlier, old.id < row.id

/-- The rows of a kind are those that have a life in the history. -/
structure Traced (c : Catalogue) (rounds : List Round) (kind : SourceKind) (table : Table) : Prop where
  rows : ∀ row ∈ table.sources, row.scope? = none ∧
    ∃ i f, Life rounds kind row i f ∧ Absence rounds kind row i ∧ Born c rounds kind row f
  lapsed : ∀ value, (∀ row ∈ table.sources, row.source ≠ value) → Lapsed rounds kind value
  bounded : ∀ k earlier, (c.reconcileAll (rounds.take k)).records kind = .ok earlier →
    ∀ old ∈ earlier, old.id ≤ table.lastId

section Runs

variable {c : Catalogue} {rounds : List Round} {round : Round} {kind : SourceKind} {row : SourceRow}
  {table : Table} {f : Nat}

theorem Born.pass (born : Born c rounds kind row f) (begun : f < rounds.length) {row' : SourceRow}
    (id : row'.id = row.id) (source : row'.source = row.source) :
    Born c (rounds ++ [round]) kind row' f := by
  refine ⟨?_, fun k before earlier => ?_⟩
  · rw [List.take_append_of_le_length begun, id, source]
    exact born.given
  · rw [List.take_append_of_le_length (Nat.le_of_lt (Nat.lt_of_le_of_lt before begun)), id]
    exact born.new k before earlier

theorem Traced.earlier (traced : Traced c rounds kind table) {table' : Table}
    (grown : table.lastId ≤ table'.lastId) (bounded : ∀ row ∈ table'.sources, row.id ≤ table'.lastId)
    (answer : (c.reconcileAll (rounds ++ [round])).records kind = .ok table'.sources) :
    ∀ k earlier, (c.reconcileAll ((rounds ++ [round]).take k)).records kind = .ok earlier →
      ∀ old ∈ earlier, old.id ≤ table'.lastId := by
  intro k earlier records old member
  rcases Nat.lt_or_ge rounds.length k with all | part
  · have whole : (rounds ++ [round]).take k = rounds ++ [round] :=
      List.take_of_length_le (by rw [List.length_append, List.length_singleton]; omega)
    rw [whole, answer, Except.ok.injEq] at records
    subst records
    exact bounded old member
  · rw [List.take_append_of_le_length part] at records
    exact Int.le_trans (traced.bounded k earlier records old member) grown

theorem Traced.pass (traced : Traced c rounds kind table) (other : round.kind ≠ kind)
    (sound : table.Sound kind)
    (answer : (c.reconcileAll (rounds ++ [round])).records kind = .ok table.sources) :
    Traced c (rounds ++ [round]) kind table where
  rows := by
    intro row member
    obtain ⟨unscoped, i, f, life, absence, born⟩ := traced.rows row member
    have begun := Nat.lt_of_le_of_lt life.origin.le life.last.finds.lt
    refine ⟨unscoped, i, f, ?_, ?_, born.pass begun rfl rfl⟩
    · exact life.pass (fun here => other here.1) (fun here => other here.1) rfl
    · exact absence.pass fun same => absurd same other
  lapsed := fun value absent => (traced.lapsed value absent).pass fun here => other here.1
  bounded := traced.earlier (Int.le_refl _) sound.bounded answer

theorem Traced.reconciled (traced : Traced c rounds kind table) (same : round.kind = kind)
    (sound : (table.reconciled round.found round.policy round.locale round.now).Sound kind)
    (answer : (c.reconcileAll (rounds ++ [round])).records kind =
      .ok (table.reconciled round.found round.policy round.locale round.now).sources) :
    Traced c (rounds ++ [round]) kind (table.reconciled round.found round.policy round.locale round.now) where
  rows := by
    intro row member
    rcases List.mem_append.1 member with old | new
    · obtain ⟨before, stored, left⟩ := List.mem_filterMap.1 old
      obtain ⟨unscoped, i, f, life, absence, born⟩ := traced.rows before stored
      obtain ⟨i', life', absence'⟩ := life.reconciled absence same unscoped left
      have begun := Nat.lt_of_le_of_lt life.origin.le life.last.finds.lt
      have frame := SourceRow.frame_of_reconciled left
      simp only [SourceRow.frame, Prod.mk.injEq] at frame
      exact ⟨frame.2.2.1.trans unscoped, i', f, life', absence', born.pass begun frame.1 frame.2.2.2.1⟩
    · have fresh := Table.new_of_mem_newRows new
      have lacked : row.source ∈ table.lacked round.found := by
        rw [← Table.newRows_sources round.locale round.now table.lastId (table.lacked round.found)]
        exact List.mem_map_of_mem new
      obtain ⟨first, free⟩ := List.mem_filter.1 lacked
      have found := (mem_firsts.1 first).1
      have lapsed := traced.lapsed row.source fun other stored alike =>
        of_decide_eq_true free ⟨other, stored, (traced.rows other stored).1, alike⟩
      refine ⟨fresh.unscoped, rounds.length, rounds.length,
        lapsed.found same found fresh.locale fresh.created,
        absence_of_active fresh.active fresh.unmarked, ?_, ?_⟩
      · have whole : (rounds ++ [round]).take (rounds.length + 1) = rounds ++ [round] :=
          List.take_of_length_le (by rw [List.length_append, List.length_singleton])
        rw [whole]
        exact ⟨_, answer, row, member, rfl, rfl⟩
      · intro k before earlier records old stored
        rw [List.take_append_of_le_length before] at records
        exact Int.lt_of_le_of_lt (traced.bounded k earlier records old stored) fresh.later
  lapsed := by
    intro value absent
    by_cases found : value ∈ round.found
    · obtain ⟨row, member, source, -⟩ := Table.reconciled_active sound found
      exact absurd source (absent row (mem_globalRows.1 member).1)
    · by_cases held : ∃ row ∈ table.sources, row.source = value
      · -- The row of the value is gone, so this round has deleted it.
        obtain ⟨row, stored, rfl⟩ := held
        have gone : row.reconciled round.found round.policy round.now = none := by
          cases left : row.reconciled round.found round.policy round.now with
          | none => rfl
          | some row' =>
              have frame := SourceRow.frame_of_reconciled left
              simp only [SourceRow.frame, Prod.mk.injEq] at frame
              have member := List.mem_append_left (Table.newRows round.locale round.now table.lastId
                (table.lacked round.found)) (List.mem_filterMap.2 ⟨row, stored, left⟩)
              exact absurd frame.2.2.2.1 (absent row' member)
        have frame := SourceRow.reconciled_frame round.found round.policy round.now row
        rw [gone, Option.map_none] at frame
        split at frame
        · rename_i dropped
          exact lapsed_of_delete same found dropped.1
        · cases frame
      · refine (traced.lapsed value fun row stored alike => held ⟨row, stored, alike⟩).pass ?_
        exact fun here => found here.2
  bounded := by
    refine traced.earlier ?_ sound.bounded answer
    exact Int.le_add_of_nonneg_right (Int.natCast_nonneg _)

end Runs

namespace Catalogue

variable {names : TableNames} {db : Database} {c : Catalogue}

theorem reconcileAll_concat (c : Catalogue) (rounds : List Round) (round : Round) :
    c.reconcileAll (rounds ++ [round]) =
      ((c.reconcileAll rounds).reconcile round.kind round.found round.policy round.locale round.now).1 := by
  rw [reconcileAll, List.foldl_concat]
  rfl

theorem reconcileAll_traced (apart : names.Apart) (opened : openWith names .empty = (db, .ok c))
    (rounds : List Round) :
    (c.reconcileAll rounds).names = names ∧
      ∃ sources messages, (c.reconcileAll rounds).Sound sources messages ∧
        ∀ kind, Traced c rounds kind (sources kind) := by
  -- By induction from the last round: soundness gives the tables after it, and only the kind of the round gets
  -- another history.
  induction rounds using List.reverseRecOn with
  | nil =>
      obtain ⟨sameNames, sound⟩ := openWith_sound apart opened
      refine ⟨sameNames, _, _, sound, fun kind => ⟨?_, ?_, ?_⟩⟩
      · intro row member
        cases member
      · intro value _ e earlier
        exact absurd earlier.lt (Nat.not_lt_zero _)
      · intro k earlier records old member
        have answer := sound.records_eq (by rwa [sameNames]) kind
        rw [List.take_nil, reconcileAll, List.foldl_nil, answer, Except.ok.injEq] at records
        subst records
        cases member
  | append_singleton rounds round ih =>
      obtain ⟨sameNames, sources, messages, sound, traced⟩ := ih
      have apart' : (c.reconcileAll rounds).names.Apart := by rwa [sameNames]
      have after := sound.reconciled round.kind round.found round.policy round.locale round.now
      have ran := reconcileAll_concat c rounds round
      rw [sound.reconcile_eq apart'] at ran
      simp only at ran
      rw [← ran] at after
      have sameNames' : (c.reconcileAll (rounds ++ [round])).names = names := by
        rw [ran]
        exact sameNames
      refine ⟨sameNames', _, _, after, fun kind => ?_⟩
      have answer := after.records_eq (by rwa [sameNames']) kind
      have kept := after.sound kind
      by_cases same : round.kind = kind
      · subst same
        rw [Function.update_self] at answer kept ⊢
        exact (traced round.kind).reconciled rfl kept answer
      · rw [Function.update_of_ne (Ne.symm same)] at answer kept ⊢
        exact (traced kind).pass same kept answer

/-- The records that rounds leave of a fresh catalogue are told by the history: which values have a row, from
which round it comes, and since when it is missing. -/
theorem reconcileAll_history {names : TableNames} (apart : names.Apart) {db : Database} {c : Catalogue}
    (opened : openWith names .empty = (db, .ok c)) (rounds : List Round) (kind : SourceKind) :
    ∃ rows, (c.reconcileAll rounds).records kind = .ok rows ∧
      (rows.map (·.source)).Nodup ∧
      (∀ value, (∃ row ∈ rows, row.source = value) ↔
        ∃ i, LastFound rounds kind value i ∧ ∀ j, i < j → ¬ PolicyAt rounds kind .delete j) ∧
      ∀ row ∈ rows, row.scope? = none ∧
        ∃ i f, Life rounds kind row i f ∧ Absence rounds kind row i ∧ Born c rounds kind row f := by
  obtain ⟨sameNames, sources, messages, sound, traced⟩ := reconcileAll_traced apart opened rounds
  have rows := (traced kind).rows
  refine ⟨_, sound.records_eq (by rwa [sameNames]) kind, ?_, fun value => ⟨?_, ?_⟩, rows⟩
  · have unscoped : globalRows (sources kind).sources = (sources kind).sources := by
      rw [globalRows, List.filter_eq_self]
      intro row member
      rw [(rows row member).1]
      rfl
    have nodup := (sound.sound kind).globalRows_nodup
    rwa [unscoped] at nodup
  · rintro ⟨row, member, rfl⟩
    obtain ⟨-, i, f, life, -⟩ := rows row member
    exact ⟨i, life.last, life.kept⟩
  · rintro ⟨i, last, kept⟩
    by_contra absent
    have lapsed := (traced kind).lapsed value fun row member same => absent ⟨row, member, same⟩
    obtain ⟨j, after, deletes, -⟩ := lapsed i last.finds
    exact kept j after deletes

theorem reconcileAll_history_of_two : TableNames.standard.Apart ∧
    ∃ db c, openWith .standard .empty = (db, .ok c) ∧
      ∃ rows, (c.reconcileAll [⟨.text, ["a"], .keep, "en", ⟨10, 0⟩⟩, ⟨.text, [], .mark, "de", ⟨20, 0⟩⟩]).records
          .text = .ok rows ∧
        ∃ row ∈ rows, row.source = "a" ∧ row.missing = true ∧ row.missingAt = some ⟨20, 0⟩ := by
  obtain ⟨db, c, opened⟩ := standard_opens
  refine ⟨standard_apart, db, c, opened, ?_⟩
  let rounds : List Round := [⟨.text, ["a"], .keep, "en", ⟨10, 0⟩⟩, ⟨.text, [], .mark, "de", ⟨20, 0⟩⟩]
  obtain ⟨rows, answer, -, values, traced⟩ := reconcileAll_history standard_apart opened rounds .text
  have found : ∀ j, FoundAt rounds .text "a" j ↔ j = 0 := by
    rintro (_ | _ | j) <;> simp [FoundAt, RoundAt, rounds]
  have marks : ∀ j, PolicyAt rounds .text .mark j ↔ j = 1 := by
    rintro (_ | _ | j) <;> simp [PolicyAt, RoundAt, rounds]
  have deletes : ∀ j, ¬ PolicyAt rounds .text .delete j := by
    rintro (_ | _ | j) <;> simp [PolicyAt, RoundAt, rounds]
  have last : LastFound rounds .text "a" 0 := ⟨(found 0).2 rfl, fun j after => by rw [found]; omega⟩
  obtain ⟨row, member, source⟩ := (values "a").2 ⟨0, last, fun j _ => deletes j⟩
  obtain ⟨-, i, f, life, absence, -⟩ := traced row member
  have latest : i = 0 := (found i).1 (source ▸ life.last.finds)
  subst latest
  have first : FirstMark rounds .text 0 1 :=
    ⟨Nat.zero_lt_one, (marks 1).2 rfl, fun j after before => by rw [marks]; omega⟩
  exact ⟨rows, answer, row, member, source, absence.missing.2 ⟨1, first.after, first.marks⟩,
    absence.marked 1 _ first rfl⟩

end Catalogue

end Phrasebook
