import Phrasebook.Proofs.Catalogue.Reconcile
import Phrasebook.Proofs.Scan.Workers

/-!
# The protocol of a scan

A scan may fail at each of the four calls of its store. How it goes on from the point where its sources are found
is one of five courses, and the course tells the events, the store at the end, what the scan keeps and its result.
-/

namespace Phrasebook

namespace ScanEvent

def isProcessed : ScanEvent → Bool
  | .sourceProcessed _ => true
  | _ => false

def reconciled? : ScanEvent → Option (SourceKind × Outcome)
  | .kindReconciled kind outcome => some (kind, outcome)
  | _ => none

end ScanEvent

theorem Found.length_values (found : List Found) :
    (values .grouped found).length + (values .text found).length = found.length := by
  induction found with
  | nil => rfl
  | cons first found ih =>
      rcases first with ⟨value, _ | _⟩ <;> simp [values] at ih ⊢ <;> omega

namespace Scan

variable {σ ε : Type} {store : Store σ ε} {job : ScanJob} {found : List Found} {kept : σ}

/-! ## Courses -/

def processing (found : List Found) (kind : SourceKind) : List ScanEvent :=
  .replicate (Found.values kind found).length (.sourceProcessed kind)

def closing : Except ε Summary → List ScanEvent
  | .ok summary => [.finished summary]
  | .error _ => []

def planFor (found : List Found) (kind : SourceKind) (snapshot : Snapshot) : Plan :=
  Plan.make snapshot (Found.values kind found)

def applyTo (store : Store σ ε) (job : ScanJob) (found : List Found) (kept : σ) (kind : SourceKind)
    (snapshot : Snapshot) : σ × Except ε Outcome :=
  store.apply kept kind (planFor found kind snapshot) job.policy job.locale job.now

/-- How a scan goes on once its sources are found: the events, the store at the end, what the scan keeps by then,
and the result. -/
inductive Course (store : Store σ ε) (job : ScanJob) (found : List Found) (kept : σ) :
    List ScanEvent → σ → Working → Except ε Summary → Prop
  | groupedUnread {e : ε} :
      store.snapshot kept .grouped = .error e →
      Course store job found kept [] kept .empty (.error e)
  | textUnread {grouped : Snapshot} {e : ε} :
      store.snapshot kept .grouped = .ok grouped →
      store.snapshot kept .text = .error e →
      Course store job found kept [] kept ⟨[(.grouped, grouped)], []⟩ (.error e)
  | groupedFails {grouped text : Snapshot} {left : σ} {e : ε} :
      store.snapshot kept .grouped = .ok grouped →
      store.snapshot kept .text = .ok text →
      applyTo store job found kept .grouped grouped = (left, .error e) →
      Course store job found kept (processing found .grouped) left
        ⟨[(.grouped, grouped), (.text, text)], []⟩ (.error e)
  | textFails {grouped text : Snapshot} {between left : σ} {first : Outcome} {e : ε} :
      store.snapshot kept .grouped = .ok grouped →
      store.snapshot kept .text = .ok text →
      applyTo store job found kept .grouped grouped = (between, .ok first) →
      applyTo store job found between .text text = (left, .error e) →
      Course store job found kept
        (processing found .grouped ++ .kindReconciled .grouped first :: processing found .text) left
        ⟨[(.grouped, grouped), (.text, text)], [(.grouped, planFor found .grouped grouped)]⟩ (.error e)
  | succeeds {grouped text : Snapshot} {between left : σ} {first second : Outcome} :
      store.snapshot kept .grouped = .ok grouped →
      store.snapshot kept .text = .ok text →
      applyTo store job found kept .grouped grouped = (between, .ok first) →
      applyTo store job found between .text text = (left, .ok second) →
      Course store job found kept
        (processing found .grouped ++ .kindReconciled .grouped first ::
          (processing found .text ++ [.kindReconciled .text second])) left
        ⟨[(.grouped, grouped), (.text, text)],
          [(.grouped, planFor found .grouped grouped), (.text, planFor found .text text)]⟩
        (.ok ⟨job.files.length, found.length, first.add second, job.policy⟩)

/-! ## What a scan does on its course -/

theorem takeSnapshots_of_read {grouped text : Snapshot} (read : store.snapshot kept .grouped = .ok grouped)
    (read' : store.snapshot kept .text = .ok text) (earlier : List ScanEvent) :
    takeSnapshots store ⟨kept, .empty, earlier⟩ [.grouped, .text] =
      (⟨kept, ⟨[(.grouped, grouped), (.text, text)], []⟩, earlier⟩, .ok ()) := by
  simp [takeSnapshots, read, read', Working.empty]

theorem reconcileKind_error {state : ScanState σ} {kind : SourceKind} {snapshot : Snapshot} {left : σ} {e : ε}
    (fails : applyTo store job found state.store kind snapshot = (left, .error e))
    (taken : state.working.snapshots.lookup kind = some snapshot) :
    reconcileKind store job found state kind =
      (⟨left, state.working, state.events ++ processing found kind⟩, .error e) := by
  rw [applyTo, planFor] at fails
  simp [reconcileKind, taken, ScanState.emit, fails, processing]

theorem reconcileKind_ok {state : ScanState σ} {kind : SourceKind} {snapshot : Snapshot} {left : σ}
    {outcome : Outcome} (succeeds : applyTo store job found state.store kind snapshot = (left, .ok outcome))
    (taken : state.working.snapshots.lookup kind = some snapshot) :
    reconcileKind store job found state kind =
      (⟨left, { state.working with plans := state.working.plans ++ [(kind, planFor found kind snapshot)] },
        state.events ++ processing found kind⟩, .ok outcome) := by
  rw [applyTo, planFor] at succeeds
  simp [reconcileKind, taken, ScanState.emit, succeeds, processing, planFor]

theorem exists_course (store : Store σ ε) (job : ScanJob) (found : List Found) (kept : σ) :
    ∃ events left working result, Course store job found kept events left working result := by
  rcases read : store.snapshot kept .grouped with e | grouped
  · exact ⟨_, _, _, _, .groupedUnread read⟩
  rcases read' : store.snapshot kept .text with e | text
  · exact ⟨_, _, _, _, .textUnread read read'⟩
  rcases ran : applyTo store job found kept .grouped grouped with ⟨between, e | first⟩
  · exact ⟨_, _, _, _, .groupedFails read read' ran⟩
  rcases ran' : applyTo store job found between .text text with ⟨left, e | second⟩
  · exact ⟨_, _, _, _, .textFails read read' ran ran'⟩
  · exact ⟨_, _, _, _, .succeeds read read' ran ran'⟩

namespace Course

variable {events : List ScanEvent} {left : σ} {working : Working} {result : Except ε Summary}

theorem proceed (course : Course store job found kept events left working result)
    (earlier : List ScanEvent) :
    Scan.proceed store job found ⟨kept, .empty, earlier⟩ = (⟨left, working, earlier ++ events⟩, result) := by
  -- The calls of the store are the premises of the course, so each course is computed by rewriting with its own.
  cases course with
  | groupedUnread read => simp [Scan.proceed, SourceKind.all, takeSnapshots, read]
  | textUnread read read' => simp [Scan.proceed, SourceKind.all, takeSnapshots, read, read', Working.empty]
  | groupedFails read read' fails =>
      simp only [Scan.proceed, SourceKind.all, takeSnapshots_of_read read read', reconcileKinds]
      rw [reconcileKind_error fails rfl]
  | textFails read read' succeeds fails =>
      simp only [Scan.proceed, SourceKind.all, takeSnapshots_of_read read read', reconcileKinds]
      rw [reconcileKind_ok succeeds rfl]
      dsimp only
      rw [reconcileKind_error fails rfl]
      simp [ScanState.emit]
  | succeeds read read' succeeds succeeds' =>
      simp only [Scan.proceed, SourceKind.all, takeSnapshots_of_read read read', reconcileKinds]
      rw [reconcileKind_ok succeeds rfl]
      dsimp only
      rw [reconcileKind_ok succeeds' rfl]
      simp [ScanState.emit, Outcome.add, Outcome.zero]

/-! ## What the events add up to -/

theorem not_finished (course : Course store job found kept events left working result) (summary : Summary) :
    .finished summary ∉ events := by
  cases course <;> simp [processing]

theorem processed_eq {summary : Summary}
    (course : Course store job found kept events left working (.ok summary)) :
    events.countP (·.isProcessed) = found.length := by
  cases course with
  | succeeds =>
      rw [← Found.length_values found]
      simp [processing, List.countP_replicate, ScanEvent.isProcessed]

theorem reconciled_eq {summary : Summary}
    (course : Course store job found kept events left working (.ok summary)) :
    ∃ grouped text, events.filterMap (·.reconciled?) = [(.grouped, grouped), (.text, text)] ∧
      summary.outcome = ⟨grouped.inserted + text.inserted, grouped.renewed + text.renewed,
        grouped.missingActed + text.missingActed⟩ := by
  cases course with
  | @succeeds _ _ _ _ first second =>
      exact ⟨first, second, by simp [processing, ScanEvent.reconciled?], rfl⟩

end Course

/-! ## The protocol -/

theorem opening_processed (scanned : List FilePath) : (opening job scanned found).countP (·.isProcessed) = 0 := by
  simp [opening, ScanEvent.isProcessed, List.countP_eq_zero]

theorem opening_reconciled (scanned : List FilePath) :
    (opening job scanned found).filterMap (·.reconciled?) = [] := by
  simp [opening, ScanEvent.reconciled?]

theorem closing_processed (result : Except ε Summary) : (closing result).countP (·.isProcessed) = 0 := by
  cases result <;> rfl

theorem closing_reconciled (result : Except ε Summary) : (closing result).filterMap (·.reconciled?) = [] := by
  cases result <;> rfl

/-- How the events of a scan go with its result: only a scan that succeeds says so, and says so last; its events
then tell of each source once, and of each kind what the summary adds up. -/
structure Accords (found : List Found) (emitted : List ScanEvent) (result : Except ε Summary) : Prop where
  finished : ∀ summary, emitted.getLast? = some (.finished summary) ↔ result = .ok summary
  processed : ∀ summary, result = .ok summary → emitted.countP (·.isProcessed) = found.length
  reconciled : ∀ summary, result = .ok summary → ∃ grouped text,
    emitted.filterMap (·.reconciled?) = [(.grouped, grouped), (.text, text)] ∧
      summary.outcome = ⟨grouped.inserted + text.inserted, grouped.renewed + text.renewed,
        grouped.missingActed + text.missingActed⟩

theorem Course.accords {events : List ScanEvent} {left : σ} {working : Working} {result : Except ε Summary}
    (course : Course store job found kept events left working result) (scanned : List FilePath) :
    Accords found (opening job scanned found ++ events ++ closing result) result where
  finished := by
    intro summary
    cases result with
    | ok reached => simp [closing]
    | error e =>
        simp only [closing, List.append_nil, reduceCtorEq, iff_false]
        intro last
        rcases List.mem_append.1 (List.mem_of_getLast? last) with early | late
        · simp [opening] at early
        · exact course.not_finished summary late
  processed := by
    rintro summary rfl
    rw [List.countP_append, List.countP_append, opening_processed, course.processed_eq, closing_processed,
      Nat.zero_add, Nat.add_zero]
  reconciled := by
    rintro summary rfl
    obtain ⟨grouped, text, reconciled, sum⟩ := course.reconciled_eq
    refine ⟨grouped, text, ?_, sum⟩
    rw [List.filterMap_append, List.filterMap_append, opening_reconciled, reconciled, closing_reconciled,
      List.nil_append, List.append_nil]

/-- A store, the files and what was there before settle the course of a scan, and with it the sources found, the
plans, the store at the end and the result. The moves of the workers settle in which order the files are announced,
and nothing else. -/
theorem runBy?_protocol (store : Store σ ε) (extract : FilePath → List Occurrence) (job : ScanJob)
    (before : ScanState σ) :
    ∃ events left working result,
      Course store job (foundIn extract job) before.store events left working result ∧
      (∀ scanned : List FilePath,
        phases store extract { job with schedule := scanned } before.reset =
          (⟨left, working, before.events ++ (opening job scanned (foundIn extract job) ++ events)⟩, result) ∧
        run store extract { job with schedule := scanned } before =
          (⟨left, .empty, before.events ++
            (opening job scanned (foundIn extract job) ++ events ++ closing result)⟩, result) ∧
        Accords (foundIn extract job)
          (opening job scanned (foundIn extract job) ++ events ++ closing result) result) ∧
      ∀ moves, Workers.Complete job.files.length moves → ∃ scanned results,
        scanned.Perm job.files ∧
        (Workers.play extract job.files moves).announced = scanned ∧
        (Workers.play extract job.files moves).collect? = some results ∧
        Found.ofOccurrences job.table results.flatten = foundIn extract job ∧
        phasesBy? store extract job moves before.reset =
          some (phases store extract { job with schedule := scanned } before.reset) ∧
        runBy? store extract job moves before = some (run store extract { job with schedule := scanned } before) := by
  obtain ⟨events, left, working, result, course⟩ := exists_course store job (foundIn extract job) before.store
  refine ⟨events, left, working, result, course, fun scanned => ?_, fun moves complete => ?_⟩
  · have phases : phases store extract { job with schedule := scanned } before.reset =
        (⟨left, working, before.events ++ (opening job scanned (foundIn extract job) ++ events)⟩, result) :=
      (course.proceed (before.events ++ opening job scanned (foundIn extract job))).trans (by rw [List.append_assoc])
    refine ⟨phases, ?_, course.accords scanned⟩
    rw [run, phases]
    cases result <;> simp [close, closing, ScanState.reset, ScanState.emit]
  · have collected := Workers.collect?_play extract job.files moves
    rw [if_pos complete] at collected
    refine ⟨_, _, Workers.announced_of_complete complete, rfl, collected, ?_,
      phasesBy?_of_complete store extract job complete _, runBy?_of_complete store extract job complete _⟩
    rw [← List.flatMap_def, foundIn]

theorem runBy?_protocol_swapped :
    let extract (path : FilePath) : List Occurrence :=
      if path = ["a.php"] then [⟨"__", "one"⟩, ⟨"trans", "g.k"⟩] else [⟨"__", "two"⟩, ⟨"__", "one"⟩]
    let job : ScanJob := ⟨.standard, "en", [["a.php"], ["b.php"]], [], .keep, ⟨10, 0⟩⟩
    let swapped : ScanJob := { job with schedule := [["b.php"], ["a.php"]] }
    let before : ScanState Catalogue := ⟨briefCatalogue, .empty, []⟩
    Workers.Complete 2 [0, 1, 1, 0] ∧
      runBy? Catalogue.store extract job [0, 1, 1, 0] before = some (run Catalogue.store extract swapped before) ∧
      ∃ left, run Catalogue.store extract swapped before =
        (⟨left, .empty, [.filesDiscovered 2, .fileScanned ["b.php"], .fileScanned ["a.php"], .sourcesFound 3,
          .sourceProcessed .grouped, .kindReconciled .grouped ⟨1, 0, 0⟩, .sourceProcessed .text,
          .sourceProcessed .text, .kindReconciled .text ⟨2, 0, 0⟩, .finished ⟨2, 3, ⟨3, 0, 0⟩, .keep⟩]⟩,
          .ok ⟨2, 3, ⟨3, 0, 0⟩, .keep⟩) := by
  intro extract job swapped before
  have complete : Workers.Complete 2 [0, 1, 1, 0] := by decide
  obtain ⟨events, left, working, result, -, scans, runs⟩ := runBy?_protocol Catalogue.store extract job before
  obtain ⟨scanned, results, -, announced, -, -, -, ran⟩ := runs [0, 1, 1, 0] complete
  obtain rfl : [["b.php"], ["a.php"]] = scanned := by rw [← announced]; decide
  refine ⟨complete, ran, left, ?_⟩
  obtain ⟨-, scan, -⟩ := scans [["b.php"], ["a.php"]]
  have computed : ((run Catalogue.store extract swapped before).1.events,
      (run Catalogue.store extract swapped before).2.toOption) =
        ([.filesDiscovered 2, .fileScanned ["b.php"], .fileScanned ["a.php"], .sourcesFound 3,
          .sourceProcessed .grouped, .kindReconciled .grouped ⟨1, 0, 0⟩, .sourceProcessed .text,
          .sourceProcessed .text, .kindReconciled .text ⟨2, 0, 0⟩, .finished ⟨2, 3, ⟨3, 0, 0⟩, .keep⟩],
          some ⟨2, 3, ⟨3, 0, 0⟩, .keep⟩) := by decide +kernel
  rw [scan, Prod.mk.injEq] at computed
  obtain ⟨emitted, ended⟩ := computed
  cases result with
  | error e => cases ended
  | ok summary =>
      cases ended
      exact scan.trans (congrArg (fun events => (ScanState.mk left .empty events, _)) emitted)

end Scan

end Phrasebook
