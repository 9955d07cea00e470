import Phrasebook.Catalogue.Catalogue
import Phrasebook.Files.Discovery
import Phrasebook.Scan.Summary
import Phrasebook.Source.Found

namespace Phrasebook

inductive ScanEvent
  | filesDiscovered (total : Nat)
  | fileScanned (path : FilePath)
  | sourcesFound (count : Nat)
  | sourceProcessed (kind : SourceKind)
  | kindReconciled (kind : SourceKind) (outcome : Outcome)
  | finished (summary : Summary)
  deriving DecidableEq, Repr

/-- Something that sources are kept in: its states are of type `σ`, its failures of type `ε`. -/
structure Store (σ ε : Type) where
  snapshot : σ → SourceKind → Except ε Snapshot
  apply : σ → SourceKind → Plan → MissingPolicy → String → Instant → σ × Except ε Outcome

def Catalogue.store : Store Catalogue DatabaseError := ⟨Catalogue.snapshot, Catalogue.apply⟩

structure Working where
  snapshots : List (SourceKind × Snapshot)
  plans : List (SourceKind × Plan)
  deriving DecidableEq, Repr

namespace Working

def empty : Working := ⟨[], []⟩

def isEmpty (working : Working) : Bool := working.snapshots.isEmpty && working.plans.isEmpty

end Working

structure ScanState (σ : Type) where
  store : σ
  working : Working
  events : List ScanEvent

namespace ScanState

variable {σ : Type}

def emit (state : ScanState σ) (events : List ScanEvent) : ScanState σ :=
  { state with events := state.events ++ events }

def reset (state : ScanState σ) : ScanState σ := { state with working := .empty }

end ScanState

structure ScanJob where
  table : FunctionTable
  locale : String
  files : List FilePath
  /-- The order in which the files are finished. -/
  schedule : List FilePath
  policy : MissingPolicy
  now : Instant

namespace Scan

variable {σ ε : Type}

def takeSnapshots (store : Store σ ε) (state : ScanState σ) :
    List SourceKind → ScanState σ × Except ε Unit
  | [] => (state, .ok ())
  | kind :: kinds =>
    match store.snapshot state.store kind with
    | .error e => (state, .error e)
    | .ok snapshot =>
      let working := { state.working with snapshots := state.working.snapshots ++ [(kind, snapshot)] }
      takeSnapshots store { state with working } kinds

def reconcileKind (store : Store σ ε) (job : ScanJob) (found : List Found) (state : ScanState σ)
    (kind : SourceKind) : ScanState σ × Except ε Outcome :=
  let values := Found.values kind found
  let plan := Plan.make ((state.working.snapshots.lookup kind).getD []) values
  let state := state.emit (values.map fun _ => .sourceProcessed kind)
  match store.apply state.store kind plan job.policy job.locale job.now with
  | (kept, .error e) => ({ state with store := kept }, .error e)
  | (kept, .ok outcome) =>
    let working := { state.working with plans := state.working.plans ++ [(kind, plan)] }
    ({ state with store := kept, working }, .ok outcome)

def reconcileKinds (store : Store σ ε) (job : ScanJob) (found : List Found) (state : ScanState σ)
    (total : Outcome) : List SourceKind → ScanState σ × Except ε Outcome
  | [] => (state, .ok total)
  | kind :: kinds =>
    match reconcileKind store job found state kind with
    | (state, .error e) => (state, .error e)
    | (state, .ok outcome) =>
      reconcileKinds store job found (state.emit [.kindReconciled kind outcome]) (total.add outcome) kinds

def foundIn (extract : FilePath → List Occurrence) (job : ScanJob) : List Found :=
  Found.ofOccurrences job.table (job.files.flatMap extract)

/-- The events up to the point where the sources are found. -/
def opening (job : ScanJob) (scanned : List FilePath) (found : List Found) : List ScanEvent :=
  .filesDiscovered job.files.length :: scanned.map .fileScanned ++ [.sourcesFound found.length]

def proceed (store : Store σ ε) (job : ScanJob) (found : List Found) (state : ScanState σ) :
    ScanState σ × Except ε Summary :=
  match takeSnapshots store state SourceKind.all with
  | (state, .error e) => (state, .error e)
  | (state, .ok ()) =>
    match reconcileKinds store job found state .zero SourceKind.all with
    | (state, .error e) => (state, .error e)
    | (state, .ok outcome) => (state, .ok ⟨job.files.length, found.length, outcome, job.policy⟩)

def phases (store : Store σ ε) (extract : FilePath → List Occurrence) (job : ScanJob)
    (state : ScanState σ) : ScanState σ × Except ε Summary :=
  let found := foundIn extract job
  proceed store job found (state.emit (opening job job.schedule found))

def close : ScanState σ × Except ε Summary → ScanState σ × Except ε Summary
  | (state, .ok summary) => (state.reset.emit [.finished summary], .ok summary)
  | (state, .error e) => (state.reset, .error e)

/-- Runs a scan. What it keeps is given up before and after, whether or not it succeeds. -/
def run (store : Store σ ε) (extract : FilePath → List Occurrence) (job : ScanJob)
    (state : ScanState σ) : ScanState σ × Except ε Summary :=
  close (phases store extract job state.reset)

end Scan

end Phrasebook
