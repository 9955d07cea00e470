import Mathlib.Data.List.Basic
import Mathlib.Logic.Function.Basic
import Phrasebook.Scan.Run

namespace Phrasebook

open Function (update)

/-- How far the work on a file has got. -/
inductive Progress
  | waiting
  | extracted (occurrences : List Occurrence)
  | announced (occurrences : List Occurrence)
  deriving DecidableEq, Repr

namespace Progress

def next (occurrences : List Occurrence) : Progress → Progress
  | .waiting => .extracted occurrences
  | .extracted kept => .announced kept
  | .announced kept => .announced kept

def sends : Progress → Bool
  | .extracted _ => true
  | _ => false

def result? : Progress → Option (List Occurrence)
  | .announced kept => some kept
  | _ => none

def after (occurrences : List Occurrence) : Nat → Progress
  | 0 => .waiting
  | turns + 1 => (after occurrences turns).next occurrences

theorem after_add_two (occurrences : List Occurrence) (turns : Nat) :
    after occurrences (turns + 2) = .announced occurrences := by
  induction turns with
  | zero => rfl
  | succ turns ih => rw [after, ih, next]

theorem result?_after (occurrences : List Occurrence) (turns : Nat) :
    (after occurrences turns).result? = if 2 ≤ turns then some occurrences else none := by
  match turns with
  | 0 | 1 => rfl
  | turns + 2 => simp [after_add_two, result?]

end Progress

/-- What the workers have done: how far the work on each file has got, and the files whose events were sent. -/
structure Workers where
  tasks : List (FilePath × Progress)
  announced : List FilePath
  deriving DecidableEq, Repr

namespace Workers

variable {extract : FilePath → List Occurrence} {files : List FilePath}

def start (files : List FilePath) : Workers := ⟨files.map fun path => (path, .waiting), []⟩

def move (extract : FilePath → List Occurrence) (workers : Workers) (index : Nat) : Workers :=
  match workers.tasks[index]? with
  | none => workers
  | some (path, progress) =>
    ⟨workers.tasks.set index (path, progress.next (extract path)),
      workers.announced ++ if progress.sends then [path] else []⟩

def play (extract : FilePath → List Occurrence) (files : List FilePath) (moves : List Nat) : Workers :=
  moves.foldl (move extract) (start files)

def collect? (workers : Workers) : Option (List (List Occurrence)) := workers.tasks.mapM (·.2.result?)

def done (tasks : List (FilePath × Progress)) : List FilePath :=
  (tasks.filter (·.2.result?.isSome)).map (·.1)

structure Reached (extract : FilePath → List Occurrence) (files : List FilePath) (turns : Nat → Nat)
    (workers : Workers) : Prop where
  tasks : ∀ index : Nat, workers.tasks[index]? =
    files[index]?.map fun path => (path, .after (extract path) (turns index))
  announced : workers.announced.Perm (done workers.tasks)

theorem reached_start : Reached extract files (fun _ => 0) (start files) where
  tasks := by simp [start, Progress.after]
  announced := by simp [start, done, Progress.result?]

theorem done_set {tasks : List (FilePath × Progress)} {index : Nat} {path : FilePath} {progress : Progress}
    (here : tasks[index]? = some (path, progress)) (occurrences : List Occurrence) :
    (done (tasks.set index (path, progress.next occurrences))).Perm
      (done tasks ++ if progress.sends then [path] else []) := by
  -- By the place in the list: only the file at the index can become one of those that are done.
  induction tasks generalizing index with
  | nil => simp at here
  | cons task tasks ih =>
      cases index with
      | zero =>
          obtain rfl : task = (path, progress) := by simpa using here
          cases progress with
          | waiting | announced => simp [done, Progress.next, Progress.result?, Progress.sends]
          | extracted kept =>
              simpa [done, Progress.next, Progress.result?, Progress.sends] using
                (List.perm_append_singleton path _).symm
      | succ index =>
          have later := ih (List.getElem?_cons_succ.symm.trans here)
          by_cases ended : task.2.result?.isSome = true
          · simpa [done, ended] using later
          · simpa [done, ended] using later

theorem Reached.move {turns : Nat → Nat} {workers : Workers} (reached : Reached extract files turns workers)
    (index : Nat) :
    Reached extract files (update turns index (turns index + 1)) (workers.move extract index) := by
  have here := reached.tasks index
  cases listed : files[index]? with
  | none =>
      rw [listed, Option.map_none] at here
      rw [Workers.move, here]
      refine ⟨fun other => ?_, reached.announced⟩
      by_cases same : other = index
      · subst same
        rw [here, listed, Option.map_none]
      · rw [reached.tasks other, Function.update_of_ne same]
  | some path =>
      rw [listed, Option.map_some] at here
      rw [Workers.move, here]
      refine ⟨fun other => ?_, (reached.announced.append_right _).trans (done_set here _).symm⟩
      by_cases same : other = index
      · subst same
        rw [List.getElem?_set_self', here, listed, Function.update_self]
        rfl
      · rw [List.getElem?_set_ne (Ne.symm same), reached.tasks other, Function.update_of_ne same]

theorem Reached.foldl {turns : Nat → Nat} {workers : Workers} (reached : Reached extract files turns workers)
    (moves : List Nat) : Reached extract files (fun index => turns index + moves.count index)
      (moves.foldl (Workers.move extract) workers) := by
  induction moves generalizing turns workers with
  | nil => exact reached
  | cons first moves ih =>
      have counted : (fun index => turns index + (first :: moves).count index) =
          fun index => update turns first (turns first + 1) index + moves.count index := by
        funext index
        by_cases same : index = first
        · subst same
          rw [List.count_cons_self, Function.update_self]
          omega
        · rw [List.count_cons_of_ne (Ne.symm same), Function.update_of_ne same]
      rw [counted]
      exact ih (reached.move first)

theorem reached_play (moves : List Nat) :
    Reached extract files (fun index => moves.count index) (play extract files moves) := by
  simpa [play] using reached_start.foldl moves

def Complete (total : Nat) (moves : List Nat) : Prop := ∀ index < total, 2 ≤ moves.count index

instance (total : Nat) (moves : List Nat) : Decidable (Complete total moves) :=
  inferInstanceAs (Decidable (∀ index < total, 2 ≤ moves.count index))

theorem tasks_of_complete {moves : List Nat} (complete : Complete files.length moves) :
    (play extract files moves).tasks = files.map fun path => (path, .announced (extract path)) := by
  refine List.ext_getElem? fun index => ?_
  rw [(reached_play moves).tasks index, List.getElem?_map]
  refine Option.map_congr fun path listed => ?_
  obtain ⟨inside, -⟩ := List.getElem?_eq_some_iff.1 listed
  obtain ⟨further, turns⟩ := Nat.exists_eq_add_of_le' (complete index inside)
  rw [turns, Progress.after_add_two]

theorem announced_of_complete {moves : List Nat} (complete : Complete files.length moves) :
    (play extract files moves).announced.Perm files := by
  have sent := (reached_play moves : Reached extract files _ _).announced
  rw [tasks_of_complete complete] at sent
  simpa [done, Progress.result?, List.filter_map, Function.comp_def] using sent

theorem done_of_collect? {tasks : List (FilePath × Progress)} {results : List (List Occurrence)}
    (collected : tasks.mapM (·.2.result?) = some results) : ∀ task ∈ tasks, task.2.result?.isSome := by
  induction tasks generalizing results with
  | nil => simp
  | cons task tasks ih =>
      simp only [List.mapM_cons, Option.bind_eq_bind, Option.bind_eq_some_iff] at collected
      obtain ⟨result, first, rest, later, -⟩ := collected
      exact List.forall_mem_cons.2 ⟨by rw [first]; rfl, ih later⟩

/-- The results do not depend on the order of the moves. -/
theorem collect?_play (extract : FilePath → List Occurrence) (files : List FilePath) (moves : List Nat) :
    (play extract files moves).collect? =
      if Complete files.length moves then some (files.map extract) else none := by
  split
  · rename_i complete
    rw [collect?, tasks_of_complete complete, List.mapM_map]
    exact List.mapM_pure
  · rename_i incomplete
    by_contra collected
    obtain ⟨results, collected⟩ := Option.ne_none_iff_exists'.1 collected
    -- A file with fewer than two moves has no result, and one such file is enough for there to be none.
    refine incomplete fun index inside => ?_
    have here := (reached_play moves : Reached extract files _ _).tasks index
    rw [List.getElem?_eq_getElem inside, Option.map_some] at here
    have ended := done_of_collect? collected _ (List.mem_of_getElem? here)
    rw [Progress.result?_after] at ended
    by_contra few
    rw [if_neg few] at ended
    cases ended

end Workers

namespace Scan

variable {σ ε : Type}

/-- The phases of a scan whose files are extracted by some moves of workers, if these end the work. -/
def phasesBy? (store : Store σ ε) (extract : FilePath → List Occurrence) (job : ScanJob) (moves : List Nat)
    (state : ScanState σ) : Option (ScanState σ × Except ε Summary) :=
  let workers := Workers.play extract job.files moves
  workers.collect?.map fun results =>
    let found := Found.ofOccurrences job.table results.flatten
    proceed store job found (state.emit (opening job workers.announced found))

def runBy? (store : Store σ ε) (extract : FilePath → List Occurrence) (job : ScanJob) (moves : List Nat)
    (state : ScanState σ) : Option (ScanState σ × Except ε Summary) :=
  (phasesBy? store extract job moves state.reset).map close

theorem phasesBy?_of_complete (store : Store σ ε) (extract : FilePath → List Occurrence) (job : ScanJob)
    {moves : List Nat} (complete : Workers.Complete job.files.length moves) (state : ScanState σ) :
    phasesBy? store extract job moves state =
      some (phases store extract { job with schedule := (Workers.play extract job.files moves).announced }
        state) := by
  rw [phasesBy?, Workers.collect?_play, if_pos complete]
  simp only [Option.map_some, ← List.flatMap_def]
  rfl

theorem runBy?_of_complete (store : Store σ ε) (extract : FilePath → List Occurrence) (job : ScanJob)
    {moves : List Nat} (complete : Workers.Complete job.files.length moves) (state : ScanState σ) :
    runBy? store extract job moves state =
      some (run store extract { job with schedule := (Workers.play extract job.files moves).announced } state) := by
  rw [runBy?, phasesBy?_of_complete store extract job complete, Option.map_some, run]

end Scan

end Phrasebook
