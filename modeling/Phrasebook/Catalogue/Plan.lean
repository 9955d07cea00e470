import Phrasebook.Source.MissingPolicy

namespace Phrasebook

structure SnapshotEntry where
  value : String
  id : Int
  missing : Bool
  deriving DecidableEq, Repr

abbrev Snapshot := List SnapshotEntry

namespace Snapshot

def find? (value : String) (snapshot : Snapshot) : Option SnapshotEntry :=
  List.find? (·.value == value) snapshot

def without (value : String) (snapshot : Snapshot) : Snapshot :=
  snapshot.filter (·.value != value)

def ofEntries : List SnapshotEntry → Snapshot
  | [] => []
  | entry :: entries =>
    if entries.any (·.value == entry.value) then ofEntries entries else entry :: ofEntries entries

end Snapshot

structure Plan where
  inserts : List String
  renew : List Int
  pending : List Int
  deriving DecidableEq, Repr

namespace Plan

def isEmpty (plan : Plan) : Bool :=
  plan.inserts.isEmpty && plan.renew.isEmpty && plan.pending.isEmpty

/-- The plan for found values, `waiting` being the entries not found so far and `met` the values that have
been. -/
def makeFrom (waiting : Snapshot) (met : List String) : List String → Plan
  | [] => ⟨[], [], (waiting.map (·.id)).mergeSort (· ≤ ·)⟩
  | value :: values =>
    let plan := Plan.makeFrom (waiting.without value) (value :: met) values
    match waiting.find? value with
    | some entry => if entry.missing then { plan with renew := entry.id :: plan.renew } else plan
    | none => if value ∈ met then plan else { plan with inserts := value :: plan.inserts }

def make (snapshot : Snapshot) (found : List String) : Plan := Plan.makeFrom snapshot [] found

end Plan

structure Outcome where
  inserted : Nat
  renewed : Nat
  missingActed : Nat
  deriving DecidableEq, Repr

namespace Outcome

def zero : Outcome := ⟨0, 0, 0⟩

def add (a b : Outcome) : Outcome :=
  ⟨a.inserted + b.inserted, a.renewed + b.renewed, a.missingActed + b.missingActed⟩

end Outcome

end Phrasebook
