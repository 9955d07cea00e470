import Phrasebook.Distinct
import Phrasebook.Source.FunctionTable

namespace Phrasebook

structure Occurrence where
  function : String
  value : String
  deriving DecidableEq, Repr

structure Found where
  value : String
  kind : SourceKind
  deriving DecidableEq, Repr

namespace Found

def ofOccurrence? (table : FunctionTable) (occurrence : Occurrence) : Option Found :=
  (table.kind? occurrence.function).map fun kind => ⟨occurrence.value, kind⟩

def ofOccurrences (table : FunctionTable) (occurrences : List Occurrence) : List Found :=
  firsts [] (occurrences.filterMap (ofOccurrence? table))

def values (kind : SourceKind) (found : List Found) : List String :=
  (found.filter (·.kind == kind)).map (·.value)

end Found

end Phrasebook
