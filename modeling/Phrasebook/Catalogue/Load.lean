import Phrasebook.Catalogue.Catalogue
import Phrasebook.Catalogue.Pattern
import Phrasebook.Text.Search
import Phrasebook.Text.Utf8

namespace Phrasebook

abbrev Dictionary := List (String × String)

namespace Dictionary

def set (key value : String) : Dictionary → Dictionary
  | [] => [(key, value)]
  | (other, old) :: rest =>
    if key < other then (key, value) :: (other, old) :: rest
    else if key = other then (key, value) :: rest
    else (other, old) :: set key value rest

def ofPairs (pairs : List (String × String)) : Dictionary :=
  pairs.foldl (fun dictionary (key, value) => dictionary.set key value) []

end Dictionary

namespace Catalogue

def wildcard : String := "*"

def joined (catalogue : Catalogue) (kind : SourceKind) (locale : String) :
    Except DatabaseError (List (SourceRow × String)) := do
  let sources ← catalogue.database.table (catalogue.names.ofKind kind)
  let rows ← catalogue.messages
  if (sources.lacking? ["source"]).isSome then throw (.noColumn "src.source")
  let sourceId (row : MessageRow) := if kind = .grouped then row.groupedId else row.textId
  return (rows.filter (·.locale == locale)).filterMap fun row =>
    ((sourceId row).bind fun id => sources.sources.find? (·.id == id)).map (·, row.message)

def loadTexts (catalogue : Catalogue) (locale : String) : Except DatabaseError Dictionary := do
  let pairs ← catalogue.joined .text locale
  return .ofPairs (pairs.map fun (row, message) => (row.source, message))

/-- The pattern that selects the sources of a group, and with them sources that differ in case. -/
def groupPattern (group : String) : List Char := Pattern.escape group.toList ++ ".%".toList

def patternLimit : Nat := 50000

def keyIn? (group source : String) : Option String :=
  let lead := group.toList ++ ['.']
  if begins lead source.toList then some (String.ofList (source.toList.drop lead.length)) else none

def loadGroup (catalogue : Catalogue) (locale group : String) (scope? : Option String) :
    Except DatabaseError Dictionary := do
  let pairs ← catalogue.joined .grouped locale
  if pairs ≠ [] ∧ patternLimit < (Utf8.encode (groupPattern group)).length then throw .patternTooLong
  let selected := pairs.filter fun (row, _) =>
    Pattern.selects (groupPattern group) row.source.toList && (scope?.isNone || row.scope? == scope?)
  return .ofPairs (selected.filterMap fun (row, message) => (keyIn? group row.source).map (·, message))

/-- The messages for one locale and group. The source locale has none. -/
def load (catalogue : Catalogue) (sourceLocale locale group : String) (scope? : Option String) :
    Except DatabaseError Dictionary :=
  if locale = sourceLocale then .ok []
  else if group = wildcard ∧ scope? = some wildcard then catalogue.loadTexts locale
  else catalogue.loadGroup locale group (if scope? = some wildcard then none else scope?)

end Catalogue

end Phrasebook
