import Phrasebook.Text.Blank
import Phrasebook.Config.Error

namespace Phrasebook

inductive SourceKind
  | grouped
  | text
  deriving DecidableEq, Repr

namespace SourceKind

def all : List SourceKind := [.grouped, .text]

def name : SourceKind → String
  | .grouped => "grouped"
  | .text => "text"

def parse? (text : String) : Option SourceKind :=
  let word := (trimBlanks text.toList).map lowerAscii
  if word = "grouped".toList then some .grouped
  else if word = "text".toList then some .text
  else none

def parse (text : String) : Except SettingError SourceKind :=
  match parse? text with
  | some kind => .ok kind
  | none => .error (.unknownKind text)

theorem mem_all (kind : SourceKind) : kind ∈ all := by cases kind <;> decide

end SourceKind

end Phrasebook
