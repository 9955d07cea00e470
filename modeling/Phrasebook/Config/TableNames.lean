import Phrasebook.Config.Error
import Phrasebook.Source.Kind
import Phrasebook.Text.WordChar

namespace Phrasebook

structure TableNames where
  grouped : String
  text : String
  messages : String
  deriving DecidableEq, Repr

def isIdentifier (name : String) : Bool :=
  match name.toList with
  | [] => false
  | c :: rest => (c.isAlpha || c == '_') && rest.all isAsciiWordChar

namespace TableNames

def standard : TableNames :=
  ⟨"translation_source_grouped", "translation_source_text", "translation_messages"⟩

def ofKind (names : TableNames) : SourceKind → String
  | .grouped => names.grouped
  | .text => names.text

def validate (names : TableNames) : Except SettingError Unit :=
  match [names.grouped, names.text, names.messages].find? (!isIdentifier ·) with
  | some name => .error (.invalidTableName name)
  | none => .ok ()

end TableNames

end Phrasebook
