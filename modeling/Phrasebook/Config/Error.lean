namespace Phrasebook

inductive SettingError
  | unreadable (path reason : String)
  | malformed
  | unknownKind (text : String)
  | duplicateFunction (name : String)
  | invalidTableName (name : String)
  | emptyLocale
  | invalidFlag (text : String)
  deriving DecidableEq, Repr

def SettingError.message? : SettingError → Option String
  | .unreadable path reason => some s!"failed to read config {path}: {reason}"
  | .malformed => none
  | .unknownKind text => some s!"unknown source kind '{text}' (expected 'grouped' or 'text')"
  | .duplicateFunction name => some s!"translation function '{name}' is configured more than once"
  | .invalidTableName name => some s!"invalid table name '{name}'"
  | .emptyLocale => some "source locale must not be empty"
  | .invalidFlag text =>
    some s!"invalid flag value '{text}' (expected true/false, yes/no, on/off or a number)"

end Phrasebook
