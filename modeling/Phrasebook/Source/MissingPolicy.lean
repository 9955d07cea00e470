namespace Phrasebook

inductive MissingPolicy
  | keep
  | delete
  | mark
  deriving DecidableEq, Repr

namespace MissingPolicy

def ofFlags (delete mark : Bool) : MissingPolicy :=
  if delete then .delete else if mark then .mark else .keep

def actionWord : MissingPolicy → String
  | .keep => "left untouched"
  | .delete => "deleted"
  | .mark => "marked as missing"

end MissingPolicy

end Phrasebook
