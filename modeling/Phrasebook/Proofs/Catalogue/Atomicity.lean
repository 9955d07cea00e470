import Phrasebook.Proofs.Catalogue.Reconcile

namespace Phrasebook

open Function (update)

namespace Catalogue

variable {c : Catalogue}

theorem rollback_of_begin {later : Catalogue} (idle : c.before = none) (names : later.names = c.names)
    (before : later.before = c.begin.before) : later.rollback = c := by
  cases c
  cases later
  cases idle
  cases names
  cases before
  rfl

namespace Sound

variable {sources : SourceKind → Table} {messages : Table}

end Sound

theorem performAll_append (c : Catalogue) (operations later : List Operation) :
    c.performAll (operations ++ later) = (c.performAll operations).performAll later :=
  List.foldl_append

end Catalogue

end Phrasebook
