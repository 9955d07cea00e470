import Phrasebook.Proofs.Catalogue.History
import Phrasebook.Proofs.Catalogue.Identity
import Phrasebook.Proofs.Catalogue.Loading

namespace Phrasebook

open Function (update)

theorem MessageRow.RefersTo.origin {message : MessageRow} {kind : SourceKind} {id : Int}
    (refers : message.RefersTo kind id) : message.origin = (kind, id) := by
  have set := refers.set
  cases kind with
  | grouped =>
      simp only [sourceId?] at set
      simp [MessageRow.origin, set]
  | text =>
      have none := refers.alone .grouped (by decide)
      simp only [sourceId?] at set none
      simp [MessageRow.origin, set, none]

namespace Catalogue.Sound

variable {c : Catalogue} {sources sources' : SourceKind → Table} {messages : Table}

end Catalogue.Sound

def shown (line : SourceRow × String) : String × Option String × String :=
  (line.1.source, line.1.scope?, line.2)

namespace Catalogue

namespace Sound

variable {c c' : Catalogue} {sources sources' : SourceKind → Table} {messages messages' : Table}

end Sound

end Catalogue

end Phrasebook
