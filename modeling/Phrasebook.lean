import Phrasebook.Main
import Phrasebook.Proofs.Catalogue.Layout
import Phrasebook.Proofs.Catalogue.Opening
import Phrasebook.Proofs.Catalogue.Statements
import Phrasebook.Proofs.Catalogue.Apply
import Phrasebook.Proofs.Catalogue.Soundness
import Phrasebook.Proofs.Catalogue.Consistency
import Phrasebook.Proofs.Catalogue.Planning
import Phrasebook.Proofs.Catalogue.Reconcile
import Phrasebook.Proofs.Catalogue.Round
import Phrasebook.Proofs.Catalogue.Interleaving
import Phrasebook.Proofs.Catalogue.History
import Phrasebook.Proofs.Catalogue.Atomicity
import Phrasebook.Proofs.Catalogue.Loading
import Phrasebook.Proofs.Catalogue.Identity
import Phrasebook.Proofs.Catalogue.Serving
import Phrasebook.Proofs.Catalogue.Chunks
import Phrasebook.Proofs.Catalogue.Partition
import Phrasebook.Proofs.Files.Contents
import Phrasebook.Proofs.Files.Listing
import Phrasebook.Proofs.Files.Kinds
import Phrasebook.Proofs.Scan.Isolation
import Phrasebook.Proofs.Scan.Workers
import Phrasebook.Proofs.Scan.Protocol
import Phrasebook.Proofs.Scan.Independence
import Phrasebook.Proofs.Text.Utf8
import Phrasebook.Proofs.Text.Search
import Phrasebook.Proofs.Text.Offsets
import Phrasebook.Proofs.Text.Numerals
import Phrasebook.Proofs.Php.Derivation
import Phrasebook.Proofs.Php.Reading
import Phrasebook.Proofs.Php.Refusal
import Phrasebook.Proofs.Php.Reads
import Phrasebook.Proofs.Php.Lexing
import Phrasebook.Proofs.Php.Names
import Phrasebook.Proofs.Php.Quoting
import Phrasebook.Proofs.Php.Escapes
import Phrasebook.Proofs.Php.Heredocs
import Phrasebook.Proofs.Php.Decoding
import Phrasebook.Proofs.Php.Spellings
import Phrasebook.Proofs.Php.Decoders
import Phrasebook.Proofs.Php.Slots
import Phrasebook.Proofs.Php.Yields
import Phrasebook.Proofs.Php.Expressions
import Phrasebook.Proofs.Php.Whole
import Phrasebook.Proofs.Php.Faultless
import Phrasebook.Proofs.Php.LiteralCalls
import Phrasebook.Proofs.Php.Totality
import Phrasebook.Proofs.Php.Places
import Phrasebook.Proofs.Php.Lexemes
import Phrasebook.Proofs.Php.Faults
import Phrasebook.Proofs.Php.Shapes
import Phrasebook.Proofs.Php.Sites
import Phrasebook.Proofs.Template.Sections
import Phrasebook.Proofs.Template.Pieces
import Phrasebook.Proofs.Template.Copying
import Phrasebook.Proofs.Template.Tags
import Phrasebook.Proofs.Template.Bodies
import Phrasebook.Proofs.Template.Statements
import Phrasebook.Proofs.Template.Blocks
import Phrasebook.Proofs.Template.Extraction
import Phrasebook.Proofs.Template.Wrappers
import Phrasebook.Proofs.Template.Usages
import Phrasebook.Proofs.Template.Translation
import Phrasebook.Proofs.Template.Comments
import Phrasebook.Proofs.Template.RawSections
import Phrasebook.Proofs.Template.Regions
import Phrasebook.Proofs.Template.Unterminated
import Phrasebook.Proofs.Template.Matching
import Phrasebook.Proofs.Template.Positions
import Phrasebook.Proofs.Scan.Sources
import Phrasebook.Proofs.Config.Reading
import Phrasebook.Proofs.Config.Outcome
import Phrasebook.Proofs.Config.Flags
import Phrasebook.Proofs.Program.Rejection
import Phrasebook.Proofs.Php.Lookahead
import Phrasebook.Proofs.Php.Separators
import Phrasebook.Proofs.Php.Remarks
import Phrasebook.Proofs.Php.Neighbours
import Phrasebook.Proofs.Php.Nesting
import Phrasebook.Proofs.Php.Insertion
import Phrasebook.Proofs.Php.Stripping
import Phrasebook.Proofs.Php.Differences
import Phrasebook.Proofs.Php.Comments
