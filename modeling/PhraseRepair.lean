import PhraseRepair.Document.Codec
import PhraseRepair.Event
import PhraseRepair.Proofs.Veiled
import PhraseRepair.Proofs.Keys
import PhraseRepair.Proofs.Cells
import PhraseRepair.Proofs.Blindness
import PhraseRepair.Proofs.Outline
import PhraseRepair.Proofs.Resolving
import PhraseRepair.Proofs.Soundness
import PhraseRepair.Proofs.Parts
import PhraseRepair.Proofs.Reports
import PhraseRepair.Proofs.Undoing
import PhraseRepair.Proofs.Acceptance
import PhraseRepair.Proofs.Closing
import PhraseRepair.Proofs.Grammar
import PhraseRepair.Proofs.Gathering
import PhraseRepair.Proofs.Respacing
import PhraseRepair.Proofs.Idempotence
import PhraseRepair.Proofs.Respelling
import PhraseRepair.Proofs.Runs
import PhraseRepair.Proofs.Preservation
import PhraseRepair.Proofs.Sessions
import PhraseRepair.Proofs.Nesting
import PhraseRepair.Proofs.Opacity
import PhraseRepair.Proofs.Rendering
import PhraseRepair.Proofs.Exchanges
import PhraseRepair.Proofs.Reading
import PhraseRepair.Proofs.Documents
import PhraseRepair.Proofs.Numbering
import PhraseRepair.Proofs.Conjoining
import PhraseRepair.Proofs.Neatness
import PhraseRepair.Proofs.Declarations
import PhraseRepair.Proofs.References
import PhraseRepair.Proofs.Undeclared
import PhraseRepair.Proofs.Decoding
import PhraseRepair.Proofs.Isolating
import PhraseRepair.Proofs.Refusals
import PhraseRepair.Proofs.Verbatim
import PhraseRepair.Proofs.Locality
import PhraseRepair.Proofs.Spans
import PhraseRepair.Proofs.Pairing
import PhraseRepair.Proofs.NameCharacters
import PhraseRepair.Proofs.Splitting
import PhraseRepair.Proofs.Worklist
