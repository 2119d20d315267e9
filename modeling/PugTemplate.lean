import PugTemplate.Main
import PugTemplate.Proofs.Bindings
import PugTemplate.Proofs.Concatenation
import PugTemplate.Proofs.Directories
import PugTemplate.Proofs.Discarding
import PugTemplate.Proofs.Entries
import PugTemplate.Proofs.Excerpts
import PugTemplate.Proofs.Formatting
import PugTemplate.Proofs.Indentation
import PugTemplate.Proofs.InlineTags
import PugTemplate.Proofs.LineEnds
import PugTemplate.Proofs.Memo
import PugTemplate.Proofs.Parentheses
import PugTemplate.Proofs.Precedence
import PugTemplate.Proofs.Progress
import PugTemplate.Proofs.RawBlocks
import PugTemplate.Proofs.Readback
import PugTemplate.Proofs.Scopes
import PugTemplate.Proofs.Switches
import PugTemplate.Proofs.TextBreaks
