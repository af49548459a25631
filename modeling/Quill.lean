import Quill.Parser
import Quill.Proofs.BlankLine
import Quill.Proofs.Conversion
import Quill.Proofs.Coverage
import Quill.Proofs.Embedding
import Quill.Proofs.Equality
import Quill.Proofs.Faults
import Quill.Proofs.Independence
import Quill.Proofs.Literal
import Quill.Proofs.Operand
import Quill.Proofs.Peeking
import Quill.Proofs.Place
import Quill.Proofs.Positions
import Quill.Proofs.Precedence
import Quill.Proofs.Program
import Quill.Proofs.Progress
import Quill.Proofs.Rendering
import Quill.Proofs.Signs
import Quill.Proofs.Tiling
import Quill.Proofs.ValidPrefix
import Quill.Proofs.WellFormed
import Quill.Proofs.WholeNumber
import Quill.Session.Parser
import Quill.Tree.Render
import Quill.Tree.Same
