import Residual.Program
import Residual.Proofs.Allocation
import Residual.Proofs.Capture
import Residual.Proofs.Compatibility
import Residual.Proofs.Consistency
import Residual.Proofs.Definite
import Residual.Proofs.Escape
import Residual.Proofs.Fields
import Residual.Proofs.Locations
import Residual.Proofs.Modes
import Residual.Proofs.Operands
import Residual.Proofs.Positions
import Residual.Proofs.Reading
import Residual.Proofs.Recurrence
import Residual.Proofs.Recursion
import Residual.Proofs.Registration
import Residual.Proofs.Renaming
import Residual.Proofs.Selection
import Residual.Proofs.Soundness
import Residual.Proofs.Specialization
import Residual.Proofs.StaticScope
import Residual.Proofs.Symbolic
import Residual.Proofs.Termination
import Residual.Proofs.TypePreservation
import Residual.Proofs.Unbound
import Residual.Proofs.Values
import Residual.Proofs.Weakening
