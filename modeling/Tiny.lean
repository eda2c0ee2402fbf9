import Tiny.Command.Disk
import Tiny.Main
import Tiny.Proofs.Agreement
import Tiny.Proofs.Commenting
import Tiny.Proofs.Comparison
import Tiny.Proofs.Delivery
import Tiny.Proofs.Framing
import Tiny.Proofs.Hashing
import Tiny.Proofs.Interruption
import Tiny.Proofs.Mentions
import Tiny.Proofs.Operations
import Tiny.Proofs.Ordering
import Tiny.Proofs.Rearranging
import Tiny.Proofs.Refusal
import Tiny.Proofs.Reservation
import Tiny.Proofs.Traversal
import Tiny.Proofs.Truncation
import Tiny.Proofs.Viability
import Tiny.Proofs.Violations
