import Lisplet.Config.Json
import Lisplet.Evaluator.Lemmas
import Lisplet.Expr.Json
import Lisplet.Expr.Shape
import Lisplet.Probe
import Lisplet.Proofs.Frame
import Lisplet.Proofs.Limit
import Lisplet.Proofs.RoundTrip
import Lisplet.Proofs.ValidPrefix
import Lisplet.Proofs.Layout
import Lisplet.Proofs.Locality
import Lisplet.Proofs.Join
import Lisplet.Proofs.Lineage
import Lisplet.Proofs.World
import Lisplet.Proofs.Relocation
import Lisplet.Proofs.Simulation
import Lisplet.Proofs.Repetition
import Lisplet.Proofs.Whole
import Lisplet.Proofs.Commutation
import Lisplet.Proofs.WellScoped
import Lisplet.Proofs.Aliases
import Lisplet.Proofs.Termination
import Lisplet.Proofs.CallDepth
import Lisplet.Proofs.ExactArithmetic
import Lisplet.Proofs.Printable
import Lisplet.Proofs.AliasChain
import Lisplet.Proofs.Equivariance
import Lisplet.Proofs.Shadowing
import Lisplet.Proofs.JsonCoding
import Lisplet.Proofs.Binary64.Nearest
import Lisplet.Proofs.LiteralValue
import Lisplet.Proofs.Folding
import Lisplet.Proofs.Division
import Lisplet.Proofs.Equality
