import RootTrace.Magnitude
import RootTrace.Complex
import RootTrace.Embedding
import RootTrace.Elimination
import RootTrace.ProductForm
import RootTrace.Decimal.Shortest
import RootTrace.Decimal.Text
import RootTrace.Fault
import RootTrace.Run
import RootTrace.Config
import RootTrace.RootSystem
import RootTrace.Corrector
import RootTrace.Trajectory
import RootTrace.Path
import RootTrace.Runner
import RootTrace.Message
import RootTrace.Batch
import RootTrace.Solver
import RootTrace.Session
import RootTrace.Json.Value
import RootTrace.Json.Text
import RootTrace.Json.Parser
import RootTrace.Record.Fields
import RootTrace.Record.Types
import RootTrace.Json.Source
import RootTrace.Host.Value
import RootTrace.Host.Refusal
import RootTrace.Host.Workbench
import RootTrace.Proofs.Algebra.Sides
import RootTrace.Proofs.ProductForm.Products
import RootTrace.Proofs.ProductForm.Map
import RootTrace.Proofs.Algebra.Matrix
import RootTrace.Proofs.ProductForm.Jacobian
import RootTrace.Proofs.Path.Batches
import RootTrace.Proofs.Path.Reading
import RootTrace.Proofs.Path.Transpose
import RootTrace.Proofs.Path.Chain
import RootTrace.Proofs.Algebra.Complex
import RootTrace.Proofs.LinearSystem.Factorization
import RootTrace.Proofs.LinearSystem.Substitution
import RootTrace.Proofs.LinearSystem.Solution
import RootTrace.Proofs.LinearSystem.Embedding
import RootTrace.Proofs.Newton.Step
import RootTrace.Proofs.Newton.Stopping
import RootTrace.Proofs.Path.Segments
import RootTrace.Proofs.Batch.Interleaving
import RootTrace.Proofs.Batch.Reports
import RootTrace.Proofs.Finiteness.Scalars
import RootTrace.Proofs.Finiteness.Solve
import RootTrace.Proofs.Finiteness.Corrections
import RootTrace.Proofs.Finiteness.Results
import RootTrace.Proofs.Host.Course
import RootTrace.Proofs.Host.Lifecycle
import RootTrace.Proofs.Host.Rounds
import RootTrace.Proofs.Host.Routes
import RootTrace.Proofs.Symmetry.Transport
import RootTrace.Proofs.Symmetry.Permutation
import RootTrace.Proofs.Symmetry.Conjugation
import RootTrace.Proofs.Algebra.Comparison
import RootTrace.Proofs.Newton.Endings
import RootTrace.Proofs.Path.Demand
import RootTrace.Proofs.ProductForm.RowSums
import RootTrace.Proofs.Symmetry.Duality
import RootTrace.Proofs.Path.Resumption
import RootTrace.Proofs.Algebra.Lengths
import RootTrace.Proofs.Newton.Outcomes
import RootTrace.Proofs.Newton.Stationary
import RootTrace.Proofs.Newton.Affine
import RootTrace.Proofs.Places.Loops
import RootTrace.Proofs.Places.Equations
import RootTrace.Proofs.Places.Embedding
import RootTrace.Proofs.Places.Corrections
import RootTrace.Proofs.Places.Paths
import RootTrace.Proofs.Places.Closure
import RootTrace.Proofs.Places.Residuals
import RootTrace.Proofs.Symmetry.Rescaling
import RootTrace.Proofs.LinearSystem.Representation
import RootTrace.Proofs.Places.Halves
import RootTrace.Proofs.Batch.Records
import RootTrace.Proofs.Algebra.Reciprocal
import RootTrace.Proofs.Record.RoundTrip
import RootTrace.Proofs.Path.Ragged
