import RootTrace.Batch
import RootTrace.Config

/-!
# Solving the equations of a configuration

The equations are set up from their constants first, so constants that are
turned down are reported before anything else. The roots are then corrected
with the standard settings, unless settings are given.
-/

namespace RootTrace
namespace Solver

/-- The system of root equations that the constants describe. -/
def system (config : Config (Complex Float)) : Except (Fault Float) (RootSystem Float) :=
  config.equations.map RootSystem.ofProductForm

/-- Residuals of the equations. -/
def residual {n : Nat} (config : Config (Complex Float))
    (x : Vector (Complex Float) n) (q : Complex Float) :
    Except (Fault Float) (Vector (Complex Float) n) :=
  (system config).map fun system => system.residual x q

/-- Derivatives of the residuals. -/
def jacobian {n : Nat} (config : Config (Complex Float))
    (x : Vector (Complex Float) n) (q : Complex Float) :
    Except (Fault Float) (RowMatrix (Complex Float) n n) :=
  (system config).map fun system => system.jacobian x q

/-- Roots at one parameter. -/
def solve {n : Nat} (config : Config (Complex Float))
    (seed : Vector (Complex Float) n) (q : Complex Float) :
    Run Float (Vector (Complex Float) n) := do
  let system ← Run.ofCheck (system config)
  Correction.roots <$> Corrector.correct system Settings.standard seed q

/-- Roots along a path. -/
def solvePath (config : Config (Complex Float)) (seed : List (Complex Float))
    (path : List (Complex Float)) : Run Float (Trajectory Float) := do
  let system ← Run.ofCheck (system config)
  Track.trajectory <$> (Problem.ofList system Settings.standard seed).trace path

/-- Roots along a path for every seed of a batch. -/
def traceSeeds (config : Config (Complex Float)) (settings : Settings Float)
    (path : List (Complex Float)) (seeds : List Seed) : Run Float (List Report) := do
  let system ← Run.ofCheck (system config)
  Batch.trace system settings path seeds

end Solver
end RootTrace
