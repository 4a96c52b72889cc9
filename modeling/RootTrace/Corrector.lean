import RootTrace.Elimination
import RootTrace.RootSystem
import RootTrace.Run

/-!
# Correction of roots at a fixed parameter

One iteration solves the linear system of the derivatives for the residuals,
through the real embedding, and takes a damped step against the solution. The
iterations stop when a step changes the sum of the moduli of the roots by less
than a tolerance. Running out of iterations is a failure only on request;
otherwise the last roots are returned and marked as not converged.
-/

namespace RootTrace

universe u

/-- How roots are corrected. -/
structure Settings (α : Type u) where
  /-- Number of iterations that may be spent. -/
  maxSteps : Nat
  /-- A change below this ends the iterations. -/
  tolerance : α
  /-- Part of each step that is taken. -/
  damping : α
  /-- Whether running out of iterations is a failure. -/
  requireConvergence : Bool
  deriving DecidableEq

/-- Twenty full steps, a change below `10 ^ (-10)`, and no failure for running
out of iterations. -/
def Settings.standard : Settings Float where
  maxSteps := 20
  tolerance := 1e-10
  damping := 1.0
  requireConvergence := false

/-- Accept or turn down settings. The number of iterations is looked at first,
then the tolerance, then the damping. -/
def Settings.check {α : Type u} [Zero α] [One α] [LT α] [DecidableLT α]
    (settings : Settings α) : Except (Fault α) PUnit.{u + 1} :=
  if settings.maxSteps = 0 then
    .error (.invalid .noSteps)
  else if ¬ 0 < settings.tolerance then
    .error (.invalid .toleranceNotPositive)
  else if ¬ 0 < settings.damping ∨ 1 < settings.damping then
    .error (.invalid .dampingOutOfRange)
  else
    .ok ⟨⟩

/-- Corrected roots. -/
structure Correction (α : Type u) (n : Nat) where
  /-- The roots after the last iteration. -/
  roots : Vector (Complex α) n
  /-- Number of iterations that were carried out. -/
  iterations : Nat
  /-- Whether the last change was small. -/
  converged : Bool
  /-- By how much the last iteration changed the sum of moduli. -/
  change : α
  deriving DecidableEq

namespace Corrector

variable {α : Type u} {n : Nat}

/-- Accept or turn down a task. That there are no roots is reported before
anything about the settings. -/
def check [Zero α] [One α] [LT α] [DecidableLT α]
    (n : Nat) (settings : Settings α) : Except (Fault α) PUnit.{u + 1} :=
  if n = 0 then .error .emptySeed else settings.check

/-- The roots after one damped step, if the linear system has a unique
solution. -/
def step? [Zero α] [One α] [Add α] [Sub α] [Mul α] [Neg α] [Div α] [BEq α]
    [LT α] [DecidableLT α] [Magnitude α]
    (system : RootSystem α) (damping : α) (q : Complex α)
    (x : Vector (Complex α) n) : Option (Vector (Complex α) n) :=
  (Elimination.solve? (Embedding.embedMatrix (system.jacobian x q))
      (Embedding.embedVector (system.residual x q))).map fun solution =>
    Vector.zipWith (fun root delta => root - delta.scale damping) x
      (Embedding.unembedVector solution)

/-- By how much the sum of moduli differs between two vectors of roots. -/
def changeOf [Add α] [Sub α] [Magnitude α] (before after : Vector (Complex α) n) : α :=
  Magnitude.abs (Complex.absSum after.toList - Complex.absSum before.toList)

variable [Zero α] [One α] [Add α] [Sub α] [Mul α] [Neg α] [Div α] [BEq α]
  [LT α] [DecidableLT α] [Magnitude α]

/-- One iteration: the new roots, and by how much they changed the sum. Roots
that are not finite are never handed on. -/
def iterate (system : RootSystem α) (damping : α) (q : Complex α)
    (iteration : Nat) (x : Vector (Complex α) n) :
    Run α (Vector (Complex α) n × α) :=
  match step? system damping q x with
  | none => (Run.fail (.ofFault (.singular iteration))).within .linearSolve
  | some next =>
      if Complex.allFinite next.toList then do
        let change := changeOf x next
        Run.emit (.iteration iteration change)
        pure (next, change)
      else
        Run.fail (.ofFault (.nonFinite iteration))

/-- What becomes of roots that are still changing when the iterations are used
up. -/
def giveUp (settings : Settings α) (q : Complex α) (x : Vector (Complex α) n)
    (change : α) : Run α (Correction α n) :=
  if settings.requireConvergence then
    Run.fail (.ofFault (.notConverged settings.maxSteps change))
  else do
    Run.emit (.exhausted settings.maxSteps change q)
    pure ⟨x, settings.maxSteps, false, change⟩

/-- Iterate from the given iteration on. Behind it, `spare` more iterations may
be carried out. -/
def correctFrom (system : RootSystem α) (settings : Settings α) (q : Complex α) :
    (spare iteration : Nat) → Vector (Complex α) n → Run α (Correction α n)
  | spare, iteration, x => do
      let (next, change) ← iterate system settings.damping q iteration x
      if change < settings.tolerance then
        pure ⟨next, iteration, true, change⟩
      else
        match spare with
        | 0 => giveUp settings q next change
        | spare + 1 => correctFrom system settings q spare (iteration + 1) next

/-- Correct roots at a fixed parameter. -/
def correct (system : RootSystem α) (settings : Settings α)
    (seed : Vector (Complex α) n) (q : Complex α) : Run α (Correction α n) := do
  Run.ofCheck (check n settings)
  correctFrom system settings q (settings.maxSteps - 1) 1 seed

end Corrector
end RootTrace
