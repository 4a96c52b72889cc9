import RootTrace.Trajectory

/-!
# Following roots along a path

A path is a list of parameters. The roots at each of its points are corrected
from the roots at the point before, the first ones from a seed. The first point
that fails ends the run, and its failure names the point. Roots that did not
converge are kept, and the next point starts from them.
-/

namespace RootTrace

universe u

/-- What stays the same along a path: the system, the settings, and the roots
from which the first point starts. -/
structure Problem (α : Type u) (n : Nat) where
  /-- The system whose roots are followed. -/
  system : RootSystem α
  /-- How roots are corrected. -/
  settings : Settings α
  /-- Where the first point starts. -/
  seed : Vector (Complex α) n

/-- The problem that starts from a list of roots. -/
def Problem.ofList {α : Type u} (system : RootSystem α) (settings : Settings α)
    (seed : List (Complex α)) : Problem α seed.length :=
  ⟨system, settings, rootVector seed⟩

namespace Problem

variable {α : Type u} {n : Nat}
variable [Zero α] [One α] [Add α] [Sub α] [Mul α] [Neg α] [Div α] [BEq α]
  [LT α] [DecidableLT α] [Magnitude α]

/-- Correct the roots at the next point of a path. -/
def advance (problem : Problem α n) (track : Track α n) (q : Complex α) :
    Run α (Track α n) :=
  track.record <$>
    (Corrector.correct problem.system problem.settings (track.latest problem.seed) q).within
      (.pathStep track.length q)

/-- Follow the roots along a path. -/
def trace (problem : Problem α n) (path : List (Complex α)) : Run α (Track α n) := do
  Run.ofCheck (Corrector.check n problem.settings)
  Run.emit (.pathStarted n path.length)
  let track ← path.foldlM problem.advance Track.empty
  Run.emit (.pathFinished track.unconverged.length)
  pure track

/-- Advance over points up to the first that fails. The track holds the points
before it, and a failure stands beside the track. -/
def advanceWhile (problem : Problem α n) :
    List (Complex α) → Track α n → Run α (Track α n × Option (Failure α))
  | [], track => pure (track, none)
  | q :: rest, track => do
      match ← (problem.advance track q).attempt with
      | .error failure => pure (track, some failure)
      | .ok next => problem.advanceWhile rest next

end Problem
end RootTrace
