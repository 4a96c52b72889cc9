import RootTrace.Path

/-!
# Following a path in batches

A runner follows a path a few points at a time, so that progress can be
reported in between. A point that fails is not recorded: the points before it
are kept, and the next batch tries it again.
-/

namespace RootTrace

universe u

/-- How far a path has been followed. -/
structure Progress where
  /-- Whether no points are left. -/
  done : Bool
  /-- Number of points that have been followed. -/
  currentStep : Nat
  /-- Number of points of the path. -/
  totalSteps : Nat
  deriving DecidableEq

/-- A path that is being followed. -/
structure Runner (α : Type u) where
  /-- Number of roots. -/
  dimension : Nat
  /-- What stays the same along the path. -/
  problem : Problem α dimension
  /-- All points of the path. -/
  path : List (Complex α)
  /-- The roots at the points that have been followed. -/
  track : Track α dimension

namespace Runner

variable {α : Type u}

/-- Whether no points are left. -/
def isDone (runner : Runner α) : Bool :=
  decide (runner.path.length ≤ runner.track.length)

/-- How far the path has been followed. -/
def progress (runner : Runner α) : Progress where
  done := runner.isDone
  currentStep := runner.track.length
  totalSteps := runner.path.length

/-- The roots at the points that have been followed. -/
def result (runner : Runner α) : Trajectory α :=
  runner.track.trajectory

variable [Zero α] [One α] [LT α] [DecidableLT α]

/-- A runner at the beginning of a path. -/
def create {n : Nat} (problem : Problem α n) (path : List (Complex α)) :
    Except (Fault α) (Runner α) :=
  (Corrector.check n problem.settings).map fun _ => ⟨n, problem, path, Track.empty⟩

variable [Add α] [Sub α] [Mul α] [Neg α] [Div α] [BEq α] [Magnitude α]

/-- Follow at most `batch` further points. A failure stands beside the runner
that holds the points before it. -/
def runSteps (runner : Runner α) (batch : Nat) :
    Run α (Runner α × Option (Failure α)) := do
  let points := (runner.path.drop runner.track.length).take batch
  let (track, failure) ← runner.problem.advanceWhile points runner.track
  pure ({ runner with track }, failure)

end Runner
end RootTrace
