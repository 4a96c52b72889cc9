import RootTrace.Message
import RootTrace.Path

/-!
# Batches of seeds

Every seed of a batch is followed along the same path of the same system, and
every seed is reported on in its place. The seeds do not depend on each other:
a seed that fails is reported as such, and the batch goes on.
-/

namespace RootTrace

/-- Named roots to start from. -/
structure Seed where
  /-- Name of the seed. -/
  name : String
  /-- The roots. -/
  roots : List (Complex Float)
  deriving DecidableEq

/-- What became of a seed. -/
structure Report where
  /-- Name of the seed. -/
  name : String
  /-- The roots along the path. -/
  trajectory : Option (Trajectory Float)
  /-- The roots at the first point of the path. -/
  start : Option (List (Complex Float))
  /-- The roots at the last point of the path. -/
  finish : Option (List (Complex Float))
  /-- Why the seed failed. -/
  error : Option String
  deriving DecidableEq

namespace Report

/-- Whether the seed did not fail. -/
def isOk (report : Report) : Bool :=
  report.error.isNone

/-- Report on a seed that was followed to the end of the path. -/
def ofTrack {n : Nat} (name : String) (track : Track Float n) : Report where
  name
  trajectory := some track.trajectory
  start := track.start?
  finish := track.finish?
  error := none

/-- Report on a seed that failed. -/
def ofFailure (name : String) (failure : Failure Float) : Report where
  name
  trajectory := none
  start := none
  finish := none
  error := some failure.text

end Report

namespace Batch

/-- Follow one seed and report on it. -/
def traceSeed (system : RootSystem Float) (settings : Settings Float)
    (path : List (Complex Float)) (seed : Seed) : Run Float Report := do
  match ← ((Problem.ofList system settings seed.roots).trace path).attempt with
  | .ok track => pure (Report.ofTrack seed.name track)
  | .error failure => do
      Run.emit (.seedFailed seed.name failure)
      pure (Report.ofFailure seed.name failure)

/-- Follow every seed and report on each in its place. -/
def trace (system : RootSystem Float) (settings : Settings Float)
    (path : List (Complex Float)) (seeds : List Seed) : Run Float (List Report) := do
  Run.emit (.batchStarted seeds.length path.length)
  let reports ← seeds.mapM (traceSeed system settings path)
  let failed := reports.countP fun report => !report.isOk
  Run.emit (.batchFinished (reports.length - failed) failed)
  pure reports

end Batch
end RootTrace
