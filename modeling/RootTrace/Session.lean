import RootTrace.Runner

/-!
# Sessions with one runner

A session follows one path after the other with the same system. It holds at
most one runner, and it remembers the trajectory that was last taken from a
runner, so that a new path can start where that one ended.
-/

namespace RootTrace

universe u

/-- Where a path starts from. -/
inductive Origin (α : Type u) where
  /-- From the given roots. -/
  | roots (seed : List (Complex α))
  /-- From the last roots of the trajectory that was taken last. -/
  | lastTaken

/-- What a session can be asked to do. -/
inductive Command (α : Type u) where
  /-- Begin a path. -/
  | begin (origin : Origin α) (path : List (Complex α)) (settings : Settings α)
  /-- Follow at most the given number of further points. -/
  | runSteps (batch : Nat)
  /-- Tell how far the path has been followed. -/
  | progress
  /-- Tell whether no points are left. -/
  | isDone
  /-- Hand out the roots found so far and give up the runner. -/
  | take

/-- What a session answers. -/
inductive Answer (α : Type u) where
  /-- How far the path has been followed. -/
  | progress (progress : Progress)
  /-- Whether no points are left. -/
  | isDone (done : Bool)
  /-- The roots found so far. -/
  | trajectory (trajectory : Trajectory α)
  /-- The command failed. -/
  | failed (failure : Failure α)
  /-- There is no runner. -/
  | noRunner
  /-- There is no trajectory to start from, or it has no steps. -/
  | noSeed

/-- The state of a session. -/
structure Session (α : Type u) where
  /-- The path that is being followed. -/
  runner : Option (Runner α)
  /-- The trajectory that was taken last. -/
  lastTaken : Option (Trajectory α)

namespace Session

variable {α : Type u}

/-- A session in which nothing has happened. -/
def fresh : Session α :=
  ⟨none, none⟩

/-- The roots from which a path starts. -/
def seedFrom? (session : Session α) : Origin α → Option (List (Complex α))
  | .roots seed => some seed
  | .lastTaken => do
      let trajectory ← session.lastTaken
      match trajectory.finish with
      | .ok roots => roots
      | .error _ => none

variable [Zero α] [One α] [Add α] [Sub α] [Mul α] [Neg α] [Div α] [BEq α]
  [LT α] [DecidableLT α] [Magnitude α]

/-- Begin a path. A runner that is there stays until the new one has been
accepted. -/
def begin (system : RootSystem α) (session : Session α) (origin : Origin α)
    (path : List (Complex α)) (settings : Settings α) : Session α × Answer α :=
  match session.seedFrom? origin with
  | none => (session, .noSeed)
  | some seed =>
      match Runner.create (Problem.ofList system settings seed) path with
      | .error fault => (session, .failed (.ofFault fault))
      | .ok runner => ({ session with runner := some runner }, .progress runner.progress)

/-- Carry out a command on the runner of a session. -/
def onRunner (session : Session α) (runner : Runner α) :
    Command α → Run α (Session α × Answer α)
  | .begin .. => pure (session, .noRunner)
  | .runSteps batch => do
      let (runner, failure) ← runner.runSteps batch
      let answer := match failure with
        | some failure => .failed failure
        | none => .progress runner.progress
      pure ({ session with runner := some runner }, answer)
  | .progress => pure (session, .progress runner.progress)
  | .isDone => pure (session, .isDone runner.isDone)
  | .take => pure (⟨none, some runner.result⟩, .trajectory runner.result)

/-- Carry out one command. -/
def step (system : RootSystem α) (session : Session α) (command : Command α) :
    Run α (Session α × Answer α) :=
  match command, session.runner with
  | .begin origin path settings, _ => pure (session.begin system origin path settings)
  | _, none => pure (session, .noRunner)
  | command, some runner => session.onRunner runner command

/-- Carry out commands one after the other. -/
def steps (system : RootSystem α) (session : Session α) :
    List (Command α) → Run α (List (Answer α))
  | [] => pure []
  | command :: rest => do
      let (next, answer) ← session.step system command
      let answers ← next.steps system rest
      pure (answer :: answers)

end Session
end RootTrace
