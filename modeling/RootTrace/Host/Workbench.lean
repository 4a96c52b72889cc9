import RootTrace.Host.Refusal
import RootTrace.Host.Value
import RootTrace.Solver

/-!
# Calls of a host application

A workbench holds at most one system, bound to its settings, and at most one
runner. Arguments are read in order, and the first that cannot be read or is
turned down decides the answer. What is on the workbench is only replaced by a
call that succeeds. A runner that has handed out its result is spent: it stays
on the workbench, is done, and answers nothing else.
-/

namespace RootTrace
namespace Host

/-- A system with the settings for its corrections. -/
structure BoundSystem where
  /-- The system. -/
  system : RootSystem Float
  /-- How roots are corrected. -/
  settings : Settings Float

/-- A runner that may have been given up. -/
inductive RunnerSlot where
  /-- The runner is there. -/
  | active (runner : Runner Float)
  /-- The runner has handed out its result. -/
  | spent

/-- What a host application can ask for. Arguments are not read yet. -/
inductive Call where
  /-- Put a system on the workbench. -/
  | createSystem (config settings : Value)
  /-- Residuals of the system. -/
  | residual (roots parameter : Value)
  /-- Derivatives of the residuals. -/
  | jacobian (roots parameter : Value)
  /-- Roots at one parameter. -/
  | solve (seed parameter : Value)
  /-- Roots along a path. -/
  | solvePath (seed path : Value)
  /-- Roots along a path for several seeds. -/
  | traceSeeds (seeds path : Value)
  /-- Put a runner on the workbench. -/
  | createRunner (config settings seed path : Value)
  /-- Whether no points are left. -/
  | isDone
  /-- Follow at most the given number of further points. -/
  | runSteps (batch : Nat)
  /-- How far the path has been followed. -/
  | progress
  /-- The roots found so far, for which the runner is given up. -/
  | result

/-- What a host application is answered. -/
inductive Reply where
  /-- The call was carried out. -/
  | value (value : Value)
  /-- The call was refused. -/
  | refused (refusal : Refusal)
  /-- What the call is made on is not there. -/
  | noObject

/-- The state between calls. -/
structure Workbench where
  /-- The system. -/
  system : Option BoundSystem
  /-- The runner. -/
  runner : Option RunnerSlot

/-! ## Reading arguments -/

/-- Read an argument. -/
def readArgument {β : Type} (argument : Argument) (read? : Value → Option β)
    (value : Value) : Except Refusal β :=
  match read? value with
  | some result => .ok result
  | none => .error (.unreadable argument)

/-- Read constants and set up their equations. -/
def readSystem (config : Value) : Except Refusal (RootSystem Float) := do
  let config ← readArgument .config Record.config.read? config
  (Solver.system config).mapError (.invalid .config)

/-- Read settings. A missing value means the standard settings. -/
def readSettings (settings : Value) : Except Refusal (Settings Float) :=
  if settings.isMissing then .ok Settings.standard
  else readArgument .settings Record.settings.read? settings

/-- Read constants and settings. Settings that the solver would turn down are
turned down here. -/
def readBoundSystem (config settings : Value) : Except Refusal BoundSystem := do
  let system ← readSystem config
  let settings ← readSettings settings
  settings.check.mapError (.invalid .settings)
  .ok ⟨system, settings⟩

/-- Read everything that a runner needs, and set it up. -/
def readRunner (config settings seed path : Value) : Except Refusal (Runner Float) := do
  let system ← readSystem config
  let settings ← readSettings settings
  let seed ← readArgument .seed Record.vector? seed
  let path ← readArgument .path Record.vector? path
  (Runner.create (Problem.ofList system settings seed) path).mapError fun fault =>
    .failed .createRunner (.ofFault fault)

/-! ## Carrying out calls -/

/-- The value of a computation, or the refusal that its failure amounts to. -/
def replyOf {β : Type} (activity : Activity) (write : β → Value) :
    Except (Failure Float) β → Reply
  | .ok result => .value (write result)
  | .error failure => .refused (.failed activity failure)

/-- Go on with an argument that has been read. -/
def withArgument {β : Type} (argument : Except Refusal β) (next : β → Run Float Reply) :
    Run Float Reply :=
  match argument with
  | .ok value => next value
  | .error refusal => pure (.refused refusal)

namespace BoundSystem

/-- Carry out a call on a system. Other calls have no object here. -/
def reply (bound : BoundSystem) : Call → Run Float Reply
  | .residual roots parameter =>
      withArgument (readArgument .roots Record.vector? roots) fun roots =>
      withArgument (readArgument .parameter Record.complex? parameter) fun q =>
        pure (.value (.ofVector (bound.system.residual (rootVector roots) q).toList))
  | .jacobian roots parameter =>
      withArgument (readArgument .roots Record.vector? roots) fun roots =>
      withArgument (readArgument .parameter Record.complex? parameter) fun q =>
        let rows := (bound.system.jacobian (rootVector roots) q).toList
        pure (.value (.array (rows.map fun row => .ofVector row.toList)))
  | .solve seed parameter =>
      withArgument (readArgument .seed Record.vector? seed) fun seed =>
      withArgument (readArgument .parameter Record.complex? parameter) fun q => do
        let outcome ←
          (Corrector.correct bound.system bound.settings (rootVector seed) q).attempt
        pure (replyOf .solve .ofCorrection outcome)
  | .solvePath seed path =>
      withArgument (readArgument .seed Record.vector? seed) fun seed =>
      withArgument (readArgument .path Record.vector? path) fun path => do
        let outcome ←
          ((Problem.ofList bound.system bound.settings seed).trace path).attempt
        pure (replyOf .followPath (fun track => .ofTrajectory track.trajectory) outcome)
  | .traceSeeds seeds path =>
      withArgument (readArgument .seeds (Record.list? Record.seed.read?) seeds) fun seeds =>
      withArgument (readArgument .path Record.vector? path) fun path => do
        let reports ← Batch.trace bound.system bound.settings path seeds
        pure (.value (.array (reports.map .ofReport)))
  | _ => pure .noObject

end BoundSystem

namespace RunnerSlot

/-- Carry out a call on a runner. Other calls have no object here. -/
def reply : RunnerSlot → Call → Run Float (RunnerSlot × Reply)
  | .active runner, .isDone => pure (.active runner, .value (.bool runner.isDone))
  | .active runner, .runSteps batch => do
      let (runner, failure) ← runner.runSteps batch
      let reply := match failure with
        | some failure => .refused (.failed .runSteps failure)
        | none => .value (.ofProgress runner.progress)
      pure (.active runner, reply)
  | .active runner, .progress => pure (.active runner, .value (.ofProgress runner.progress))
  | .active runner, .result => pure (.spent, .value (.ofTrajectory runner.result))
  | .spent, .isDone => pure (.spent, .value (.bool true))
  | .spent, .runSteps _ => pure (.spent, .refused .runnerSpent)
  | .spent, .progress => pure (.spent, .refused .runnerSpent)
  | .spent, .result => pure (.spent, .refused .runnerSpent)
  | slot, _ => pure (slot, .noObject)

end RunnerSlot

namespace Workbench

/-- A workbench with nothing on it. -/
def empty : Workbench :=
  ⟨none, none⟩

/-- Carry out one call. -/
def call (bench : Workbench) (call : Call) : Run Float (Workbench × Reply) :=
  match call with
  | .createSystem config settings =>
      match readBoundSystem config settings with
      | .ok system => pure ({ bench with system := some system }, .value .undefined)
      | .error refusal => pure (bench, .refused refusal)
  | .createRunner config settings seed path =>
      match readRunner config settings seed path with
      | .ok runner => pure ({ bench with runner := some (.active runner) }, .value .undefined)
      | .error refusal => pure (bench, .refused refusal)
  | .residual .. | .jacobian .. | .solve .. | .solvePath .. | .traceSeeds .. =>
      match bench.system with
      | none => pure (bench, .noObject)
      | some bound => do
          let reply ← bound.reply call
          pure (bench, reply)
  | .isDone | .runSteps _ | .progress | .result =>
      match bench.runner with
      | none => pure (bench, .noObject)
      | some slot => do
          let (slot, reply) ← slot.reply call
          pure ({ bench with runner := some slot }, reply)

/-- Carry out calls one after the other. -/
def calls (bench : Workbench) : List Call → Run Float (List Reply)
  | [] => pure []
  | first :: rest => do
      let (next, reply) ← bench.call first
      let replies ← next.calls rest
      pure (reply :: replies)

end Workbench
end Host
end RootTrace
