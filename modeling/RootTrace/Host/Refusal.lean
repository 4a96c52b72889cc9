import RootTrace.Message

/-!
# Refusals

What a host application is told when a call is not carried out: an argument
cannot be read, the solver turns something down or fails, or the runner has
already been given up.
-/

namespace RootTrace
namespace Host

/-- An argument of a call. -/
inductive Argument where
  /-- The constants of the equations. -/
  | config
  /-- The settings. -/
  | settings
  /-- Roots to start from. -/
  | seed
  /-- Named roots to start from. -/
  | seeds
  /-- Roots at which the equations are evaluated. -/
  | roots
  /-- A single parameter. -/
  | parameter
  /-- A list of parameters. -/
  | path
  deriving DecidableEq

/-- What an argument is called. -/
def Argument.text : Argument → String
  | .config => "config"
  | .settings => "Newton settings"
  | .seed => "seed"
  | .seeds => "seeds"
  | .roots => "roots"
  | .parameter => "parameter"
  | .path => "parameter path"

/-- What was being done when the solver failed. -/
inductive Activity where
  /-- Roots were corrected at one parameter. -/
  | solve
  /-- Roots were followed along a path. -/
  | followPath
  /-- A runner was set up. -/
  | createRunner
  /-- A runner was following its path. -/
  | runSteps
  deriving DecidableEq

/-- How the failure of an activity is announced. -/
def Activity.text : Activity → String
  | .solve => "Newton solve failed"
  | .followPath => "Continuation failed"
  | .createRunner => "Continuation init failed"
  | .runSteps => "Continuation step failed"

/-- Why a call is not carried out. -/
inductive Refusal where
  /-- An argument cannot be read. -/
  | unreadable (argument : Argument)
  /-- An argument can be read and is turned down. -/
  | invalid (argument : Argument) (fault : Fault Float)
  /-- The solver failed. -/
  | failed (activity : Activity) (failure : Failure Float)
  /-- The runner has been given up. -/
  | runnerSpent
  deriving DecidableEq

/-- What the host application is told. Why exactly an argument cannot be read is
left open. -/
def Refusal.text : Refusal → String
  | .unreadable argument => "Invalid " ++ argument.text ++ ": <reason>"
  | .invalid argument fault =>
      "Invalid " ++ argument.text ++ ": " ++ (Failure.ofFault fault).text
  | .failed activity failure => activity.text ++ ": " ++ failure.text
  | .runnerSpent => "Runner not initialized"

end Host
end RootTrace
