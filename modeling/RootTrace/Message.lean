import RootTrace.Decimal.Text
import RootTrace.Run

/-!
# Messages

The wording of faults, failures and events. Parameters are written by position
and changes with an exponent. A failure is written with its circumstances,
outermost first and the cause last.
-/

namespace RootTrace

/-- Real part, signed imaginary part, and the imaginary unit. -/
def Complex.text (z : Complex Float) : String :=
  let sign := if z.im < 0 then "" else "+"
  floatText .positional z.re ++ sign ++ floatText .positional z.im ++ "i"

/-- The reason for which constants or settings are turned down. -/
def Objection.text : Objection → String
  | .constantsNotFinite => "config constants must be finite"
  | .noSteps => "max_steps must be greater than zero"
  | .toleranceNotPositive => "tolerance must be positive"
  | .dampingOutOfRange => "damping must lie in (0, 1]"
  | .other reason => reason

/-- The cause of a failed computation. -/
def Fault.text : Fault Float → String
  | .emptySeed => "Seed has no components."
  | .lengthMismatch left right =>
      "AL and AR must have the same length (AL has " ++ toString left ++
        ", AR has " ++ toString right ++ ")."
  | .invalid objection => "Invalid settings: " ++ objection.text
  | .singular iteration =>
      "Jacobian is singular at Newton iteration " ++ toString iteration ++ "."
  | .nonFinite iteration =>
      "Newton iterate became non-finite at iteration " ++ toString iteration ++ "."
  | .notConverged iterations change =>
      "Newton solver failed to converge in " ++ toString iterations ++
        " steps (last change = " ++ floatText .scientific change ++ ")."
  | .oddLength length =>
      "Real vector of length " ++ toString length ++
        " cannot be split into real and imaginary halves."

/-- A circumstance under which a fault arose. -/
def Context.text : Context Float → String
  | .linearSolve => "Failed to solve linear system during Newton iteration."
  | .pathStep step q =>
      "Continuation step " ++ toString step ++ " (q = " ++ q.text ++ ") failed."

/-- Circumstances and cause, outermost first. -/
def Failure.text (failure : Failure Float) : String :=
  ": ".intercalate (failure.contexts.map Context.text ++ [failure.cause.text])

namespace Event

/-- How much attention an event deserves. -/
inductive Severity where
  /-- Of interest when the computation itself is studied. -/
  | debug
  /-- An ordinary milestone. -/
  | info
  /-- A result that may not be what was asked for. -/
  | warn
  deriving DecidableEq

/-- The word that stands in front of an event. -/
def Severity.text : Severity → String
  | .debug => "DEBUG"
  | .info => "INFO"
  | .warn => "WARN"

/-- How much attention an event deserves. -/
def severity {α : Type} : Event α → Severity
  | .iteration .. => .debug
  | .exhausted .. => .warn
  | .pathStarted .. => .info
  | .pathFinished .. => .info
  | .batchStarted .. => .info
  | .seedFailed .. => .warn
  | .batchFinished .. => .info

/-- What happened. -/
def text : Event Float → String
  | .iteration number change =>
      "newton iteration " ++ toString number ++ ": change " ++ floatText .scientific change
  | .exhausted iterations change q =>
      "Newton corrector stopped after " ++ toString iterations ++
        " iterations without meeting tolerance (change " ++
        floatText .scientific change ++ ") at q = " ++ q.text
  | .pathStarted roots points =>
      "continuing " ++ toString roots ++ " roots along " ++ toString points ++ " path points"
  | .pathFinished unconverged =>
      "continuation finished (" ++ toString unconverged ++ " unconverged steps)"
  | .batchStarted seeds points =>
      "tracing " ++ toString seeds ++ " seeds along " ++ toString points ++ " path points"
  | .seedFailed name failure => "seed '" ++ name ++ "' failed: " ++ failure.text
  | .batchFinished succeeded failed =>
      "seed batch finished: " ++ toString succeeded ++ " ok, " ++ toString failed ++ " failed"

/-- Severity and text of an event. -/
def line (event : Event Float) : String :=
  event.severity.text ++ " " ++ event.text

end Event
end RootTrace
