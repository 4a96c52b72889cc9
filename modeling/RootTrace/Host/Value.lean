import RootTrace.Record.Types

/-!
# Values of a host application

An application that uses the solver hands over and receives dynamic values.
They resemble structured text, with these differences: a missing value differs
from an absent one, all numbers are doubles, and a record is always read by
names. An array counts as a record that has none of them, and a pair may be
followed by further items that are not looked at.
-/

namespace RootTrace
namespace Host

/-- A dynamic value. -/
inductive Value where
  /-- No value was given. -/
  | undefined
  /-- The absent value. -/
  | null
  /-- A truth value. -/
  | bool (value : Bool)
  /-- A number. -/
  | number (value : Float)
  /-- A string. -/
  | string (value : String)
  /-- A list of values. -/
  | array (items : List Value)
  /-- Named values. -/
  | object (members : List (String × Value))

namespace Value

/-- Whether there is no value. -/
def isMissing : Value → Bool
  | .undefined => true
  | .null => true
  | _ => false

/-- The natural number that a double denotes, up to the largest one below which
every integer is a double. -/
def natOfFloat? (value : Float) : Option Nat :=
  let count := value.toUInt64
  if count < 9007199254740992 ∧ count.toFloat == value then some count.toNat else none

instance : Source Value where
  float?
    | .number value => some value
    | _ => none
  nat?
    | .number value => natOfFloat? value
    | _ => none
  bool?
    | .bool value => some value
    | _ => none
  text?
    | .string value => some value
    | _ => none
  items?
    | .array items => some items
    | _ => none
  pair?
    | .array (first :: second :: _) => some (first, second)
    | _ => none
  isNull := isMissing
  slots? _
    | .object members => some fun name => match members.lookup name with
        | some value => .given value
        | none => .unnamed
    | .array _ => some fun _ => .unnamed
    | _ => none

/-! ## Results as values -/

/-- A count or an index. -/
def ofNat (n : Nat) : Value :=
  .number (Float.ofNat n)

/-- A complex number. -/
def ofComplex (z : Complex Float) : Value :=
  .array [.number z.re, .number z.im]

/-- A list of complex numbers. -/
def ofVector (v : List (Complex Float)) : Value :=
  .array (v.map ofComplex)

/-- A value that may be absent. -/
def ofOption {β : Type} (write : β → Value) : Option β → Value
  | none => .undefined
  | some value => write value

/-- Corrected roots. -/
def ofCorrection {n : Nat} (correction : Correction Float n) : Value :=
  .object [
    ("roots", ofVector correction.roots.toList),
    ("iterations", ofNat correction.iterations),
    ("converged", .bool correction.converged),
    ("change", .number correction.change)]

/-- A trajectory. -/
def ofTrajectory (trajectory : Trajectory Float) : Value :=
  .object [
    ("components", .array (trajectory.components.map ofVector)),
    ("unconverged_steps", .array (trajectory.unconvergedSteps.map ofNat))]

/-- A report on a seed. -/
def ofReport (report : Report) : Value :=
  .object [
    ("name", .string report.name),
    ("trajectory", ofOption ofTrajectory report.trajectory),
    ("start", ofOption ofVector report.start),
    ("end", ofOption ofVector report.finish),
    ("error", ofOption .string report.error)]

/-- How far a path has been followed. -/
def ofProgress (progress : Progress) : Value :=
  .object [
    ("done", .bool progress.done),
    ("current_step", ofNat progress.currentStep),
    ("total_steps", ofNat progress.totalSteps)]

end Value
end Host
end RootTrace
