import RootTrace.Batch
import RootTrace.Config
import RootTrace.Record.Fields
import RootTrace.Runner

/-!
# The record types

What is stored and exchanged: complex numbers, the constants of the equations,
settings, seeds, trajectories, progress and reports. Every type is described
once, for every source of structured values. Nothing is said here about whether
the values make sense.
-/

namespace RootTrace
namespace Record

variable {V : Type} [Source V]

/-- A list of values that are all read alike. -/
def list? {β : Type} (read? : V → Option β) (value : V) : Option (List β) := do
  let items ← Source.items? value
  items.mapM read?

/-- A complex number, as the pair of its parts. -/
def complex? (value : V) : Option (Complex Float) := do
  let (re, im) ← Source.pair? value
  some ⟨← Source.float? re, ← Source.float? im⟩

/-- A list of complex numbers. -/
def vector? (value : V) : Option (List (Complex Float)) :=
  list? complex? value

/-- Fields of the shifts. -/
def shifts : Fields V (Shifts (Complex Float)) :=
  Shifts.mk <$> .required "e1" complex? <*> .required "e2" complex? <*>
    .required "e3" complex?

/-- Fields of the constants to be paired. -/
def constants : Fields V (Constants (Complex Float)) :=
  Constants.mk <$> .required "al" vector? <*> .required "ar" vector?

/-- Fields of a configuration. -/
def config : Fields V (Config (Complex Float)) :=
  Config.mk <$> .required "ex" shifts.read? <*> .required "ax" constants.read?

/-- Fields of settings. Each may be absent and is then as in the standard
settings. -/
def settings : Fields V (Settings Float) :=
  Settings.mk <$>
    .withDefault "max_steps" Source.nat? Settings.standard.maxSteps <*>
    .withDefault "tolerance" Source.float? Settings.standard.tolerance <*>
    .withDefault "damping" Source.float? Settings.standard.damping <*>
    .withDefault "require_convergence" Source.bool? Settings.standard.requireConvergence

/-- Fields of a seed. -/
def seed : Fields V Seed :=
  Seed.mk <$> .required "name" Source.text? <*> .required "roots" vector?

/-- Fields of a trajectory. Absent steps are no steps. -/
def trajectory : Fields V (Trajectory Float) :=
  Trajectory.mk <$> .required "components" (list? vector?) <*>
    .withDefault "unconverged_steps" (list? Source.nat?) []

/-- Fields of a progress report. -/
def progress : Fields V Progress :=
  Progress.mk <$> .required "done" Source.bool? <*> .required "current_step" Source.nat? <*>
    .required "total_steps" Source.nat?

/-- Fields of a report on a seed. -/
def report : Fields V Report :=
  Report.mk <$> .required "name" Source.text? <*> .nullable "trajectory" trajectory.read? <*>
    .nullable "start" vector? <*> .nullable "end" vector? <*> .nullable "error" Source.text?

end Record
end RootTrace
