import RootTrace.Host.Workbench
import RootTrace.Proofs.Path.Batches

/-!
# What can be put on a workbench

Arguments are read in order, and an object is put on the workbench exactly if all of them
can be read and the solver accepts what they say.
-/

namespace RootTrace

universe v

/-- Steps that may fail succeed together if each succeeds with the value before it. -/
theorem bind_eq_ok_iff
    {ε : Type*} {β γ : Type v}
    {first : Except ε β}
    {next : β → Except ε γ}
    {result : γ} :
    first >>= next = .ok result ↔ ∃ value, first = .ok value ∧ next value = .ok result := by
  cases first with
  | error failure => simp [bind, Except.bind]
  | ok value => simp [bind, Except.bind]

theorem mapError_eq_ok_iff
    {ε ε' β : Type*}
    {outcome : Except ε β}
    {announce : ε → ε'}
    {result : β} :
    outcome.mapError announce = .ok result ↔ outcome = .ok result := by
  cases outcome with
  | error failure => simp [Except.mapError]
  | ok value => simp [Except.mapError]

namespace Host

theorem readArgument_eq_ok_iff
    {β : Type}
    {argument : Argument}
    {read? : Value → Option β}
    {value : Value}
    {result : β} :
    readArgument argument read? value = .ok result ↔ read? value = some result := by
  unfold readArgument
  cases read? value with
  | none => simp
  | some other => simp

variable {config settings seed path : Value}

/-- A system is made exactly if its configuration is accepted and its settings are read and
accepted. -/
theorem readBoundSystem_eq_ok_iff {bound : BoundSystem} :
    readBoundSystem config settings = .ok bound ↔
      readSystem config = .ok bound.system ∧ readSettings settings = .ok bound.settings ∧
        bound.settings.check = .ok ⟨⟩ := by
  unfold readBoundSystem
  simp only [bind_eq_ok_iff, mapError_eq_ok_iff]
  constructor
  · rintro ⟨system, readSystem, settings, readSettings, _, accepted, same⟩
    cases same
    exact ⟨readSystem, readSettings, accepted⟩
  · rintro ⟨readSystem, readSettings, accepted⟩
    exact ⟨_, readSystem, _, readSettings, _, accepted, rfl⟩

/-- A runner is made exactly if all four arguments are read and accepted and it is not refused. -/
theorem readRunner_eq_ok_iff {runner : Runner Float} :
    readRunner config settings seed path = .ok runner ↔
      ∃ system options roots points,
        readSystem config = .ok system ∧ readSettings settings = .ok options ∧
          Record.vector? seed = some roots ∧ Record.vector? path = some points ∧
          Runner.create (.ofList system options roots) points = .ok runner := by
  unfold readRunner
  simp only [bind_eq_ok_iff, mapError_eq_ok_iff, readArgument_eq_ok_iff]
  constructor
  · rintro ⟨system, readSystem, options, readSettings, roots, readSeed, points, readPath,
      created⟩
    exact ⟨system, options, roots, points, readSystem, readSettings, readSeed, readPath,
      created⟩
  · rintro ⟨system, options, roots, points, readSystem, readSettings, readSeed, readPath,
      created⟩
    exact ⟨system, readSystem, options, readSettings, roots, readSeed, points, readPath,
      created⟩

/-- A runner that was read stands at the beginning of its path. -/
theorem stands_at_start_of_readRunner
    {runner : Runner Float}
    (read : readRunner config settings seed path = .ok runner) :
    Corrector.check runner.dimension runner.problem.settings = .ok ⟨⟩ ∧
      runner = .following runner.problem runner.path Track.empty := by
  obtain ⟨system, options, roots, points, _, _, _, _, created⟩ := readRunner_eq_ok_iff.mp read
  obtain ⟨accepted, rfl⟩ := (Runner.create_eq_ok_iff _ _ _).mp created
  exact ⟨accepted, rfl⟩

variable {bench next : Workbench}

/-- A call for a new system succeeds exactly if the system is made, and puts it on the bench. -/
theorem outcome_createSystem_eq_value_iff {value : Value} :
    (bench.call (.createSystem config settings)).outcome = .ok (next, .value value) ↔
      ∃ bound, readBoundSystem config settings = .ok bound ∧
        next = { bench with system := some bound } ∧ value = .undefined := by
  rw [Workbench.call]
  cases readBoundSystem config settings with
  | error refusal => simp
  | ok bound => simp [eq_comm]

theorem outcome_createRunner_eq_value_iff {value : Value} :
    (bench.call (.createRunner config settings seed path)).outcome =
        .ok (next, .value value) ↔
      ∃ runner, readRunner config settings seed path = .ok runner ∧
        next = { bench with runner := some (.active runner) } ∧ value = .undefined := by
  rw [Workbench.call]
  cases readRunner config settings seed path with
  | error refusal => simp
  | ok runner => simp [eq_comm]

/-! ## A small workbench -/

/-- The equation of one root with the constants zero and one and without shifts, which is
linear: the parameter times the root is the root minus one. -/
def linearConfig : Value :=
  let zero := Value.array [.number 0, .number 0]
  let one := Value.array [.number 1, .number 0]
  .object [
    ("ex", .object [("e1", zero), ("e2", zero), ("e3", zero)]),
    ("ax", .object [("al", .array [zero]), ("ar", .array [one])])]

/-- One root at five. -/
def fiveSeed : Value :=
  .array [.array [.number 5, .number 0]]

/-- The parameters two and one. At one the linear equation has no root. -/
def blockedPath : Value :=
  .array [.array [.number 2, .number 0], .array [.number 1, .number 0]]

end Host
end RootTrace
