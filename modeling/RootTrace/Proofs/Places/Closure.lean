import RootTrace.Proofs.Newton.Outcomes
import RootTrace.Proofs.Path.Resumption
import RootTrace.Proofs.Places.Paths

/-!
# What the solver can come to

For constants that are accepted, any numbers as roots and parameters and any settings, the
computations by places never ask for a place that is not there. What they hand out has the
length of the seed, and what they fail with has one of five causes. Two of these are decided
beforehand: that there are no roots, and that the settings are turned down.
-/

namespace RootTrace

universe u

theorem Config.paired_of_check
    {α : Type u} [Magnitude α]
    (config : Config (Complex α))
    (valid : config.check = .ok ⟨⟩) :
    config.constants.left.length = config.constants.right.length := by
  by_contra unpaired
  rw [check, if_pos unpaired] at valid
  cases valid

/-! ## Causes along a path -/

section Causes

open Corrector

variable {α : Type u} {n : Nat}
variable [Zero α] [One α] [Add α] [Sub α] [Mul α] [Neg α] [Div α] [BEq α]
  [LT α] [DecidableLT α] [Magnitude α]
  {problem : Problem α n} {track : Track α n} {path : List (Complex α)} {q : Complex α}
  {failure : Failure α}

namespace Problem

theorem cause_of_point (failed : problem.point track q = .error failure) :
    Cause n problem.settings failure.cause := by
  obtain ⟨inner, corrected, rfl⟩ := (problem.point_eq_error_iff track q failure).mp failed
  rw [Failure.within_cause]
  exact cause_of_correct corrected

theorem cause_of_follow (failed : problem.follow track path = .error failure) :
    Cause n problem.settings failure.cause := by
  obtain ⟨_, _, failsAt⟩ := (problem.follow_eq_error_iff track path failure).mp failed
  exact cause_of_point failsAt.fails

theorem cause_of_trajectory (failed : (problem.trajectory path).outcome = .error failure) :
    Cause n problem.settings failure.cause := by
  cases checked : check n problem.settings with
  | error fault =>
      cases (trajectory_of_check_error checked path).symm.trans failed
      exact cause_of_check_error checked
  | ok accepted =>
      exact cause_of_follow ((problem.outcome_trajectory_eq_error_iff checked).mp failed)

end Problem

/-- A batch stops in front of a point that fails. -/
theorem Runner.cause_of_runSteps
    {next : Runner α}
    {batch : Nat}
    (stopped : ((following problem path track).runSteps batch).outcome =
      .ok (next, some failure)) :
    Cause n problem.settings failure.cause := by
  rw [outcome_runSteps] at stopped
  rcases problem.outcome_advanceWhile_cases ((path.drop track.length).take batch) track with
    ⟨_, _, outcome⟩ | ⟨_, _, _, failsAt, outcome⟩
  · rw [outcome] at stopped
    cases stopped
  · rw [outcome] at stopped
    cases stopped
    exact Problem.cause_of_point failsAt.fails

end Causes

/-! ## Trajectories of vectors -/

/-- A trajectory with one component per root and one value per step. Every step can be read,
and has one value per root. -/
structure Trajectory.Fits {α : Type u} (trajectory : Trajectory α) (roots steps : Nat) :
    Prop where
  dimension : trajectory.dimension = roots
  length : ∀ component ∈ trajectory.components, component.length = steps
  readable : ∀ step, ∃ answer, trajectory.rootsAt step = .ok answer ∧
    (answer.isSome = true ↔ step < steps) ∧ ∀ values ∈ answer, values.length = roots

/-- The roots at the end are as many as there are components, whatever their number of steps. -/
theorem Trajectory.Fits.length_of_finish
    {α : Type u}
    {trajectory : Trajectory α}
    {roots steps : Nat}
    (fits : trajectory.Fits roots steps)
    {answer : Option (List (Complex α))}
    (read : trajectory.finish = .ok answer) :
    ∀ values ∈ answer, values.length = roots := by
  intro values member
  rw [Trajectory.finish] at read
  split at read
  · cases read
    cases member
  · obtain ⟨other, same, _, lengths⟩ := fits.readable _
    cases same.symm.trans read
    exact lengths values member

theorem Trajectory.Fits.length_of_start
    {α : Type u}
    {trajectory : Trajectory α}
    {roots steps : Nat}
    (fits : trajectory.Fits roots steps)
    {answer : Option (List (Complex α))}
    (read : trajectory.start = .ok answer) :
    ∀ values ∈ answer, values.length = roots := by
  obtain ⟨other, same, _, lengths⟩ := fits.readable 0
  cases same.symm.trans read
  exact lengths

/-- The trajectory of a track has a component for every root and in each of them a value for every
step. -/
theorem Track.fits_trajectory
    {α : Type u} {n : Nat}
    (track : Track α n)
    (nonempty : n ≠ 0) :
    track.trajectory.Fits n track.length := by
  refine ⟨track.dimension_trajectory, ?_, ?_⟩
  · intro component member
    obtain ⟨k, _, rfl⟩ := List.mem_map.mp member
    exact List.length_map _
  · intro step
    refine ⟨_, track.rootsAt_trajectory nonempty step, ?_, ?_⟩
    · rw [Option.isSome_map]
      simp [Track.length]
    · intro values read
      obtain ⟨roots, _, rfl⟩ := Option.map_eq_some_iff.mp read
      exact Vector.length_toList

namespace Places

open Corrector

variable {α : Type u} [Zero α] [One α] [LT α] [DecidableLT α]

/-! ## Closed computations -/

/-- A computation that starts from `n` roots. What it hands out fits, what it fails with has
a possible cause, and it never asks for a place that is not there. It is turned down for its
roots exactly if there are none, and for its settings exactly if there are roots and the
settings are invalid. -/
structure Closed {β : Type u} (n : Nat) (settings : Settings α) (fits : β → Prop)
    (answer : Except (Stop α) β) : Prop where
  result : ∀ value, answer = .ok value → fits value
  stop : ∀ stop, answer = .error stop →
    ∃ failure, stop = .failed failure ∧ Cause n settings failure.cause
  emptySeed : (∃ failure, answer = .error (.failed failure) ∧ failure.cause = .emptySeed) ↔
    n = 0
  invalid : (∃ failure objection, answer = .error (.failed failure) ∧
      failure.cause = .invalid objection) ↔
    n ≠ 0 ∧ settings.check ≠ .ok ⟨⟩

/-- What the loops answer is closed if the computation behind it is: its results fit, its failures
have causes, and a task that is turned down gives nothing else. -/
theorem closed_answerOf
    {β γ : Type u}
    {n : Nat}
    {settings : Settings α}
    {list : β → γ}
    {fits : γ → Prop}
    {outcome : Except (Failure α) β}
    (result : ∀ value, outcome = .ok value → fits (list value))
    (causes : ∀ failure, outcome = .error failure → Cause n settings failure.cause)
    (refused : ∀ fault, check n settings = .error fault → outcome = .error (.ofFault fault)) :
    Closed n settings fits (answerOf list outcome) := by
  have failed : ∀ failure, answerOf list outcome = .error (.failed failure) →
      Cause n settings failure.cause := by
    intro failure same
    cases outcome with
    | ok value => cases same
    | error other =>
        cases same
        exact causes failure rfl
  refine ⟨?_, ?_, ⟨?_, ?_⟩, ⟨?_, ?_⟩⟩
  · intro value same
    cases outcome with
    | error failure => cases same
    | ok value =>
        cases same
        exact result value rfl
  · intro stop same
    cases outcome with
    | ok value => cases same
    | error failure =>
        cases same
        exact ⟨failure, rfl, causes failure rfl⟩
  · rintro ⟨failure, same, empty⟩
    have cause := failed failure same
    rw [empty] at cause
    exact cause.eq_zero
  · intro vacant
    have turnedDown : check n settings = .error .emptySeed := if_pos vacant
    exact ⟨_, by rw [refused _ turnedDown, answerOf], rfl⟩
  · rintro ⟨failure, objection, same, invalid⟩
    have cause := failed failure same
    rw [invalid] at cause
    exact cause.refused
  · rintro ⟨nonempty, invalid⟩
    cases checked : settings.check with
    | ok accepted => exact absurd checked invalid
    | error fault =>
        have turnedDown : check n settings = .error fault := (if_neg nonempty).trans checked
        obtain ⟨objection, rfl⟩ := Settings.exists_objection_of_check_error checked
        exact ⟨_, objection, by rw [refused _ turnedDown, answerOf], rfl⟩

section Solver

variable [Add α] [Sub α] [Mul α] [Neg α] [Div α] [BEq α] [Magnitude α]

/-- A correction by places is the correction of the vector, and closed. -/
structure CorrectsSafely (config : Config (Complex α)) (settings : Settings α)
    (seed : List (Complex α)) (q : Complex α) : Prop where
  agrees : correct config settings seed q =
    answerOf Listed.of (Corrector.correct (.ofProductForm config.productForm) settings
      (rootVector seed) q).outcome
  closed : Closed seed.length settings
    (fun correction => correction.roots.length = seed.length)
    (correct config settings seed q)

/-- Following a path by places is following it from the vector, and closed. -/
structure FollowsSafely (config : Config (Complex α)) (settings : Settings α)
    (seed path : List (Complex α)) : Prop where
  agrees : continueAlong config settings seed path =
    answerOf id ((Problem.ofList (.ofProductForm config.productForm) settings
      seed).trajectory path).outcome
  closed : Closed seed.length settings
    (fun trajectory => trajectory.Fits seed.length path.length)
    (continueAlong config settings seed path)

/-- A runner that may be asked for anything: what it holds has the right lengths, a further
batch fails with a possible cause if at all, and its result can be read out. -/
structure Runner.Stands (config : Config (Complex α)) (settings : Settings α)
    (dimension : Nat) (runner : Runner α) : Prop where
  lengths : ∀ roots ∈ runner.trail.steps, roots.length = dimension
  batch : ∀ batch stop, (runner.runSteps config settings batch).2 = some stop →
    ∃ failure, stop = .failed failure ∧ Cause dimension settings failure.cause
  result : ∃ trajectory, runner.result = .ok trajectory ∧
    trajectory.Fits dimension runner.trail.steps.length

/-- A runner by places is the runner over vectors, whatever batches it carries out, and so
are its answers. Creating it is closed, and it stands after any batches. -/
structure RunsSafely (config : Config (Complex α)) (settings : Settings α)
    (seed path : List (Complex α)) : Prop where
  created : Runner.create settings seed path =
    answerOf Runner.of ((RootTrace.Runner.create
      (Problem.ofList (.ofProductForm config.productForm) settings seed) path).mapError
        Failure.ofFault)
  agrees : ∀ runner, RootTrace.Runner.create
      (Problem.ofList (.ofProductForm config.productForm) settings seed) path = .ok runner →
    ∀ batches, ∃ reached, (runner.runBatches batches).outcome = .ok reached ∧
      Runner.runBatches config settings (.of runner) batches = .of reached ∧
      ∀ batch, ∃ next answer, (reached.runSteps batch).outcome = .ok (next, answer) ∧
        Runner.runSteps config settings batch (.of reached) = (.of next, answer.map .failed)
  closed : Closed seed.length settings
    (fun runner => ∀ batches,
      (Runner.runBatches config settings runner batches).Stands config settings seed.length)
    (Runner.create settings seed path)

variable {config : Config (Complex α)}
  (paired : config.constants.left.length = config.constants.right.length)
  (settings : Settings α) (seed : List (Complex α))

include paired

theorem correctsSafely (q : Complex α) : CorrectsSafely config settings seed q := by
  have agrees : correct config settings seed q = _ := correct_eq paired (rootVector seed)
  refine ⟨agrees, ?_⟩
  rw [agrees]
  apply closed_answerOf
  · intro correction _
    exact Vector.length_toList
  · intro failure failed
    exact cause_of_correct failed
  · intro fault refused
    exact outcome_correct_of_check_error refused (rootVector seed)

/-- Along any path the loops find every place that they ask for, and come to a trajectory that
fits or to a failure with a cause. -/
theorem followsSafely (path : List (Complex α)) :
    FollowsSafely config settings seed path := by
  have agrees : continueAlong config settings seed path = _ :=
    continueAlong_eq paired (rootVector seed) path
  refine ⟨agrees, ?_⟩
  rw [agrees]
  apply closed_answerOf
  · intro trajectory outcome
    cases checked : check seed.length settings with
    | error fault =>
        cases (Problem.trajectory_of_check_error checked path).symm.trans outcome
    | ok accepted =>
        obtain ⟨track, followed, rfl⟩ :=
          (Problem.outcome_trajectory_eq_ok_iff _ checked).mp outcome
        have length := Problem.length_of_follow followed
        rw [Track.length_empty, Nat.zero_add] at length
        rw [← length]
        exact track.fits_trajectory (check_eq_ok_iff.mp checked).1
  · intro failure failed
    exact Problem.cause_of_trajectory failed
  · intro fault refused
    exact Problem.trajectory_of_check_error refused path

/-- Whatever a runner has followed, it stands. -/
theorem stands_of_following
    {n : Nat}
    (seed : Vector (Complex α) n)
    (nonempty : n ≠ 0)
    (path : List (Complex α))
    (track : Track α n) :
    (Runner.of (.following (problemOf config settings seed) path track)).Stands config
      settings n := by
  refine ⟨?_, ?_, ?_⟩
  · intro roots member
    obtain ⟨vector, _, rfl⟩ := List.mem_map.mp member
    exact Vector.length_toList
  · intro batch stop stopped
    obtain ⟨next, answer, ran, agrees⟩ := runSteps_eq paired seed path batch track
    rw [agrees] at stopped
    obtain ⟨failure, rfl, rfl⟩ := Option.map_eq_some_iff.mp stopped
    exact ⟨failure, rfl, RootTrace.Runner.cause_of_runSteps ran⟩
  · refine ⟨track.trajectory, ?_, ?_⟩
    · change (Trail.of track).trajectory seed.toList.length = _
      rw [Vector.length_toList, Trail.trajectory_of]
    · change track.trajectory.Fits n (Trail.of track).steps.length
      rw [Trail.length_steps_of]
      exact track.fits_trajectory nonempty

/-- A runner is refused or made, and whatever batches it is asked for then, it stands on places
that exist. -/
theorem closed_create
    {n : Nat}
    (seed : Vector (Complex α) n)
    (path : List (Complex α)) :
    Closed n settings
      (fun runner => ∀ batches,
        (Runner.runBatches config settings runner batches).Stands config settings n)
      (answerOf Runner.of ((RootTrace.Runner.create (problemOf config settings seed)
        path).mapError Failure.ofFault)) := by
  apply closed_answerOf
  · intro runner made batches
    cases created : RootTrace.Runner.create (problemOf config settings seed) path with
    | error fault =>
        rw [created] at made
        cases made
    | ok other =>
        rw [created] at made
        cases made
        obtain ⟨accepted, rfl⟩ := (RootTrace.Runner.create_eq_ok_iff _ path _).mp created
        obtain ⟨reached, _, agrees⟩ := runBatches_eq paired seed path batches Track.empty
        rw [agrees]
        exact stands_of_following paired settings seed (check_eq_ok_iff.mp accepted).1 path
          reached
  · intro failure failed
    cases created : RootTrace.Runner.create (problemOf config settings seed) path with
    | error fault =>
        rw [created] at failed
        cases failed
        exact cause_of_check_error ((RootTrace.Runner.create_eq_error_iff _ path _).mp created)
    | ok other =>
        rw [created] at failed
        cases failed
  · intro fault refused
    rw [(RootTrace.Runner.create_eq_error_iff (problemOf config settings seed) path fault).mpr
      refused]
    rfl

theorem runsSafely (path : List (Complex α)) : RunsSafely config settings seed path := by
  have created : Runner.create settings seed path = _ :=
    create_eq (rootVector seed) config settings path
  refine ⟨created, ?_, created ▸ closed_create paired settings (rootVector seed) path⟩
  intro runner made batches
  obtain ⟨_, rfl⟩ := (RootTrace.Runner.create_eq_ok_iff _ path runner).mp made
  obtain ⟨reached, ran, agrees⟩ :=
    runBatches_eq paired (rootVector seed) path batches Track.empty
  refine ⟨_, ran, agrees, ?_⟩
  intro batch
  obtain ⟨next, answer, ranOn, agreesOn⟩ :=
    runSteps_eq paired (rootVector seed) path batch reached
  exact ⟨_, answer, ranOn, agreesOn⟩

end Solver

/-! ## Reports -/

/-- A report on a seed that says what following the path from this seed comes to. -/
structure Reported (config : Config (Complex Float)) (settings : Settings Float)
    (path : List (Complex Float)) (seed : Seed) (report : Report) : Prop where
  followed : ∀ trajectory,
    continueAlong config settings seed.roots path = .ok trajectory →
      report.trajectory = some trajectory ∧ report.error = none
  failed : ∀ failure,
    continueAlong config settings seed.roots path = .error (.failed failure) →
      report = .ofFailure seed.name failure
  start : ∀ roots ∈ report.start, roots.length = seed.roots.length
  finish : ∀ roots ∈ report.finish, roots.length = seed.roots.length

/-- Reports by places are the reports on vectors. There is one on every seed, also if some
seeds fail. -/
structure ReportsSafely (config : Config (Complex Float)) (settings : Settings Float)
    (path : List (Complex Float)) (seeds : List Seed) : Prop where
  agrees : traceSeeds config settings path seeds =
    answerOf id (Batch.trace (.ofProductForm config.productForm) settings path seeds).outcome
  reported : ∃ reports, traceSeeds config settings path seeds = .ok reports ∧
    List.Forall₂ (Reported config settings path) seeds reports

section Reports

variable {config : Config (Complex Float)}
  (paired : config.constants.left.length = config.constants.right.length)
  (settings : Settings Float) (path : List (Complex Float))

include paired

/-- The report of a seed shows a trajectory that fits, or the text of a failure with a cause. -/
theorem reported_reportOn (seed : Seed) :
    Reported config settings path seed
      (Batch.reportOn (.ofProductForm config.productForm) settings path seed) := by
  have follows := followsSafely paired settings seed.roots path
  have agrees := follows.agrees
  obtain ⟨name, ofOk, ofError, _, _⟩ :=
    Batch.coherent_reportOn (.ofProductForm config.productForm) settings path seed
  cases outcome : ((Problem.ofList (.ofProductForm config.productForm) settings
      seed.roots).trajectory path).outcome with
  | error failure =>
      rw [outcome] at agrees
      obtain ⟨trajectory, start, finish, error⟩ := ofError failure outcome
      refine ⟨?_, ?_, ?_, ?_⟩
      · intro other impossible
        cases agrees.symm.trans impossible
      · intro other again
        cases agrees.symm.trans again
        exact Report.eq_ofFailure name trajectory start finish error
      · rw [start]
        simp
      · rw [finish]
        simp
  | ok trajectory =>
      rw [outcome] at agrees
      obtain ⟨same, start, finish, error⟩ := ofOk trajectory outcome
      have fits := follows.closed.result trajectory agrees
      refine ⟨?_, ?_, fits.length_of_start start, fits.length_of_finish finish⟩
      · intro other again
        cases agrees.symm.trans again
        exact ⟨same, error⟩
      · intro failure impossible
        cases agrees.symm.trans impossible

theorem reportsSafely (seeds : List Seed) : ReportsSafely config settings path seeds := by
  have reports : traceSeeds config settings path seeds = _ :=
    traceSeeds_eq_ok paired path seeds
  refine ⟨?_, _, reports, ?_⟩
  · rw [reports, Batch.outcome_trace]
    rfl
  · rw [List.forall₂_map_right_iff, List.forall₂_same]
    intro seed _
    exact reported_reportOn paired settings path seed

end Reports

/-- Constants that are accepted make every computation by places agree with the computation
over vectors, and closed: it asks for no place that is not there, what it hands out has the
length of the seed, and it fails with a possible cause only. -/
theorem computations_are_closed
    (config : Config (Complex Float))
    (valid : config.check = .ok ⟨⟩)
    (settings : Settings Float) :
    (∀ seed q, CorrectsSafely config settings seed q) ∧
    (∀ seed path, FollowsSafely config settings seed path) ∧
    (∀ seed path, RunsSafely config settings seed path) ∧
    ∀ path seeds, ReportsSafely config settings path seeds := by
  have paired := config.paired_of_check valid
  refine ⟨?_, ?_, ?_, ?_⟩
  · intro seed q
    exact correctsSafely paired settings seed q
  · intro seed path
    exact followsSafely paired settings seed path
  · intro seed path
    exact runsSafely paired settings seed path
  · intro path seeds
    exact reportsSafely paired settings path seeds

/-- Constants that make the only residual `x - 1` at the parameter two. -/
def unitRoot : Config (Complex Float) where
  shifts := ⟨0, 0, 0⟩
  constants := ⟨[1], [1]⟩

/-- No roots are turned down as such at a parameter that is no number, and a root that is no
number is none of the solver's results. -/
theorem unitRoot_is_closed :
    (∃ failure, correct unitRoot Settings.standard [] ⟨0 / 0, 0⟩ = .error (.failed failure) ∧
      failure.cause = .emptySeed) ∧
    Closed 1 Settings.standard (fun correction => correction.roots.length = 1)
      (correct unitRoot Settings.standard [⟨0 / 0, 0⟩] ⟨2, 0⟩) ∧
    Closed 1 Settings.standard (fun trajectory => trajectory.Fits 1 2)
      (continueAlong unitRoot Settings.standard [⟨3, 0⟩] [⟨2, 0⟩, ⟨0 / 0, 0⟩]) := by
  have valid : unitRoot.check = .ok ⟨⟩ := by
    decide +kernel
  obtain ⟨corrects, follows, _, _⟩ := computations_are_closed unitRoot valid Settings.standard
  exact ⟨(corrects [] ⟨0 / 0, 0⟩).closed.emptySeed.mpr rfl,
    (corrects [⟨0 / 0, 0⟩] ⟨2, 0⟩).closed, (follows [⟨3, 0⟩] [⟨2, 0⟩, ⟨0 / 0, 0⟩]).closed⟩

end Places
end RootTrace
