import RootTrace.Proofs.Places.Closure
import RootTrace.Proofs.Record.RoundTrip

/-!
# Ragged trajectories

Trajectories are stored and read without a look at their shape, so their components may have
any lengths. The solver and its runners never hand out such a ragged trajectory: all
components have the steps that were followed, and every step of them can be read.
-/

namespace RootTrace

universe u

/-! ## Stored trajectories -/

/-- Reading a trajectory from a text does not look at the lengths of its components. -/
theorem Record.exists_text_of_lengths (lengths : List Nat) :
    ∃ text trajectory, Json.decode? Record.trajectory.read? text = some trajectory ∧
      trajectory.components.map List.length = lengths := by
  have zero : Form.float.Storable 0 := by
    change Magnitude.isFinite (0 : Float) = true
    decide +kernel
  have storable : trajectoryForm.Storable
      ⟨lengths.map fun length => List.replicate length ⟨0, 0⟩, []⟩ := by
    intro member listed
    simp only [List.mem_cons, List.not_mem_nil, or_false] at listed
    rcases listed with rfl | rfl
    · intro component inside root found
      obtain ⟨length, _, rfl⟩ := List.mem_map.mp inside
      rw [List.eq_of_mem_replicate found]
      exact ⟨zero, zero⟩
    · intro step inside
      cases inside
  obtain ⟨text, json, writes, written⟩ := faithful_trajectory.survives.writable storable
  refine ⟨text, _, faithful_trajectory.survives.restored storable writes written, ?_⟩
  simp [Function.comp_def]

/-! ## Trajectories that are handed out -/

/-- Components of one length are no shorter than the first of them. -/
theorem Trajectory.Fits.firstShortest
    {α : Type u}
    {trajectory : Trajectory α}
    {roots steps : Nat}
    (fits : trajectory.Fits roots steps) :
    trajectory.FirstShortest := by
  intro component member
  rw [fits.length component member, Trajectory.length]
  split
  · exact Nat.zero_le _
  next first others listed =>
    have atFront : first ∈ trajectory.components := by
      rw [listed]
      exact List.mem_cons_self
    exact (fits.length first atFront).le

/-- Every component of a trajectory that the solver returns has one value per step. -/
theorem Problem.firstShortest_of_trajectory
    {n : Nat}
    {problem : Problem Float n}
    {path : List (Complex Float)}
    {trajectory : Trajectory Float}
    (succeeded : (problem.trajectory path).outcome = .ok trajectory) :
    trajectory.FirstShortest := by
  obtain ⟨track, _, rfl⟩ := exists_track_of_trajectory succeeded
  exact track.firstShortest_trajectory

theorem Batch.firstShortest_of_reportOn
    {system : RootSystem Float}
    {settings : Settings Float}
    {path : List (Complex Float)}
    {seed : Seed}
    {trajectory : Trajectory Float}
    (traced : (reportOn system settings path seed).trajectory = some trajectory) :
    trajectory.FirstShortest := by
  rw [reportOn] at traced
  cases followed : ((Problem.ofList system settings seed.roots).trace path).outcome with
  | error failure =>
      rw [followed] at traced
      cases traced
  | ok track =>
      rw [followed] at traced
      cases traced
      exact track.firstShortest_trajectory

namespace Solver

variable {config : Config (Complex Float)} {trajectory : Trajectory Float}

theorem firstShortest_of_solvePath
    {seed path : List (Complex Float)}
    (succeeded : (solvePath config seed path).outcome = .ok trajectory) :
    trajectory.FirstShortest := by
  rw [solvePath, Run.outcome_bind, Run.outcome_ofCheck] at succeeded
  cases setUp : system config with
  | error fault =>
      rw [setUp] at succeeded
      cases succeeded
  | ok system =>
      rw [setUp] at succeeded
      exact Problem.firstShortest_of_trajectory succeeded

theorem firstShortest_of_traceSeeds
    {settings : Settings Float}
    {path : List (Complex Float)}
    {seeds : List Seed}
    {reports : List Report}
    {report : Report}
    (succeeded : (traceSeeds config settings path seeds).outcome = .ok reports)
    (member : report ∈ reports)
    (traced : report.trajectory = some trajectory) :
    trajectory.FirstShortest := by
  rw [outcome_traceSeeds] at succeeded
  cases checked : config.check with
  | error fault =>
      rw [checked] at succeeded
      cases succeeded
  | ok accepted =>
      rw [checked] at succeeded
      cases succeeded
      obtain ⟨seed, _, rfl⟩ := List.mem_map.mp member
      exact Batch.firstShortest_of_reportOn traced

end Solver

/-- A trajectory that is handed out, by the solver or by a runner. -/
inductive Trajectory.Returned : Trajectory Float → Prop where
  /-- By following a path of any system. -/
  | path {n : Nat} (problem : Problem Float n) (path : List (Complex Float))
      {trajectory : Trajectory Float} :
      (problem.trajectory path).outcome = .ok trajectory → Returned trajectory
  /-- By following a path of the equations that some constants describe. -/
  | config (config : Config (Complex Float)) (seed path : List (Complex Float))
      {trajectory : Trajectory Float} :
      (Solver.solvePath config seed path).outcome = .ok trajectory → Returned trajectory
  /-- In the report on one of many seeds. -/
  | report (config : Config (Complex Float)) (settings : Settings Float)
      (path : List (Complex Float)) (seeds : List Seed)
      {reports : List Report} {report : Report} {trajectory : Trajectory Float} :
      (Solver.traceSeeds config settings path seeds).outcome = .ok reports →
      report ∈ reports → report.trajectory = some trajectory → Returned trajectory
  /-- By a runner, whatever batches it has carried out. -/
  | runner {n : Nat} (problem : Problem Float n) (path : List (Complex Float))
      (batches : List Nat) {runner reached : Runner Float} :
      Runner.create problem path = .ok runner →
      (runner.runBatches batches).outcome = .ok reached → Returned reached.result
  /-- By following a path with roots in lists of any length. -/
  | places (config : Config (Complex Float)) (settings : Settings Float)
      (seed path : List (Complex Float)) {trajectory : Trajectory Float} :
      config.check = .ok ⟨⟩ →
      Places.continueAlong config settings seed path = .ok trajectory → Returned trajectory
  /-- By a runner that keeps roots in lists of any length. -/
  | placesRunner (config : Config (Complex Float)) (settings : Settings Float)
      (seed path : List (Complex Float)) (batches : List Nat)
      {runner : Places.Runner Float} {trajectory : Trajectory Float} :
      config.check = .ok ⟨⟩ →
      Places.Runner.create settings seed path = .ok runner →
      (runner.runBatches config settings batches).result = .ok trajectory →
      Returned trajectory

/-- In whatever way a trajectory is returned, no component of it is shorter than the first. -/
theorem Trajectory.Returned.firstShortest
    {trajectory : Trajectory Float}
    (returned : trajectory.Returned) :
    trajectory.FirstShortest := by
  cases returned with
  | path problem path succeeded => exact Problem.firstShortest_of_trajectory succeeded
  | config config seed path succeeded => exact Solver.firstShortest_of_solvePath succeeded
  | report config settings path seeds succeeded member traced =>
      exact Solver.firstShortest_of_traceSeeds succeeded member traced
  | runner problem path batches created ran => exact Track.firstShortest_trajectory _
  | places config settings seed path valid succeeded =>
      have follows := Places.followsSafely (config.paired_of_check valid) settings seed path
      exact (follows.closed.result _ succeeded).firstShortest
  | placesRunner config settings seed path batches valid created taken =>
      have runs := Places.runsSafely (config.paired_of_check valid) settings seed path
      obtain ⟨held, same, fits⟩ := (runs.closed.result _ created batches).result
      cases same.symm.trans taken
      exact fits.firstShortest

/-- Components of any lengths can be stored. Reading a step finds none from the length of the
first component on, stops at a step that another component lacks, and otherwise has the value
of every component. The first and the last step are read alike. So everything can be read
exactly if no component is shorter than the first, and every trajectory that the solver or a
runner hands out is like that. -/
theorem trajectories_are_read_by_their_lengths :
    (∀ lengths : List Nat, ∃ text trajectory,
      Json.decode? Record.trajectory.read? text = some trajectory ∧
        trajectory.components.map List.length = lengths) ∧
    (∀ trajectory : Trajectory Float,
      (∀ step, trajectory.ReadsAt step (trajectory.rootsAt step)) ∧
      trajectory.ReadsAt 0 trajectory.start ∧
      trajectory.ReadsAt (trajectory.length - 1) trajectory.finish ∧
      (trajectory.finish = .ok none ↔ trajectory.length = 0) ∧
      (trajectory.Readable ↔ trajectory.FirstShortest)) ∧
    ∀ trajectory : Trajectory Float, trajectory.Returned → trajectory.FirstShortest := by
  refine ⟨Record.exists_text_of_lengths, ?_, ?_⟩
  · intro trajectory
    exact ⟨trajectory.readsAt_rootsAt, trajectory.readsAt_start, trajectory.readsAt_finish,
      trajectory.finish_eq_none_iff, Trajectory.readable_iff_firstShortest⟩
  · intro trajectory returned
    exact returned.firstShortest

/-- A second component that lacks the last step of the first. -/
def secondStepLacking : Trajectory Float :=
  ⟨[[⟨1, 2⟩, ⟨3, 4⟩], [⟨5, 6⟩]], []⟩

/-- Components of different lengths can be stored. The first step has roots, but reading stops
at the last one, so this trajectory was not handed out. One that was can be read throughout. -/
theorem secondStepLacking_stops_at_finish :
    Json.decode? Record.trajectory.read? "[[[[1,2],[3,4]],[[5,6]]]]" =
      some secondStepLacking ∧
    secondStepLacking.start = .ok (some [⟨1, 2⟩, ⟨5, 6⟩]) ∧
    secondStepLacking.finish = .error ⟨1⟩ ∧
    ¬ secondStepLacking.Returned ∧
    (Problem.singleIteration.trajectory [⟨4, 0⟩, ⟨6.25, 0⟩]).outcome =
      .ok ⟨[[⟨2.5, 0⟩, ⟨2.5, 0⟩]], [0]⟩ ∧
    Trajectory.Readable (⟨[[⟨2.5, 0⟩, ⟨2.5, 0⟩]], [0]⟩ : Trajectory Float) := by
  have stored : Json.decode? Record.trajectory.read? "[[[[1,2],[3,4]],[[5,6]]]]" =
      some secondStepLacking := by
    decide +kernel
  have begins : secondStepLacking.start = .ok (some [⟨1, 2⟩, ⟨5, 6⟩]) := by
    decide +kernel
  have followed : (Problem.singleIteration.trajectory [⟨4, 0⟩, ⟨6.25, 0⟩]).outcome =
      .ok ⟨[[⟨2.5, 0⟩, ⟨2.5, 0⟩]], [0]⟩ := by
    decide +kernel
  obtain ⟨_, reads, shortest⟩ := trajectories_are_read_by_their_lengths
  obtain ⟨_, _, last, _, readable⟩ := reads secondStepLacking
  have lacks : secondStepLacking.Lacks 1 := ⟨[⟨5, 6⟩], by simp [secondStepLacking], by decide⟩
  have stops : secondStepLacking.finish = .error ⟨1⟩ :=
    (last.error_iff ⟨1⟩).mpr ⟨rfl, by decide, lacks⟩
  refine ⟨stored, begins, stops, ?_, followed, ?_⟩
  · intro returned
    obtain ⟨answer, read⟩ := (readable.mpr (shortest _ returned)).finish
    cases stops.symm.trans read
  · obtain ⟨_, _, _, _, readable⟩ := reads ⟨[[⟨2.5, 0⟩, ⟨2.5, 0⟩]], [0]⟩
    exact readable.mpr (shortest _ (.path _ _ followed))

end RootTrace
