import RootTrace.Proofs.Batch.Reports
import RootTrace.Proofs.Finiteness.Corrections
import RootTrace.Proofs.Path.Batches

/-!
# Results hold finite roots only

Every root that is handed out comes from a correction that succeeded, so it is a finite
number: in a trajectory, in the partial result of a runner and in the report on a seed.
Equations in product form are never followed past a parameter that is not finite.
-/

namespace RootTrace

universe u

/-! ## Finite results -/

/-- A track along finite roots. -/
def Track.IsFinite {α : Type u} {n : Nat} [Magnitude α] (track : Track α n) : Prop :=
  ∀ roots ∈ track.steps, Complex.allFinite roots.toList = true

/-- A trajectory along finite roots. -/
def Trajectory.IsFinite {α : Type u} [Magnitude α] (trajectory : Trajectory α) : Prop :=
  ∀ component ∈ trajectory.components, Complex.allFinite component = true

/-- A report in which all roots are finite. -/
structure Report.IsFinite (report : Report) : Prop where
  trajectory : ∀ trajectory, report.trajectory = some trajectory → trajectory.IsFinite
  start : ∀ roots, report.start = some roots → Complex.allFinite roots = true
  finish : ∀ roots, report.finish = some roots → Complex.allFinite roots = true

namespace Track

variable {α : Type u} {n : Nat} [Magnitude α] {track : Track α n}

theorem isFinite_empty : (empty : Track α n).IsFinite := by
  intro roots member
  cases member

theorem IsFinite.record
    {correction : Correction α n}
    (finite : track.IsFinite)
    (corrected : Complex.allFinite correction.roots.toList = true) :
    (track.record correction).IsFinite := by
  intro roots member
  rcases List.mem_append.mp member with earlier | latest
  · exact finite roots earlier
  · rw [List.mem_singleton.mp latest]
    exact corrected

theorem IsFinite.trajectory (finite : track.IsFinite) : track.trajectory.IsFinite := by
  intro component member
  obtain ⟨k, _, rfl⟩ := List.mem_map.mp member
  apply List.all_eq_true.mpr
  intro root inside
  obtain ⟨roots, atStep, rfl⟩ := List.mem_map.mp inside
  exact Complex.allFinite_toList_iff.mp (finite roots atStep) k

/-- What a report shows of a track of finite roots is finite. -/
theorem IsFinite.report {track : Track Float n} (finite : track.IsFinite) (name : String) :
    (Report.ofTrack name track).IsFinite := by
  refine ⟨?_, ?_, ?_⟩
  · intro trajectory traced
    cases traced
    exact finite.trajectory
  · intro roots started
    obtain ⟨first, atStart, rfl⟩ := Option.map_eq_some_iff.mp started
    exact finite first (List.mem_of_head? atStart)
  · intro roots finished
    obtain ⟨last, atEnd, rfl⟩ := Option.map_eq_some_iff.mp finished
    exact finite last (List.mem_of_getLast? atEnd)

end Track

/-! ## Paths -/

namespace Problem

variable {α : Type u} {n : Nat}
variable [Zero α] [One α] [Add α] [Sub α] [Mul α] [Neg α] [Div α] [BEq α]
  [LT α] [DecidableLT α] [Magnitude α] [ReflectsFinite α]
  {problem : Problem α n} {track next : Track α n} {q : Complex α}
  {path : List (Complex α)}

/-- What one point preserves. -/
theorem isFinite_of_point
    (succeeded : problem.point track q = .ok next)
    (finite : track.IsFinite) :
    next.IsFinite := by
  obtain ⟨correction, corrected, rfl⟩ := (point_eq_ok_iff _ _ _ _).mp succeeded
  exact finite.record (Corrector.finite_of_correct corrected).2

/-- What many points preserve. -/
theorem isFinite_of_follow
    (succeeded : problem.follow track path = .ok next)
    (finite : track.IsFinite) :
    next.IsFinite := by
  induction path generalizing track with
  | nil =>
      cases succeeded
      exact finite
  | cons q path inductionHypothesis =>
      obtain ⟨reached, called, rest⟩ := follow_cons_eq_ok_iff.mp succeeded
      exact inductionHypothesis rest (isFinite_of_point called finite)

theorem isFinite_of_trace (succeeded : (problem.trace path).outcome = .ok track) :
    track.IsFinite := by
  obtain ⟨_, followed⟩ := (outcome_trace_eq_ok_iff _ _ _).mp succeeded
  exact isFinite_of_follow followed Track.isFinite_empty

theorem isFinite_of_trajectory
    {trajectory : Trajectory α}
    (succeeded : (problem.trajectory path).outcome = .ok trajectory) :
    trajectory.IsFinite := by
  obtain ⟨track, followed, rfl⟩ := exists_track_of_trajectory succeeded
  exact (isFinite_of_trace followed).trajectory

/-! ## Parameters -/

/-- A point is followed only if its residuals are finite. -/
theorem finiteAt_of_point (succeeded : problem.point track q = .ok next) :
    Corrector.FiniteAt problem.system q (track.latest problem.seed) := by
  obtain ⟨correction, corrected, _⟩ := (point_eq_ok_iff _ _ _ _).mp succeeded
  exact (Corrector.finite_of_correct corrected).1

variable {form : ProductForm (Complex α)} {settings : Settings α}
  {seed : Vector (Complex α) n}

/-- Points that are followed with equations in product form are finite. -/
theorem isFinite_of_mem_of_follow
    (nonempty : n ≠ 0)
    (succeeded :
      (Problem.mk (RootSystem.ofProductForm form) settings seed).follow track path =
        .ok next) :
    ∀ q ∈ path, q.isFinite = true := by
  induction path generalizing track with
  | nil =>
      intro q member
      cases member
  | cons point path inductionHypothesis =>
      obtain ⟨reached, called, rest⟩ := follow_cons_eq_ok_iff.mp succeeded
      intro q member
      rcases List.mem_cons.mp member with rfl | later
      · exact ProductForm.isFinite_of_residual nonempty (finiteAt_of_point called).2
      · exact inductionHypothesis rest q later

/-- A parameter that is not finite ends the path, if no point before it has. -/
theorem trajectory_of_not_finite
    {step : Nat}
    (accepted : Corrector.check n settings = .ok ⟨⟩)
    (atStep : path[step]? = some q)
    (notFinite : ¬ q.isFinite = true) :
    ∃ earlier ≤ step, ∃ point, ∃ inner : Failure α,
      path[earlier]? = some point ∧
        ((Problem.mk (RootSystem.ofProductForm form) settings seed).trajectory
            path).outcome =
          .error (inner.within (.pathStep earlier point)) := by
  have nonempty := (Corrector.check_eq_ok_iff.mp accepted).1
  have member : q ∈ path.take (step + 1) := by
    apply List.mem_iff_getElem?.mpr
    refine ⟨step, ?_⟩
    rwa [List.getElem?_take_of_lt (Nat.lt_succ_self step)]
  cases followed : (Problem.mk (RootSystem.ofProductForm form) settings seed).follow
      Track.empty (path.take (step + 1)) with
  | ok track => exact absurd (isFinite_of_mem_of_follow nonempty followed q member) notFinite
  | error failure =>
      obtain ⟨earlier, before, failsInFront⟩ := (follow_eq_error_iff _ _ _ _).mp followed
      obtain ⟨bounded, failsAt⟩ := failsAt_take_iff.mp failsInFront
      obtain ⟨point, atEarlier, inner, named⟩ := failsAt.names_point
      rw [Track.length_empty, Nat.zero_add] at named
      have whole := (follow_eq_error_iff _ _ _ _).mpr ⟨earlier, before, failsAt⟩
      refine ⟨earlier, Nat.le_of_lt_succ bounded, point, inner, atEarlier, ?_⟩
      rw [← named]
      exact (outcome_trajectory_eq_error_iff _ accepted).mpr whole

end Problem

/-! ## Runners and batches -/

namespace Runner

variable {α : Type u} {n : Nat}
variable [Zero α] [One α] [Add α] [Sub α] [Mul α] [Neg α] [Div α] [BEq α]
  [LT α] [DecidableLT α] [Magnitude α] [ReflectsFinite α]

/-- Whatever batches a runner has carried out, what it holds is finite. -/
theorem isFinite_of_runBatches
    {problem : Problem α n}
    {path : List (Complex α)}
    {runner reached : Runner α}
    {batches : List Nat}
    (created : create problem path = .ok runner)
    (ran : (runner.runBatches batches).outcome = .ok reached) :
    reached.result.IsFinite := by
  obtain ⟨_, rfl⟩ := (create_eq_ok_iff _ _ _).mp created
  have atStart :
      problem.follow Track.empty (path.take (Track.empty : Track α n).length) =
        .ok Track.empty := rfl
  obtain ⟨last, arrived, followed⟩ := runBatches_preserves_follow atStart batches
  cases arrived.symm.trans ran
  exact (Problem.isFinite_of_follow followed Track.isFinite_empty).trajectory

end Runner

theorem Batch.isFinite_reportOn
    (system : RootSystem Float)
    (settings : Settings Float)
    (path : List (Complex Float))
    (seed : Seed) :
    (reportOn system settings path seed).IsFinite := by
  rw [reportOn]
  cases traced : ((Problem.ofList system settings seed.roots).trace path).outcome with
  | ok track => exact (Problem.isFinite_of_trace traced).report seed.name
  | error failure =>
      refine ⟨?_, ?_, ?_⟩
      all_goals
        intro results impossible
        cases impossible

/-! ## All results -/

/-- Nothing infinite or indeterminate gets into a result. An iteration that meets it in
its roots or residuals is the one at which the correction fails, so corrections,
trajectories, partial results of runners and reports on seeds hold finite roots only. With
equations in product form a path that is not refused fails at the latest at its first
parameter that is not finite. -/
theorem results_are_finite (settings : Settings Float) :
    (∀ (system : RootSystem Float) (n : Nat) (seed : Vector (Complex Float) n)
        (q : Complex Float),
      (∀ iteration x,
        Corrector.Reaches system settings q seed iteration x →
        (Complex.allFinite x.toList = false ∨
          Complex.allFinite (system.residual x q).toList = false) →
        (Corrector.correct system settings seed q).outcome =
            .error ⟨[.linearSolve], .singular iteration⟩ ∨
          (Corrector.correct system settings seed q).outcome =
            .error ⟨[], .nonFinite iteration⟩) ∧
      ∀ correction,
        (Corrector.correct system settings seed q).outcome = .ok correction →
        Complex.allFinite correction.roots.toList = true) ∧
    (∀ (system : RootSystem Float) (n : Nat) (seed : Vector (Complex Float) n)
        (path : List (Complex Float)),
      (∀ trajectory,
        ((Problem.mk system settings seed).trajectory path).outcome = .ok trajectory →
        trajectory.IsFinite) ∧
      ∀ runner, Runner.create ⟨system, settings, seed⟩ path = .ok runner →
        ∀ batches reached, (runner.runBatches batches).outcome = .ok reached →
          reached.result.IsFinite) ∧
    (∀ (system : RootSystem Float) (path : List (Complex Float)) (seeds : List Seed)
        (reports : List Report),
      (Batch.trace system settings path seeds).outcome = .ok reports →
      ∀ report ∈ reports, report.IsFinite) ∧
    ∀ (form : ProductForm (Complex Float)) (n : Nat) (seed : Vector (Complex Float) n)
        (path : List (Complex Float)) (step : Nat) (q : Complex Float),
      path[step]? = some q →
      q.isFinite = false →
      (∃ fault, Corrector.check n settings = .error fault ∧
        ((Problem.mk (RootSystem.ofProductForm form) settings seed).trajectory
            path).outcome =
          .error (.ofFault fault)) ∨
      ∃ earlier ≤ step, ∃ point, ∃ inner : Failure Float,
        path[earlier]? = some point ∧
          ((Problem.mk (RootSystem.ofProductForm form) settings seed).trajectory
              path).outcome =
            .error (inner.within (.pathStep earlier point)) := by
  refine ⟨?_, ?_, ?_, ?_⟩
  · intro system n seed q
    constructor
    · intro iteration x reached infinite
      apply reached.outcome_of_not_finiteAt
      rintro ⟨finiteRoots, finiteResidual⟩
      rcases infinite with roots | residual
      · exact absurd finiteRoots (Bool.eq_false_iff.mp roots)
      · exact absurd finiteResidual (Bool.eq_false_iff.mp residual)
    · intro correction corrected
      exact (Corrector.finite_of_correct corrected).2
  · intro system n seed path
    constructor
    · intro trajectory succeeded
      exact Problem.isFinite_of_trajectory succeeded
    · intro runner created batches reached ran
      exact Runner.isFinite_of_runBatches created ran
  · intro system path seeds reports reported report member
    rw [Batch.outcome_trace] at reported
    cases reported
    obtain ⟨seed, _, rfl⟩ := List.mem_map.mp member
    exact Batch.isFinite_reportOn system settings path seed
  · intro form n seed path step q atStep infinite
    cases checked : Corrector.check n settings with
    | error fault =>
        left
        exact ⟨fault, rfl, Problem.trajectory_of_check_error checked path⟩
    | ok accepted =>
        right
        apply Problem.trajectory_of_not_finite checked atStep
        exact Bool.eq_false_iff.mp infinite

/-- From one towards the square roots of ten to the power of 308, the first iteration
arrives at about half of that. Its square is no finite number, and the second iteration
fails. -/
theorem squares_overflow_at_second_iteration :
    ∃ x : Vector (Complex Float) 1,
      Corrector.Reaches RootSystem.squares Settings.standard ⟨1e308, 0⟩ #v[⟨1, 0⟩] 2 x ∧
        ((Corrector.correct RootSystem.squares Settings.standard #v[⟨1, 0⟩]
              (⟨1e308, 0⟩ : Complex Float)).outcome =
            .error ⟨[.linearSolve], .singular 2⟩ ∨
          (Corrector.correct RootSystem.squares Settings.standard #v[⟨1, 0⟩]
              (⟨1e308, 0⟩ : Complex Float)).outcome =
            .error ⟨[], .nonFinite 2⟩) := by
  have accepted : Corrector.check 1 Settings.standard = .ok ⟨⟩ := by
    decide +kernel
  have iterated : (Corrector.iterate RootSystem.squares Settings.standard.damping
      ⟨1e308, 0⟩ 1 (#v[⟨1, 0⟩] : Vector (Complex Float) 1)).outcome =
        .ok (#v[⟨5e307, 0⟩], 5e307) := by
    decide +kernel
  have large : ¬ (5e307 : Float) < Settings.standard.tolerance := by
    decide +kernel
  have reached : Corrector.Reaches RootSystem.squares Settings.standard ⟨1e308, 0⟩
      (#v[⟨1, 0⟩] : Vector (Complex Float) 1) 2 #v[⟨5e307, 0⟩] :=
    .next (.first accepted) (by decide) iterated large
  have overflow : Complex.allFinite ((RootSystem.squares : RootSystem Float).residual
      (#v[⟨5e307, 0⟩] : Vector (Complex Float) 1) ⟨1e308, 0⟩).toList = false := by
    decide +kernel
  obtain ⟨corrections, _⟩ := results_are_finite Settings.standard
  obtain ⟨fails, _⟩ := corrections RootSystem.squares 1 #v[⟨1, 0⟩] ⟨1e308, 0⟩
  exact ⟨_, reached, fails 2 _ reached (.inr overflow)⟩

end RootTrace
