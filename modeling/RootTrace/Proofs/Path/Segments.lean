import RootTrace.Proofs.Path.Chain

/-!
# Paths in segments

A path can be followed in two segments. The last roots of the first segment say
everything that the second one needs to know, so starting anew from them gives the
same roots, the same unconverged steps and the same cause of a failure as going on.
Only the numbers of the steps are counted from the start of the segment.
-/

namespace RootTrace

universe u

theorem Failure.within_inj
    {α : Type u}
    {context other : Context α}
    {failure failure' : Failure α} :
    failure.within context = failure'.within other ↔
      context = other ∧ failure = failure' := by
  obtain ⟨contexts, cause⟩ := failure
  obtain ⟨contexts', cause'⟩ := failure'
  simp [within, and_assoc]

namespace Track

variable {α : Type u} {n : Nat}

/-- One track behind another. The steps of the second are counted from the end of the
first. -/
def append (first second : Track α n) : Track α n where
  steps := first.steps ++ second.steps
  unconverged := first.unconverged ++ second.unconverged.map (first.length + ·)

@[simp] theorem append_empty (track : Track α n) : track.append empty = track := by
  simp [append, empty]

@[simp] theorem length_append (first second : Track α n) :
    (first.append second).length = first.length + second.length :=
  List.length_append

theorem latest_append (first second : Track α n) (seed : Vector (Complex α) n) :
    (first.append second).latest seed = second.latest (first.latest seed) := by
  rw [latest, latest, latest, append, List.getLast?_append, Option.getD_or]

theorem record_append (first second : Track α n) (correction : Correction α n) :
    (first.append second).record correction = first.append (second.record correction) := by
  cases converged : correction.converged with
  | true => simp [record, append, converged]
  | false => simp [record, append, converged, length]

theorem trajectory_append (first second : Track α n) :
    (first.append second).trajectory =
      ⟨List.zipWith (· ++ ·) first.trajectory.components second.trajectory.components,
        first.trajectory.unconvergedSteps ++
          second.trajectory.unconvergedSteps.map (first.length + ·)⟩ := by
  simp [trajectory, append, List.zipWith_map]

/-- The last roots of a track that has steps are where a following one starts. -/
theorem finish?_eq_some_latest
    {track : Track α n}
    (stepped : track.length ≠ 0)
    (seed : Vector (Complex α) n) :
    track.finish? = some (track.latest seed).toList := by
  have nonempty : track.steps ≠ [] := by
    intro vacant
    exact stepped (List.length_eq_zero_iff.mpr vacant)
  rw [finish?, latest, List.getLast?_eq_some_getLast nonempty]
  rfl

end Track

namespace Problem

variable {α : Type u} {n : Nat}

/-- The same problem from where a track has arrived. -/
def restarted (problem : Problem α n) (track : Track α n) : Problem α n :=
  { problem with seed := track.latest problem.seed }

variable [Zero α] [One α] [Add α] [Sub α] [Mul α] [Neg α] [Div α] [BEq α]
  [LT α] [DecidableLT α] [Magnitude α]

variable {problem : Problem α n} {first track next : Track α n} {q : Complex α}
  {points : List (Complex α)}

/-! ## One point -/

theorem point_append_of_ok
    (succeeded : (problem.restarted first).point track q = .ok next) :
    problem.point (first.append track) q = .ok (first.append next) := by
  obtain ⟨correction, corrected, rfl⟩ := (point_eq_ok_iff _ _ _ _).mp succeeded
  refine (point_eq_ok_iff _ _ _ _).mpr ⟨correction, ?_, (Track.record_append _ _ _).symm⟩
  rw [Track.latest_append]
  exact corrected

/-- A failure behind other steps counts these steps. -/
theorem point_append_of_error
    {inner : Failure α}
    (failed : (problem.restarted first).point track q =
      .error (inner.within (.pathStep track.length q))) :
    problem.point (first.append track) q =
      .error (inner.within (.pathStep (first.length + track.length) q)) := by
  obtain ⟨cause, corrected, same⟩ := (point_eq_error_iff _ _ _ _).mp failed
  obtain ⟨_, rfl⟩ := Failure.within_inj.mp same
  refine (point_eq_error_iff _ _ _ _).mpr ⟨inner, ?_, by rw [Track.length_append]⟩
  rw [Track.latest_append]
  exact corrected

/-! ## Many points -/

theorem follow_append_of_ok
    (succeeded : (problem.restarted first).follow track points = .ok next) :
    problem.follow (first.append track) points = .ok (first.append next) := by
  induction points generalizing track with
  | nil =>
      cases succeeded
      rfl
  | cons q points inductionHypothesis =>
      obtain ⟨reached, firstPoint, rest⟩ := follow_cons_eq_ok_iff.mp succeeded
      apply follow_cons_eq_ok_iff.mpr
      exact ⟨first.append reached, point_append_of_ok firstPoint, inductionHypothesis rest⟩

/-- A point that fails behind a first segment is a later point of the whole path. -/
theorem failsAt_append
    {before : Track α n}
    {step : Nat}
    {inner : Failure α}
    (failsAt : (problem.restarted first).FailsAt track points step before
      (inner.within (.pathStep (track.length + step) q))) :
    problem.FailsAt (first.append track) points step (first.append before)
      (inner.within (.pathStep (first.length + (track.length + step)) q)) := by
  have inside := failsAt.inside
  have length : before.length = track.length + step := by
    rw [length_of_follow failsAt.reached, List.length_take_of_le inside.le]
  refine ⟨inside, follow_append_of_ok failsAt.reached, ?_⟩
  obtain ⟨cause, _, named⟩ := (point_eq_error_iff _ _ _ _).mp failsAt.fails
  obtain ⟨_, atStep⟩ := Context.pathStep.inj (Failure.within_inj.mp named).1
  have fails : (problem.restarted first).point before points[step] =
      .error (inner.within (.pathStep before.length points[step])) := by
    rw [failsAt.fails, atStep, length]
  rw [point_append_of_error fails, length, atStep]

/-! ## Two segments -/

/-- Roots that were handed out as a list are the same place to start from. -/
theorem trajectory_ofList_toList
    (system : RootSystem α)
    (settings : Settings α)
    (seed : Vector (Complex α) n)
    (path : List (Complex α)) :
    (ofList system settings seed.toList).trajectory path =
      (Problem.mk system settings seed).trajectory path := by
  obtain ⟨⟨roots⟩, rfl⟩ := seed
  rfl

variable {second : List (Complex α)}

theorem length_of_follow_empty (reached : problem.follow Track.empty points = .ok first) :
    first.length = points.length := by
  rw [length_of_follow reached, Track.length_empty, Nat.zero_add]

theorem follow_whole_of_ok
    {rest : Track α n}
    (reached : problem.follow Track.empty points = .ok first)
    (succeeded : (problem.restarted first).follow Track.empty second = .ok rest) :
    problem.follow Track.empty (points ++ second) = .ok (first.append rest) := by
  have whole := follow_append_of_ok succeeded
  rw [Track.append_empty] at whole
  rw [follow_append, reached]
  exact whole

/-- If the second part fails, the whole fails for the same cause at the step that is as much later
as the first part is long. -/
theorem follow_whole_of_error
    {failure : Failure α}
    (reached : problem.follow Track.empty points = .ok first)
    (failed : (problem.restarted first).follow Track.empty second = .error failure) :
    ∃ step q, ∃ inner : Failure α, second[step]? = some q ∧
      failure = inner.within (.pathStep step q) ∧
      problem.follow Track.empty (points ++ second) =
        .error (inner.within (.pathStep (points.length + step) q)) := by
  obtain ⟨step, before, failsAt⟩ := (follow_eq_error_iff _ _ _ _).mp failed
  obtain ⟨q, atStep, inner, rfl⟩ := failsAt.names_point
  have whole := (follow_eq_error_iff _ _ _ _).mpr ⟨_, _, failsAt_append failsAt⟩
  have length := length_of_follow_empty reached
  rw [Track.length_empty, Nat.zero_add] at whole ⊢
  rw [Track.append_empty, length] at whole
  refine ⟨step, q, inner, atStep, rfl, ?_⟩
  rw [follow_append, reached]
  exact whole

/-- A second segment that succeeds goes behind the first one. -/
theorem trajectory_append_of_ok
    {rest : Trajectory α}
    (accepted : Corrector.check n problem.settings = .ok ⟨⟩)
    (reached : problem.follow Track.empty points = .ok first)
    (succeeded : ((problem.restarted first).trajectory second).outcome = .ok rest) :
    rest.dimension = first.trajectory.dimension ∧
      (problem.trajectory (points ++ second)).outcome =
        .ok ⟨List.zipWith (· ++ ·) first.trajectory.components rest.components,
          first.trajectory.unconvergedSteps ++
            rest.unconvergedSteps.map (points.length + ·)⟩ := by
  obtain ⟨track, followed, rfl⟩ :=
    (outcome_trajectory_eq_ok_iff (problem.restarted first) accepted).mp succeeded
  constructor
  · rw [Track.dimension_trajectory, Track.dimension_trajectory]
  · rw [← length_of_follow_empty reached, ← Track.trajectory_append]
    apply (outcome_trajectory_eq_ok_iff _ accepted).mpr
    exact ⟨first.append track, follow_whole_of_ok reached followed, rfl⟩

/-- A second segment that fails makes the whole path fail. -/
theorem trajectory_append_of_error
    {failure : Failure α}
    (accepted : Corrector.check n problem.settings = .ok ⟨⟩)
    (reached : problem.follow Track.empty points = .ok first)
    (failed : ((problem.restarted first).trajectory second).outcome = .error failure) :
    ∃ step q, ∃ inner : Failure α, second[step]? = some q ∧
      failure = inner.within (.pathStep step q) ∧
      (problem.trajectory (points ++ second)).outcome =
        .error (inner.within (.pathStep (points.length + step) q)) := by
  have followed :=
    (outcome_trajectory_eq_error_iff (problem.restarted first) accepted).mp failed
  obtain ⟨step, q, inner, atStep, named, whole⟩ := follow_whole_of_error reached followed
  refine ⟨step, q, inner, atStep, named, ?_⟩
  exact (outcome_trajectory_eq_error_iff _ accepted).mpr whole

/-- The trajectory of the first segment says where the second one starts. -/
theorem finish_of_follow
    (nonempty : n ≠ 0)
    (reached : problem.follow Track.empty points = .ok first) :
    (points = [] → first.trajectory.finish = .ok none ∧
      first.latest problem.seed = problem.seed) ∧
    (points ≠ [] → first.trajectory.finish =
      .ok (some (first.latest problem.seed).toList)) := by
  have length := length_of_follow_empty reached
  rw [first.finish_trajectory nonempty]
  constructor
  · rintro rfl
    cases reached
    exact ⟨rfl, rfl⟩
  · intro stepped
    have counted : first.length ≠ 0 := by
      rw [length]
      exact List.length_eq_zero_iff.not.mpr stepped
    rw [Track.finish?_eq_some_latest counted problem.seed]

/-- A path follows from its two segments. If the first one fails, the whole path fails
in the same way. Otherwise its last roots, or the seed if it has no points, are a
place to start the second one from: the whole path then succeeds exactly if the second
segment does, with the one trajectory behind the other, and fails where the second
segment fails, for the same cause. -/
theorem trajectory_of_segments
    (system : RootSystem α)
    (settings : Settings α)
    (seed : List (Complex α))
    (nonempty : seed ≠ [])
    (valid : settings.check = .ok ⟨⟩)
    (first second : List (Complex α)) :
    (∀ failure,
      ((ofList system settings seed).trajectory first).outcome = .error failure →
      ((ofList system settings seed).trajectory (first ++ second)).outcome =
        .error failure) ∧
    ∀ front,
      ((ofList system settings seed).trajectory first).outcome = .ok front →
      ∃ restart,
        (first = [] → front.finish = .ok none ∧ restart = seed) ∧
        (first ≠ [] → front.finish = .ok (some restart)) ∧
        ((∃ whole, ((ofList system settings seed).trajectory (first ++ second)).outcome =
            .ok whole) ↔
          ∃ rest, ((ofList system settings restart).trajectory second).outcome =
            .ok rest) ∧
        (∀ rest,
          ((ofList system settings restart).trajectory second).outcome = .ok rest →
            rest.dimension = front.dimension ∧
              ((ofList system settings seed).trajectory (first ++ second)).outcome =
                .ok ⟨List.zipWith (· ++ ·) front.components rest.components,
                  front.unconvergedSteps ++
                    rest.unconvergedSteps.map (first.length + ·)⟩) ∧
        ∀ failure,
          ((ofList system settings restart).trajectory second).outcome =
              .error failure →
            ∃ step q, ∃ inner : Failure α, second[step]? = some q ∧
              failure = inner.within (.pathStep step q) ∧
              ((ofList system settings seed).trajectory (first ++ second)).outcome =
                .error (inner.within (.pathStep (first.length + step) q)) := by
  have occupied : seed.length ≠ 0 := List.length_eq_zero_iff.not.mpr nonempty
  have accepted : Corrector.check seed.length settings = .ok ⟨⟩ :=
    Corrector.check_eq_ok_iff.mpr ⟨occupied, valid⟩
  constructor
  · intro failure failed
    apply (outcome_trajectory_eq_error_iff _ accepted).mpr
    rw [follow_append, (outcome_trajectory_eq_error_iff _ accepted).mp failed]
    rfl
  · intro front succeeded
    obtain ⟨track, reached, rfl⟩ := (outcome_trajectory_eq_ok_iff _ accepted).mp succeeded
    obtain ⟨fromSeed, fromEnd⟩ := finish_of_follow occupied reached
    have sameRestart := trajectory_ofList_toList system settings
      (track.latest (rootVector seed)) second
    refine ⟨(track.latest (rootVector seed)).toList, ?_, fromEnd, ?_⟩
    · intro vacant
      obtain ⟨finish, latest⟩ := fromSeed vacant
      exact ⟨finish, congrArg Vector.toList latest⟩
    rw [sameRestart]
    refine ⟨⟨?_, ?_⟩, ?_, ?_⟩
    · rintro ⟨whole, succeeded⟩
      cases ended : ((Problem.mk system settings
          (track.latest (rootVector seed))).trajectory second).outcome with
      | ok rest => exact ⟨rest, rfl⟩
      | error failure =>
          obtain ⟨_, _, _, _, _, failed⟩ :=
            trajectory_append_of_error accepted reached ended
          cases failed.symm.trans succeeded
    · rintro ⟨rest, succeeded⟩
      exact ⟨_, (trajectory_append_of_ok accepted reached succeeded).2⟩
    · intro rest succeeded
      exact trajectory_append_of_ok accepted reached succeeded
    · intro failure failed
      exact trajectory_append_of_error accepted reached failed

/-- From one, a single iteration arrives at five halves for the root of four. From there,
one more for the root of zero arrives at five quarters, and neither has converged. -/
theorem segments_of_singleIteration :
    [(⟨1, 0⟩ : Complex Float)] ≠ [] ∧ singleIteration.settings.check = .ok ⟨⟩ ∧
      ((ofList RootSystem.squares singleIteration.settings [⟨1, 0⟩]).trajectory
          ([⟨4, 0⟩] ++ [⟨0, 0⟩])).outcome =
        .ok ⟨[[⟨2.5, 0⟩, ⟨1.25, 0⟩]], [0, 1]⟩ := by
  have valid : singleIteration.settings.check = .ok ⟨⟩ := by
    decide +kernel
  have front : ((ofList RootSystem.squares singleIteration.settings [⟨1, 0⟩]).trajectory
      [⟨4, 0⟩]).outcome = .ok ⟨[[⟨2.5, 0⟩]], [0]⟩ := by
    decide +kernel
  have rest : ((ofList RootSystem.squares singleIteration.settings [⟨2.5, 0⟩]).trajectory
      [⟨0, 0⟩]).outcome = .ok ⟨[[⟨1.25, 0⟩]], [0]⟩ := by
    decide +kernel
  obtain ⟨_, segments⟩ := trajectory_of_segments RootSystem.squares
    singleIteration.settings [⟨1, 0⟩] (List.cons_ne_nil _ _) valid [⟨4, 0⟩] [⟨0, 0⟩]
  obtain ⟨restart, _, atEnd, _, succeeds, _⟩ := segments ⟨[[⟨2.5, 0⟩]], [0]⟩ front
  have finish : (Trajectory.mk [[(⟨2.5, 0⟩ : Complex Float)]] [0]).finish =
      .ok (some [⟨2.5, 0⟩]) := by
    decide +kernel
  have sameRestart : restart = [⟨2.5, 0⟩] :=
    Option.some.inj (Except.ok.inj ((atEnd (List.cons_ne_nil _ _)).symm.trans finish))
  subst sameRestart
  exact ⟨List.cons_ne_nil _ _, valid, (succeeds ⟨[[⟨1.25, 0⟩]], [0]⟩ rest).2⟩

end Problem
end RootTrace
