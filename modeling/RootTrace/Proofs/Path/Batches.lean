import RootTrace.Proofs.Path.Follow

/-!
# Batches refine whole paths

A runner holds what the points it has followed come to, whatever the sizes of
its batches were and whether or not some of them failed. So it can neither leave
out a point nor get past one that fails, and its result is that of the path that
ends where it stands.
-/

namespace RootTrace

universe u

variable {α : Type u} {n : Nat}

namespace Problem

variable [Zero α] [One α] [Add α] [Sub α] [Mul α] [Neg α] [Div α] [BEq α]
  [LT α] [DecidableLT α] [Magnitude α]

/-! ## The loop that stops -/

/-- A batch tries its first point. If that fails, the batch ends there and keeps what it has. -/
theorem outcome_advanceWhile_cons
    (problem : Problem α n)
    (track : Track α n)
    (q : Complex α)
    (points : List (Complex α)) :
    (problem.advanceWhile (q :: points) track).outcome =
      match problem.point track q with
      | .error failure => .ok (track, some failure)
      | .ok next => (problem.advanceWhile points next).outcome := by
  rw [advanceWhile, Run.outcome_bind, Run.outcome_attempt, point]
  cases (problem.advance track q).outcome with
  | error failure => rfl
  | ok next => rfl

/-- Points that can be followed are passed, and the batch goes on behind them. -/
theorem outcome_advanceWhile_append
    {problem : Problem α n}
    {track reached : Track α n}
    {first : List (Complex α)}
    (succeeded : problem.follow track first = .ok reached)
    (second : List (Complex α)) :
    (problem.advanceWhile (first ++ second) track).outcome =
      (problem.advanceWhile second reached).outcome := by
  induction first generalizing track with
  | nil =>
      cases succeeded
      rfl
  | cons q first inductionHypothesis =>
      obtain ⟨next, firstPoint, rest⟩ := follow_cons_eq_ok_iff.mp succeeded
      rw [List.cons_append, outcome_advanceWhile_cons, firstPoint]
      exact inductionHypothesis rest

theorem outcome_advanceWhile_of_ok
    {problem : Problem α n}
    {track reached : Track α n}
    {points : List (Complex α)}
    (succeeded : problem.follow track points = .ok reached) :
    (problem.advanceWhile points track).outcome = .ok (reached, none) := by
  have whole := outcome_advanceWhile_append succeeded []
  rw [List.append_nil] at whole
  exact whole

/-- A batch ends at the first point that fails, with the points before it and the failure. -/
theorem outcome_advanceWhile_of_failure
    {problem : Problem α n}
    {track reached : Track α n}
    {before after : List (Complex α)}
    {q : Complex α}
    {failure : Failure α}
    (succeeded : problem.follow track before = .ok reached)
    (fails : problem.point reached q = .error failure) :
    (problem.advanceWhile (before ++ q :: after) track).outcome =
      .ok (reached, some failure) := by
  rw [outcome_advanceWhile_append succeeded, outcome_advanceWhile_cons, fails]

end Problem

namespace Runner

/-- A runner that has followed a track along a path. -/
def following (problem : Problem α n) (path : List (Complex α)) (track : Track α n) :
    Runner α :=
  ⟨n, problem, path, track⟩

/-- A runner is made exactly if the task is accepted, and has not followed any point yet. -/
theorem create_eq_ok_iff
    [Zero α] [One α] [LT α] [DecidableLT α]
    (problem : Problem α n)
    (path : List (Complex α))
    (runner : Runner α) :
    create problem path = .ok runner ↔
      Corrector.check n problem.settings = .ok ⟨⟩ ∧
        runner = following problem path Track.empty := by
  unfold create
  cases Corrector.check n problem.settings with
  | error fault => simp [Except.map]
  | ok accepted => simp [Except.map, following, eq_comm]

theorem create_eq_error_iff
    [Zero α] [One α] [LT α] [DecidableLT α]
    (problem : Problem α n)
    (path : List (Complex α))
    (fault : Fault α) :
    create problem path = .error fault ↔
      Corrector.check n problem.settings = .error fault := by
  unfold create
  cases Corrector.check n problem.settings with
  | error other => simp [Except.map]
  | ok accepted => simp [Except.map]

variable [Zero α] [One α] [Add α] [Sub α] [Mul α] [Neg α] [Div α] [BEq α]
  [LT α] [DecidableLT α] [Magnitude α]

/-- The runner after batches of the given sizes, whether or not some failed. -/
def runBatches (runner : Runner α) (batches : List Nat) : Run α (Runner α) :=
  batches.foldlM (fun runner batch => Prod.fst <$> runner.runSteps batch) runner

/-- A batch advances along the next points of the path, as many of them as it asks for. -/
theorem outcome_runSteps
    (problem : Problem α n)
    (path : List (Complex α))
    (track : Track α n)
    (batch : Nat) :
    ((following problem path track).runSteps batch).outcome =
      (problem.advanceWhile ((path.drop track.length).take batch) track).outcome.map
        fun result => (following problem path result.1, result.2) := by
  unfold runSteps
  rw [Run.outcome_bind]
  rfl

/-! ## One batch -/

/-- A batch in front of every failing point ends where it may. -/
theorem outcome_runSteps_of_ok
    {problem : Problem α n}
    {path : List (Complex α)}
    {track next : Track α n}
    {batch : Nat}
    (reached : problem.follow Track.empty (path.take track.length) = .ok track)
    (succeeded :
      problem.follow Track.empty (path.take (track.length + batch)) = .ok next) :
    ((following problem path track).runSteps batch).outcome =
      .ok (following problem path next, none) := by
  have followed :
      problem.follow track ((path.take (track.length + batch)).drop track.length) =
        .ok next :=
    (Problem.follow_drop_take reached (Nat.le_add_right _ _)).trans succeeded
  rw [outcome_runSteps, take_drop_eq_drop_take,
    Problem.outcome_advanceWhile_of_ok followed]
  rfl

/-- A batch that tries the first failing point ends in front of it. -/
theorem outcome_runSteps_of_failsAt
    {problem : Problem α n}
    {path : List (Complex α)}
    {track before : Track α n}
    {step batch : Nat}
    {failure : Failure α}
    (reached : problem.follow Track.empty (path.take track.length) = .ok track)
    (failsAt : problem.FailsAt Track.empty path step before failure)
    (tried : step < track.length + batch) :
    ((following problem path track).runSteps batch).outcome =
      .ok (following problem path before, some failure) := by
  have started : track.length ≤ step := failsAt.le_of_follow_take reached
  have followed :
      problem.follow track ((path.take step).drop track.length) = .ok before :=
    (Problem.follow_drop_take reached started).trans failsAt.reached
  rw [outcome_runSteps, take_drop_eq_drop_take,
    drop_take_of_inside failsAt.inside started tried,
    Problem.outcome_advanceWhile_of_failure followed failsAt.fails]
  rfl

theorem follow_take_length
    {problem : Problem α n}
    {path : List (Complex α)}
    {track : Track α n}
    {count : Nat}
    (reached : problem.follow Track.empty (path.take count) = .ok track) :
    problem.follow Track.empty (path.take track.length) = .ok track := by
  have length : track.length = min count path.length := by
    rw [Problem.length_of_follow reached, List.length_take, Track.length_empty,
      Nat.zero_add]
  rwa [length, ← List.take_eq_take_min]

/-- What one batch preserves: the runner stands at a point of the path, with
what the points in front of it come to. -/
theorem runSteps_preserves_follow
    {problem : Problem α n}
    {path : List (Complex α)}
    {track : Track α n}
    (reached : problem.follow Track.empty (path.take track.length) = .ok track)
    (batch : Nat) :
    ∃ next answer,
      ((following problem path track).runSteps batch).outcome =
        .ok (following problem path next, answer) ∧
        problem.follow Track.empty (path.take next.length) = .ok next := by
  cases whole : problem.follow Track.empty (path.take (track.length + batch)) with
  | ok next =>
      exact ⟨next, none, outcome_runSteps_of_ok reached whole, follow_take_length whole⟩
  | error failure =>
      obtain ⟨step, before, failsInFront⟩ :=
        (problem.follow_eq_error_iff Track.empty _ failure).mp whole
      obtain ⟨tried, failsAt⟩ := Problem.failsAt_take_iff.mp failsInFront
      exact ⟨before, some failure, outcome_runSteps_of_failsAt reached failsAt tried,
        follow_take_length failsAt.reached⟩

/-- What any batches preserve. -/
theorem runBatches_preserves_follow
    {problem : Problem α n}
    {path : List (Complex α)}
    {track : Track α n}
    (reached : problem.follow Track.empty (path.take track.length) = .ok track)
    (batches : List Nat) :
    ∃ last,
      ((following problem path track).runBatches batches).outcome =
        .ok (following problem path last) ∧
        problem.follow Track.empty (path.take last.length) = .ok last := by
  induction batches generalizing track with
  | nil => exact ⟨track, rfl, reached⟩
  | cons batch batches inductionHypothesis =>
      obtain ⟨next, answer, ran, nextReached⟩ := runSteps_preserves_follow reached batch
      obtain ⟨last, rest, lastReached⟩ := inductionHypothesis nextReached
      refine ⟨last, ?_, lastReached⟩
      unfold runBatches
      rw [List.foldlM_cons, Run.outcome_bind, Run.outcome_map, ran]
      exact rest

/-- On a path without a failing point no batch fails. -/
theorem runSteps_of_path_ok
    {problem : Problem α n}
    {path : List (Complex α)}
    {track whole : Track α n}
    (reached : problem.follow Track.empty (path.take track.length) = .ok track)
    (succeeded : problem.follow Track.empty path = .ok whole)
    (batch : Nat) :
    ∃ next, ((following problem path track).runSteps batch).outcome = .ok (next, none) := by
  cases inFront : problem.follow Track.empty (path.take (track.length + batch)) with
  | ok next => exact ⟨_, outcome_runSteps_of_ok reached inFront⟩
  | error failure =>
      obtain ⟨step, before, failsInFront⟩ :=
        (problem.follow_eq_error_iff Track.empty _ failure).mp inFront
      have failed : problem.follow Track.empty path = .error failure :=
        (problem.follow_eq_error_iff Track.empty path failure).mpr
          ⟨step, before, (Problem.failsAt_take_iff.mp failsInFront).2⟩
      rw [succeeded] at failed
      cases failed

/-- The batches that fail are those that try the first failing point. -/
theorem runSteps_of_path_failsAt
    {problem : Problem α n}
    {path : List (Complex α)}
    {track before : Track α n}
    {step : Nat}
    {failure : Failure α}
    (reached : problem.follow Track.empty (path.take track.length) = .ok track)
    (failsAt : problem.FailsAt Track.empty path step before failure)
    (batch : Nat) :
    ∃ next,
      ((following problem path track).runSteps batch).outcome =
        .ok (next, if step < track.length + batch then some failure else none) := by
  by_cases tried : step < track.length + batch
  · rw [if_pos tried]
    exact ⟨_, outcome_runSteps_of_failsAt reached failsAt tried⟩
  · rw [if_neg tried]
    cases inFront : problem.follow Track.empty (path.take (track.length + batch)) with
    | ok next => exact ⟨_, outcome_runSteps_of_ok reached inFront⟩
    | error other =>
        obtain ⟨earlier, _, failsInFront⟩ :=
          (problem.follow_eq_error_iff Track.empty _ other).mp inFront
        obtain ⟨earlierTried, failsEarlier⟩ := Problem.failsAt_take_iff.mp failsInFront
        have later : step ≤ earlier := failsEarlier.le_of_follow_take failsAt.reached
        omega

/-- A runner refines the run along the whole path. It is refused exactly when that
run is refused before its first point, for the same fault. Otherwise, whatever
batches it has carried out, it holds the result of the path up to where it
stands, and it is done exactly at the end of the path. If the whole path
succeeds, no batch fails. If it fails, its failure names a point that the runner
never gets past, every batch that tries this point fails in the same way, and
no other batch fails. -/
theorem batches_refine_path
    (problem : Problem α n)
    (path : List (Complex α)) :
    (∀ fault,
      (create problem path = .error fault ↔
          Corrector.check n problem.settings = .error fault) ∧
        (create problem path = .error fault ↔
          (problem.trace path).outcome = .error (.ofFault fault))) ∧
      ∀ runner, create problem path = .ok runner → ∀ batches : List Nat,
        ∃ reached : Runner α,
          (runner.runBatches batches).outcome = .ok reached ∧
            (∃ track,
              (problem.trace (path.take reached.progress.currentStep)).outcome =
                  .ok track ∧
                reached.result = track.trajectory) ∧
            (reached.progress.done = true ↔
              reached.progress.currentStep = path.length) ∧
            (∀ track, (problem.trace path).outcome = .ok track →
              ∀ batch, ∃ next, (reached.runSteps batch).outcome = .ok (next, none)) ∧
            ∀ failure, (problem.trace path).outcome = .error failure →
              ∃ step q, ∃ inner : Failure α,
                path[step]? = some q ∧
                  failure = inner.within (.pathStep step q) ∧
                  reached.progress.currentStep ≤ step ∧
                  ∀ batch, ∃ next,
                    (reached.runSteps batch).outcome =
                      .ok (next,
                        if step < reached.progress.currentStep + batch then
                          some failure
                        else none) := by
  constructor
  · intro fault
    refine ⟨create_eq_error_iff problem path fault, ?_⟩
    rw [create_eq_error_iff]
    exact (problem.outcome_trace_eq_fault_iff path fault).symm
  · intro runner created batches
    obtain ⟨accepted, rfl⟩ := (create_eq_ok_iff problem path runner).mp created
    have traced := Problem.outcome_trace_of_check_ok accepted
    have atStart :
        problem.follow Track.empty (path.take (Track.empty : Track α n).length) =
          .ok Track.empty := rfl
    obtain ⟨last, ran, reached⟩ := runBatches_preserves_follow atStart batches
    have inside : last.length ≤ path.length := by
      have length := Problem.length_of_follow reached
      rw [List.length_take, Track.length_empty] at length
      omega
    refine ⟨following problem path last, ran, ⟨last, ?_, rfl⟩, ?_, ?_, ?_⟩
    · rw [traced]
      exact reached
    · change decide (path.length ≤ last.length) = true ↔ last.length = path.length
      rw [decide_eq_true_iff]
      omega
    · intro track succeeded batch
      rw [traced] at succeeded
      exact runSteps_of_path_ok reached succeeded batch
    · intro failure failed
      rw [traced] at failed
      obtain ⟨step, before, failsAt⟩ :=
        (problem.follow_eq_error_iff Track.empty path failure).mp failed
      obtain ⟨q, atStep, inner, named⟩ := failsAt.names_point
      rw [Track.length_empty, Nat.zero_add] at named
      exact ⟨step, q, inner, atStep, named, failsAt.le_of_follow_take reached,
        runSteps_of_path_failsAt reached failsAt⟩

end Runner
end RootTrace
