import RootTrace.Proofs.Path.Batches
import RootTrace.Proofs.Path.Segments

/-!
# Batches behind one another

Two batches, one behind the other, do what a single batch of both sizes does, unless the
first one fails; then so does the single batch, at the same point. What a batch does to a
runner is to put further points behind those that it holds, and nothing else. A failure
therefore stays: the runner stands in front of the point that failed, every further batch
tries this point first, and it fails there as before.
-/

namespace RootTrace

universe u v

/-- A run goes on in one way only from what it comes to. -/
theorem Run.bind_congr
    {α : Type u} {β γ : Type v}
    {run : Run α β}
    {next next' : β → Run α γ}
    (same : ∀ value, run.outcome = .ok value → next value = next' value) :
    run >>= next = run >>= next' := by
  cases comesTo : run.outcome with
  | error failure => rw [bind_of_error comesTo, bind_of_error comesTo]
  | ok value => rw [bind_of_ok comesTo, bind_of_ok comesTo, same value comesTo]

variable {α : Type u} {n : Nat}

namespace Runner

/-- The points that a runner has not followed yet. -/
def remaining (runner : Runner α) : List (Complex α) :=
  runner.path.drop runner.track.length

/-- The same runner with further points behind those that it holds. -/
def extend (runner : Runner α) (added : Track α runner.dimension) : Runner α :=
  { runner with track := runner.track.append added }

theorem getElem?_remaining (runner : Runner α) (step : Nat) :
    runner.remaining[step]? = runner.path[runner.track.length + step]? :=
  List.getElem?_drop

end Runner

variable [Zero α] [One α] [Add α] [Sub α] [Mul α] [Neg α] [Div α] [BEq α]
  [LT α] [DecidableLT α] [Magnitude α]

namespace Problem

variable {problem : Problem α n} {first track next reached : Track α n} {q : Complex α}
  {points : List (Complex α)}

/-! ## Points behind a track -/

theorem exists_append_of_point
    (succeeded : problem.point (first.append track) q = .ok reached) :
    ∃ next, reached = first.append next ∧
      (problem.restarted first).point track q = .ok next := by
  obtain ⟨correction, corrected, rfl⟩ := (point_eq_ok_iff _ _ _ _).mp succeeded
  rw [Track.latest_append] at corrected
  exact ⟨track.record correction, Track.record_append _ _ _,
    (point_eq_ok_iff _ _ _ _).mpr ⟨correction, corrected, rfl⟩⟩

/-- Following on from a track puts something behind it, and leaves the track as it is. -/
theorem exists_append_of_follow
    (followed : problem.follow (first.append track) points = .ok reached) :
    ∃ next, reached = first.append next ∧
      (problem.restarted first).follow track points = .ok next := by
  induction points generalizing track with
  | nil =>
      cases followed
      exact ⟨track, rfl, rfl⟩
  | cons q points inductionHypothesis =>
      obtain ⟨between, firstPoint, rest⟩ := follow_cons_eq_ok_iff.mp followed
      obtain ⟨middle, rfl, called⟩ := exists_append_of_point firstPoint
      obtain ⟨next, rfl, further⟩ := inductionHypothesis rest
      exact ⟨next, rfl, follow_cons_eq_ok_iff.mpr ⟨middle, called, further⟩⟩

/-- Only points that were followed can have been left without convergence. -/
theorem lt_length_of_mem_unconverged
    (followed : problem.follow Track.empty points = .ok reached)
    {step : Nat}
    (member : step ∈ reached.unconverged) :
    step < reached.length := by
  obtain ⟨roots, chain⟩ := chain_of_follow followed
  have holds := chain.holds followed
  obtain ⟨q, _, atStep, _⟩ := (holds.unconverged step).mp member
  rw [holds.length]
  exact (List.getElem?_eq_some_iff.mp atStep).1

/-! ## The loop that stops -/

/-- Go on over further points, unless a failure has ended the ones before. -/
def advanceBehind (problem : Problem α n) (points : List (Complex α)) :
    Track α n × Option (Failure α) → Run α (Track α n × Option (Failure α))
  | (track, none) => problem.advanceWhile points track
  | (track, some failure) => pure (track, some failure)

/-- A batch in two parts goes on behind the first part only if that has not failed. -/
theorem advanceWhile_append
    (problem : Problem α n)
    (front back : List (Complex α))
    (track : Track α n) :
    problem.advanceWhile (front ++ back) track =
      problem.advanceWhile front track >>= problem.advanceBehind back := by
  induction front generalizing track with
  | nil =>
      rw [List.nil_append, advanceWhile, pure_bind]
      rfl
  | cons q front inductionHypothesis =>
      rw [List.cons_append, advanceWhile, advanceWhile, bind_assoc]
      apply Run.bind_congr
      intro called _
      cases called with
      | error failure => rfl
      | ok next => exact inductionHypothesis next

/-- The loop stops behind all points, or in front of the first that fails. -/
theorem outcome_advanceWhile_cases
    (problem : Problem α n)
    (points : List (Complex α))
    (track : Track α n) :
    (∃ reached, problem.follow track points = .ok reached ∧
      (problem.advanceWhile points track).outcome = .ok (reached, none)) ∨
    ∃ step before failure, problem.FailsAt track points step before failure ∧
      (problem.advanceWhile points track).outcome = .ok (before, some failure) := by
  cases followed : problem.follow track points with
  | ok reached => exact .inl ⟨reached, rfl, outcome_advanceWhile_of_ok followed⟩
  | error failure =>
      obtain ⟨step, before, failsAt⟩ := (follow_eq_error_iff _ _ _ _).mp followed
      have inside := failsAt.inside
      have split : points = points.take step ++ points[step] :: points.drop (step + 1) := by
        rw [← List.drop_eq_getElem_cons inside, List.take_append_drop]
      refine .inr ⟨step, before, failure, failsAt, ?_⟩
      rw [split]
      exact outcome_advanceWhile_of_failure failsAt.reached failsAt.fails

end Problem

namespace Runner

/-- Go on with a batch, unless the batch before has failed. -/
def resume (batch : Nat) :
    Runner α × Option (Failure α) → Run α (Runner α × Option (Failure α))
  | (runner, none) => runner.runSteps batch
  | (runner, some failure) => pure (runner, some failure)

theorem runSteps_eq (runner : Runner α) (batch : Nat) :
    runner.runSteps batch =
      runner.problem.advanceWhile (runner.remaining.take batch) runner.track >>= fun result =>
        pure ({ runner with track := result.1 }, result.2) := rfl

variable {runner : Runner α} {batch : Nat} {failure : Failure α} {q : Complex α}

/-! ## Two batches -/

/-- Behind a batch that does not fail stands what it has not been asked for. -/
theorem remaining_of_advanceWhile
    {reached : Track α runner.dimension}
    (advanced :
      (runner.problem.advanceWhile (runner.remaining.take batch) runner.track).outcome =
        .ok (reached, none)) :
    { runner with track := reached }.remaining = runner.remaining.drop batch := by
  rcases runner.problem.outcome_advanceWhile_cases (runner.remaining.take batch)
    runner.track with ⟨whole, followed, outcome⟩ | ⟨_, _, _, _, outcome⟩
  · cases outcome.symm.trans advanced
    have length := Problem.length_of_follow followed
    have split := @List.drop_left _ (runner.remaining.take batch)
      (runner.remaining.drop batch)
    rw [List.take_append_drop] at split
    rw [← split, remaining, remaining, List.drop_drop, length]
    rfl
  · cases outcome.symm.trans advanced

/-- One batch is its two parts, one behind the other. -/
theorem runSteps_add (runner : Runner α) (first second : Nat) :
    runner.runSteps (first + second) = runner.runSteps first >>= resume second := by
  rw [runSteps_eq, runSteps_eq, List.take_add, Problem.advanceWhile_append, bind_assoc,
    bind_assoc]
  apply Run.bind_congr
  rintro ⟨reached, ending⟩ advanced
  rw [pure_bind]
  cases ending with
  | some failure => rfl
  | none =>
      rw [resume, runSteps_eq, remaining_of_advanceWhile advanced]
      rfl

/-! ## One batch -/

/-- What a batch puts behind the points that a runner holds, and the failure that ends it. -/
structure Extends (runner : Runner α) (batch : Nat) (added : Track α runner.dimension)
    (answer : Option (Failure α)) : Prop where
  followed : (runner.problem.restarted runner.track).follow Track.empty
    (runner.remaining.take added.length) = .ok added
  counted : ∀ step ∈ added.unconverged, step < added.length
  completed : answer = none → added.length = min batch runner.remaining.length
  stopped : ∀ failure, answer = some failure →
    added.length < min batch runner.remaining.length ∧
      ∃ q, runner.remaining[added.length]? = some q ∧
        runner.problem.point (runner.track.append added) q = .error failure

/-- A batch puts points behind those that a runner holds, and nothing else. The batch is read as
going on from an empty track, so that what is added is known to stand behind. -/
theorem exists_extends (runner : Runner α) (batch : Nat) :
    ∃ added answer, (runner.runSteps batch).outcome = .ok (runner.extend added, answer) ∧
      runner.Extends batch added answer := by
  have start : runner.track.append Track.empty = runner.track := Track.append_empty _
  have ran : ∀ {reached ending},
      (runner.problem.advanceWhile (runner.remaining.take batch) runner.track).outcome =
        .ok (reached, ending) →
      (runner.runSteps batch).outcome = .ok ({ runner with track := reached }, ending) := by
    intro reached ending advanced
    rw [runSteps_eq, Run.outcome_bind, advanced]
    rfl
  rcases runner.problem.outcome_advanceWhile_cases (runner.remaining.take batch)
    runner.track with ⟨reached, followed, outcome⟩ | ⟨step, before, failure, failsAt, outcome⟩
  · rw [← start] at followed
    obtain ⟨added, rfl, further⟩ := Problem.exists_append_of_follow followed
    have length : added.length = min batch runner.remaining.length := by
      rw [Problem.length_of_follow_empty further, List.length_take]
    refine ⟨added, none, ran outcome, ?_, ?_, fun _ => length, ?_⟩
    · rwa [length, ← List.take_eq_take_min]
    · intro step member
      exact Problem.lt_length_of_mem_unconverged further member
    · intro failure impossible
      cases impossible
  · have inside := failsAt.inside
    have reached := failsAt.reached
    rw [← start] at reached
    obtain ⟨added, rfl, further⟩ := Problem.exists_append_of_follow reached
    have length : added.length = step := by
      rw [Problem.length_of_follow_empty further, List.length_take_of_le inside.le]
    rw [List.length_take] at inside
    rw [List.take_take, Nat.min_eq_left (by omega), ← length] at further
    refine ⟨added, some failure, ran outcome, further, ?_, ?_, ?_⟩
    · intro step member
      exact Problem.lt_length_of_mem_unconverged further member
    · intro impossible
      cases impossible
    · intro other same
      cases same
      rw [length]
      refine ⟨inside, _, ?_, failsAt.fails⟩
      rw [List.getElem_take]
      exact List.getElem?_eq_getElem _

/-! ## Batches behind a failure -/

/-- In front of a point that fails, a batch of any points fails there and changes nothing. -/
theorem runSteps_of_point_error
    (next : runner.path[runner.track.length]? = some q)
    (fails : runner.problem.point runner.track q = .error failure)
    (asked : batch ≠ 0) :
    (runner.runSteps batch).outcome = .ok (runner, some failure) := by
  obtain ⟨more, rfl⟩ := Nat.exists_eq_succ_of_ne_zero asked
  obtain ⟨inside, rfl⟩ := List.getElem?_eq_some_iff.mp next
  rw [runSteps_eq, remaining, List.drop_eq_getElem_cons inside, List.take_succ_cons,
    Run.outcome_bind, Problem.outcome_advanceWhile_cons, fails]
  rfl

theorem runSteps_zero (runner : Runner α) : (runner.runSteps 0).outcome = .ok (runner, none) :=
  rfl

/-- No batches lead past a point that fails. -/
theorem runBatches_of_point_error
    (next : runner.path[runner.track.length]? = some q)
    (fails : runner.problem.point runner.track q = .error failure)
    (batches : List Nat) :
    (runner.runBatches batches).outcome = .ok runner := by
  induction batches with
  | nil => rfl
  | cons batch batches inductionHypothesis =>
      have stays : (Prod.fst <$> runner.runSteps batch).outcome = .ok runner := by
        rw [Run.outcome_map]
        by_cases asked : batch = 0
        · rw [asked, runSteps_zero]
          rfl
        · rw [runSteps_of_point_error next fails asked]
          rfl
      rw [runBatches, List.foldlM_cons, Run.outcome_bind, stays]
      exact inductionHypothesis

/-- One batch is its two parts, one behind the other, in what it leaves behind, in what it
answers and in what it records; if the first part fails, the second plays no part. A batch
puts behind the points that a runner holds what further points come to, as many as it asks
for and are left, or those in front of the first that fails, and changes nothing else. After
a failure nothing changes any more, whatever batches follow, and every one of them that asks
for a point fails as before. -/
theorem batches_compose_and_failures_stay (runner : Runner α) :
    (∀ first second,
      runner.runSteps (first + second) = runner.runSteps first >>= resume second) ∧
    ∀ batch, ∃ added answer,
      (runner.runSteps batch).outcome = .ok (runner.extend added, answer) ∧
      runner.Extends batch added answer ∧
      ∀ failure, answer = some failure →
        (∃ q, ∃ inner : Failure α,
          runner.path[(runner.extend added).progress.currentStep]? = some q ∧
            failure =
              inner.within (.pathStep (runner.extend added).progress.currentStep q)) ∧
        ∀ later : List Nat,
          ((runner.extend added).runBatches later).outcome = .ok (runner.extend added) ∧
          ∀ again, again ≠ 0 →
            ((runner.extend added).runSteps again).outcome =
              .ok (runner.extend added, some failure) := by
  refine ⟨runSteps_add runner, ?_⟩
  intro batch
  obtain ⟨added, answer, ran, extended⟩ := exists_extends runner batch
  refine ⟨added, answer, ran, extended, ?_⟩
  intro failure failed
  obtain ⟨_, q, atNext, fails⟩ := extended.stopped failure failed
  have next : (runner.extend added).path[(runner.extend added).track.length]? = some q := by
    rw [getElem?_remaining, ← Track.length_append] at atNext
    exact atNext
  obtain ⟨inner, _, named⟩ := (Problem.point_eq_error_iff _ _ _ _).mp fails
  refine ⟨⟨q, inner, next, named⟩, ?_⟩
  intro later
  refine ⟨runBatches_of_point_error next fails later, ?_⟩
  intro again asked
  exact runSteps_of_point_error next fails asked

end Runner
end RootTrace
