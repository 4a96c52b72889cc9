import RootTrace.Proofs.Host.Course
import RootTrace.Proofs.Host.Reading

/-!
# The life of a runner

A runner lives until its result is taken. Up to then it tells how many points have been
completed; this number never falls, and a batch that fails keeps the points in front of
the failing one. The result is handed out once, and is the trajectory over the completed
points. From then on the runner is done and refuses everything else.
-/

namespace RootTrace
namespace Host

variable {n : Nat}

/-- The number of completed points while a runner lives, told by the calls that were made
on it. -/
structure Ledger (path : List (Complex Float)) (completed : List Call → Nat) : Prop where
  start : completed [] = 0
  bounded : ∀ history, .result ∉ history → completed history ≤ path.length
  grows : ∀ history call, .result ∉ history ++ [call] →
    completed history ≤ completed (history ++ [call])
  onlyByRunning : ∀ history call, .result ∉ history ++ [call] →
    (∀ batch, call ≠ .runSteps batch) →
      completed (history ++ [call]) = completed history

/-- What a living runner answers behind a history of calls. -/
structure Living (problem : Problem Float n) (path : List (Complex Float))
    (completed : List Call → Nat) (reply : List Call → Call → Reply) : Prop where
  isDone : ∀ history, .result ∉ history →
    reply history .isDone = .value (.bool (decide (path.length ≤ completed history)))
  progress : ∀ history, .result ∉ history →
    reply history .progress = .value (.ofProgress (.of (completed history) path.length))
  /-- A batch completes all points that it asks for, or those in front of one that fails. -/
  runSteps : ∀ history batch, .result ∉ history →
    (completed (history ++ [.runSteps batch]) =
        min (completed history + batch) path.length ∧
      reply history (.runSteps batch) =
        .value (.ofProgress
          (.of (completed (history ++ [.runSteps batch])) path.length))) ∨
    ∃ failure q, ∃ inner : Failure Float,
      completed (history ++ [.runSteps batch]) <
          min (completed history + batch) path.length ∧
        path[completed (history ++ [.runSteps batch])]? = some q ∧
        failure = inner.within (.pathStep (completed (history ++ [.runSteps batch])) q) ∧
        (problem.trajectory path).outcome = .error failure ∧
        (reply history (.runSteps batch)).Throws
          ("Continuation step failed: " ++ failure.text)
  /-- The result is the trajectory over the completed points. -/
  result : ∀ history, .result ∉ history → ∃ trajectory,
    (problem.trajectory (path.take (completed history))).outcome = .ok trajectory ∧
      reply history .result = .value (.ofTrajectory trajectory)
  notSpent : ∀ history call, .result ∉ history → call.OnRunner →
    ¬ (reply history call).Throws "Runner not initialized"

/-- What a runner answers once its result has been taken. -/
structure Spent (reply : List Call → Call → Reply) : Prop where
  isDone : ∀ history, .result ∈ history → reply history .isDone = .value (.bool true)
  refuses : ∀ history call, .result ∈ history → call.OnRunner → call ≠ .isDone →
    (reply history call).Throws "Runner not initialized"

namespace Course

variable {course : Course} {problem : Problem Float n} {path : List (Complex Float)}

theorem step_failed_ne_not_initialized (text : String) :
    "Continuation step failed: " ++ text ≠ "Runner not initialized" := by
  intro same
  have letters := congrArg String.toList same
  rw [String.toList_append] at letters
  simp at letters

/-- A batch is answered with a value, or stopped by the failure of the path. -/
theorem reply_runSteps
    (describes : course.Describes problem path)
    (count batch : Nat) :
    (min (count + batch) course.limit = min (count + batch) path.length ∧
      course.reply (.standing count) (.runSteps batch) =
        .value (.ofProgress (.of (min (count + batch) course.limit) path.length))) ∨
    ∃ failure q, ∃ inner : Failure Float,
      min (count + batch) course.limit = course.limit ∧
        course.limit < min (count + batch) path.length ∧
        path[course.limit]? = some q ∧
        failure = inner.within (.pathStep course.limit q) ∧
        (problem.trajectory path).outcome = .error failure ∧
        course.reply (.standing count) (.runSteps batch) =
          .refused (.failed .runSteps failure) := by
  have ends := describes.ends
  by_cases tried : course.limit < count + batch
  · cases ending : course.ending with
    | none =>
        rw [ending] at ends
        left
        rw [reply, if_pos tried, ending, describes.total,
          (ends.trajectory_of_whole describes.accepted).1]
        exact ⟨rfl, rfl⟩
    | some failure =>
        rw [ending] at ends
        obtain ⟨failed, q, atLimit, inner, named⟩ :=
          ends.trajectory_of_blocked describes.accepted
        have inside : course.limit < path.length :=
          (List.getElem?_eq_some_iff.mp atLimit).1
        right
        refine ⟨failure, q, inner, Nat.min_eq_right tried.le, lt_min tried inside, atLimit,
          named, failed, ?_⟩
        rw [reply, if_pos tried, ending]
  · have bounded := ends.le_length
    left
    rw [reply, if_neg tried, describes.total]
    exact ⟨by omega, rfl⟩

/-- The number of points starts at zero, never decreases, never exceeds the path, and changes by
running only. -/
theorem Describes.ledger (describes : course.Describes problem path) :
    Ledger path fun history => (course.after history).count := by
  constructor
  case start => rfl
  case bounded =>
    intro history living
    obtain ⟨count, inside, stands⟩ := course.after_of_not_mem living
    rw [stands]
    exact inside.trans describes.ends.le_length
  case grows =>
    intro history call living
    rw [List.mem_append, not_or, List.mem_singleton] at living
    obtain ⟨count, inside, stands⟩ := course.after_of_not_mem living.1
    obtain ⟨later, led, grown, _⟩ := course.next_standing (Ne.symm living.2) inside
    rw [after_concat, stands, led]
    exact grown
  case onlyByRunning =>
    intro history call living notRunning
    rw [List.mem_append, not_or, List.mem_singleton] at living
    obtain ⟨count, _, stands⟩ := course.after_of_not_mem living.1
    rw [after_concat, stands]
    cases call with
    | runSteps batch => exact absurd rfl (notRunning batch)
    | result => exact absurd rfl living.2
    | _ => rfl

/-- A runner that is still there does not claim to be missing. -/
theorem Describes.not_throws
    (describes : course.Describes problem path)
    {call : Call}
    (onRunner : call.OnRunner)
    (count : Nat) :
    ¬ (course.reply (.standing count) call).Throws "Runner not initialized" := by
  cases onRunner with
  | isDone => exact not_throws_value _ _
  | progress => exact not_throws_value _ _
  | result => exact not_throws_value _ _
  | runSteps batch =>
      rcases reply_runSteps describes count batch with
        ⟨_, replied⟩ | ⟨failure, _, _, _, _, _, _, _, replied⟩
      · rw [replied]
        exact not_throws_value _ _
      · rw [replied]
        rintro ⟨refusal, same, told⟩
        obtain rfl := Reply.refused.inj same
        exact step_failed_ne_not_initialized _ told

/-- As long as its result has not been taken, a runner answers every call. -/
theorem Describes.living (describes : course.Describes problem path) :
    Living problem path (fun history => (course.after history).count)
      fun history call => course.reply (course.after history) call := by
  constructor
  case isDone =>
    intro history living
    obtain ⟨count, _, stands⟩ := course.after_of_not_mem living
    rw [stands, ← describes.total]
    rfl
  case progress =>
    intro history living
    obtain ⟨count, _, stands⟩ := course.after_of_not_mem living
    rw [stands, ← describes.total]
    rfl
  case runSteps =>
    intro history batch living
    obtain ⟨count, _, stands⟩ := course.after_of_not_mem living
    rw [after_concat, stands]
    rcases reply_runSteps describes count batch with
      ⟨place, replied⟩ | ⟨failure, q, inner, place, before, atLimit, named, failed, replied⟩
    · exact .inl ⟨place, replied⟩
    · right
      rw [next, Stage.count, place]
      refine ⟨failure, q, inner, before, atLimit, named, failed, ?_⟩
      rw [replied]
      exact throws_failed .runSteps failure
  case result =>
    intro history living
    obtain ⟨count, inside, stands⟩ := course.after_of_not_mem living
    rw [stands]
    exact ⟨course.trajectory count, describes.trajectory count inside, rfl⟩
  case notSpent =>
    intro history call living onRunner
    obtain ⟨count, _, stands⟩ := course.after_of_not_mem living
    rw [stands]
    exact describes.not_throws onRunner count

/-- Once its result has been taken, a runner is done and refuses every other call. -/
theorem spent (course : Course) :
    Spent fun history call => course.reply (course.after history) call := by
  constructor
  case isDone =>
    intro history taken
    rw [course.after_of_mem taken]
    rfl
  case refuses =>
    intro history call taken onRunner notIsDone
    rw [course.after_of_mem taken]
    refine ⟨.runnerSpent, ?_, rfl⟩
    cases onRunner with
    | isDone => exact absurd rfl notIsDone
    | runSteps batch => rfl
    | progress => rfl
    | result => rfl

end Course

/-- A runner that was put on a workbench lives until its result is taken. While it lives,
the number of completed points never falls, and every call is answered by it; the first
call that asks for the result is answered with the trajectory over these points. Then the
runner is done, and everything else is refused. -/
theorem runner_lives_until_result_taken
    {bench started : Workbench}
    {config settings seed path : Value}
    (created : (bench.call (.createRunner config settings seed path)).outcome =
      .ok (started, .value .undefined)) :
    ∃ runner, readRunner config settings seed path = .ok runner ∧
      ∃ (completed : List Call → Nat) (reply : List Call → Call → Reply),
        (∀ calls, (∀ call ∈ calls, call.OnRunner) →
          (started.calls calls).outcome =
            .ok (calls.mapIdx fun index call => reply (calls.take index) call)) ∧
        (∀ history, (∃ value, reply history .result = .value value) ↔ .result ∉ history) ∧
        Ledger runner.path completed ∧
        Living runner.problem runner.path completed reply ∧
        Spent reply := by
  obtain ⟨runner, read, rfl, _⟩ := outcome_createRunner_eq_value_iff.mp created
  obtain ⟨accepted, atStart⟩ := stands_at_start_of_readRunner read
  obtain ⟨course, describes⟩ :=
    Course.exists_describes runner.problem runner.path accepted
  have living := describes.living
  refine ⟨runner, read, _, _, ?_, ?_, describes.ledger, living, course.spent⟩
  · intro calls onRunner
    rw [← course.replies_eq_mapIdx]
    have shown : course.Shows runner.problem runner.path (.standing 0) (.active runner) := by
      rw [atStart]
      exact .standing .empty (Nat.zero_le _)
    exact shown.outcome_calls describes rfl onRunner
  · intro history
    constructor
    · rintro ⟨value, replied⟩ taken
      obtain ⟨refusal, refused, _⟩ := course.spent.refuses history .result taken .result (by simp)
      rw [replied] at refused
      cases refused
    · intro untaken
      obtain ⟨trajectory, _, replied⟩ := living.result history untaken
      exact ⟨_, replied⟩

/-- A runner along a path that is blocked at its second point hands its result out once,
whatever became of the batch before. -/
theorem blocked_runner_lives_until_result_taken :
    ∃ started,
      (Workbench.empty.call
          (.createRunner linearConfig .undefined fiveSeed blockedPath)).outcome =
        .ok (started, .value .undefined) ∧
      ∃ ran value again,
        (started.calls [.runSteps 5, .result, .result]).outcome =
            .ok [ran, .value value, again] ∧
          again.Throws "Runner not initialized" := by
  have readable :
      (readRunner linearConfig .undefined fiveSeed blockedPath).toBool = true := by
    decide +kernel
  cases read : readRunner linearConfig .undefined fiveSeed blockedPath with
  | error refusal =>
      rw [read] at readable
      cases readable
  | ok runner =>
      have created : (Workbench.empty.call
          (.createRunner linearConfig .undefined fiveSeed blockedPath)).outcome =
            .ok ({ Workbench.empty with runner := some (.active runner) },
              .value .undefined) :=
        outcome_createRunner_eq_value_iff.mpr ⟨runner, read, rfl, rfl⟩
      refine ⟨_, created, ?_⟩
      obtain ⟨_, _, completed, reply, answered, once, _, _, spent⟩ :=
        runner_lives_until_result_taken created
      obtain ⟨value, handedOut⟩ := (once [.runSteps 5]).mpr (by simp)
      have dialogue := answered [.runSteps 5, .result, .result] (by
        simp [Call.OnRunner.runSteps, Call.OnRunner.result])
      refine ⟨reply [] (.runSteps 5), value, reply [.runSteps 5, .result] .result, ?_, ?_⟩
      · rw [dialogue, ← handedOut]
        rfl
      · exact spent.refuses _ _ (by simp) .result (by simp)

end Host
end RootTrace
