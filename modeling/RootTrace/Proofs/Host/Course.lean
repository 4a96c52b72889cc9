import RootTrace.Host.Workbench
import RootTrace.Proofs.Path.Progress

/-!
# The course of a runner on a workbench

To a host application a runner is a small machine. It stands behind some points of its
path until its result is taken, and is spent from then on. Four numbers and texts decide
all that it answers: how many points there are, up to where they can be followed, which
failure stands there, and the trajectory over the points in front of each place. This
module shows that the calls on a workbench run through exactly that machine.
-/

namespace RootTrace
namespace Host

/-- The reply refuses a call with the given text. -/
def Reply.Throws (reply : Reply) (text : String) : Prop :=
  ∃ refusal, reply = .refused refusal ∧ refusal.text = text

theorem not_throws_value (value : Value) (text : String) :
    ¬ (Reply.value value).Throws text := by
  rintro ⟨refusal, impossible, _⟩
  cases impossible

theorem throws_failed (activity : Activity) (failure : Failure Float) :
    (Reply.refused (.failed activity failure)).Throws
      (activity.text ++ ": " ++ failure.text) :=
  ⟨_, rfl, rfl⟩

/-- The calls that are made on a runner. -/
inductive Call.OnRunner : Call → Prop where
  | isDone : OnRunner .isDone
  | runSteps (batch : Nat) : OnRunner (.runSteps batch)
  | progress : OnRunner .progress
  | result : OnRunner .result

/-- Where a runner stands. -/
inductive Stage where
  /-- Some points have been followed. -/
  | standing (count : Nat)
  /-- The result has been handed out. -/
  | spent

/-- The number of points that have been followed, as long as that is known. -/
def Stage.count : Stage → Nat
  | .standing count => count
  | .spent => 0

/-- All that decides what a runner answers. -/
structure Course where
  /-- Number of points of the path. -/
  total : Nat
  /-- Number of points that can be followed. -/
  limit : Nat
  /-- The failure that stands behind them, if any. -/
  ending : Option (Failure Float)
  /-- The trajectory over the first points. -/
  trajectory : Nat → Trajectory Float

namespace Course

/-! ## The machine -/

/-- Where a call leads. -/
def next (course : Course) : Stage → Call → Stage
  | .standing count, .runSteps batch => .standing (min (count + batch) course.limit)
  | .standing _, .result => .spent
  | stage, _ => stage

/-- What a call is answered. -/
def reply (course : Course) : Stage → Call → Reply
  | .standing count, .isDone => .value (.bool (decide (course.total ≤ count)))
  | .standing count, .runSteps batch =>
      match if course.limit < count + batch then course.ending else none with
      | some failure => .refused (.failed .runSteps failure)
      | none => .value (.ofProgress (.of (min (count + batch) course.limit) course.total))
  | .standing count, .progress => .value (.ofProgress (.of count course.total))
  | .standing count, .result => .value (.ofTrajectory (course.trajectory count))
  | .spent, .isDone => .value (.bool true)
  | .spent, .runSteps _ => .refused .runnerSpent
  | .spent, .progress => .refused .runnerSpent
  | .spent, .result => .refused .runnerSpent
  | _, _ => .noObject

/-- Where calls lead, one after the other. -/
def after (course : Course) (history : List Call) : Stage :=
  history.foldl course.next (.standing 0)

/-- What calls are answered, one after the other. -/
def replies (course : Course) : Stage → List Call → List Reply
  | _, [] => []
  | stage, call :: rest => course.reply stage call :: course.replies (course.next stage call) rest

variable (course : Course)

@[simp] theorem replies_nil (stage : Stage) : course.replies stage [] = [] := rfl

@[simp] theorem replies_cons (stage : Stage) (call : Call) (rest : List Call) :
    course.replies stage (call :: rest) =
      course.reply stage call :: course.replies (course.next stage call) rest := rfl

theorem after_concat (history : List Call) (call : Call) :
    course.after (history ++ [call]) = course.next (course.after history) call := by
  rw [after, List.foldl_append]
  rfl

theorem replies_append (stage : Stage) (first second : List Call) :
    course.replies stage (first ++ second) =
      course.replies stage first ++ course.replies (first.foldl course.next stage) second := by
  induction first generalizing stage with
  | nil => rfl
  | cons call first inductionHypothesis =>
      rw [List.cons_append, replies_cons, replies_cons, inductionHypothesis]
      rfl

/-- Every reply depends on the calls in front of it only. -/
theorem replies_eq_mapIdx (calls : List Call) :
    course.replies (.standing 0) calls =
      calls.mapIdx fun index call => course.reply (course.after (calls.take index)) call := by
  induction calls using List.reverseRecOn with
  | nil => rfl
  | append_singleton history call inductionHypothesis =>
      rw [replies_append, inductionHypothesis, List.mapIdx_concat, List.take_left' rfl]
      congr 1
      apply List.mapIdx_eq_mapIdx_iff.mpr
      intro index inside
      rw [List.take_append_of_le_length inside.le]

/-- Any call but the one for the result leaves a runner standing, no earlier and not beyond its
limit. -/
theorem next_standing
    {count : Nat}
    {call : Call}
    (notResult : call ≠ .result)
    (inside : count ≤ course.limit) :
    ∃ later, course.next (.standing count) call = .standing later ∧
      count ≤ later ∧ later ≤ course.limit := by
  cases call with
  | runSteps batch =>
      exact ⟨_, rfl, le_min (Nat.le_add_right _ _) inside, Nat.min_le_right _ _⟩
  | result => exact absurd rfl notResult
  | _ => exact ⟨count, rfl, le_rfl, inside⟩

theorem foldl_next_spent (history : List Call) :
    history.foldl course.next .spent = .spent := by
  induction history with
  | nil => rfl
  | cons call history inductionHypothesis =>
      rw [List.foldl_cons]
      exact inductionHypothesis

/-- As long as the result is not taken, the runner stands somewhere. -/
theorem after_of_not_mem {history : List Call} (living : .result ∉ history) :
    ∃ later ≤ course.limit, course.after history = .standing later := by
  induction history using List.reverseRecOn with
  | nil => exact ⟨0, Nat.zero_le _, rfl⟩
  | append_singleton history call inductionHypothesis =>
      rw [List.mem_append, not_or, List.mem_singleton] at living
      obtain ⟨count, inside, standing⟩ := inductionHypothesis living.1
      obtain ⟨later, led, _, bounded⟩ := course.next_standing (Ne.symm living.2) inside
      exact ⟨later, bounded, by rw [after_concat, standing, led]⟩

/-- Taking the result spends the runner for good. -/
theorem after_of_mem {history : List Call} (taken : .result ∈ history) :
    course.after history = .spent := by
  induction history using List.reverseRecOn with
  | nil => cases taken
  | append_singleton history call inductionHypothesis =>
      rw [after_concat]
      by_cases earlier : .result ∈ history
      · rw [inductionHypothesis earlier]
        exact course.foldl_next_spent [call]
      · obtain ⟨later, _, standing⟩ := course.after_of_not_mem earlier
        rw [List.mem_append, List.mem_singleton] at taken
        obtain rfl := taken.resolve_left earlier
        rw [standing]
        rfl

/-! ## The workbench runs through the machine -/

variable {n : Nat}

/-- The course of a problem along a path. -/
structure Describes (course : Course) (problem : Problem Float n)
    (path : List (Complex Float)) : Prop where
  accepted : Corrector.check n problem.settings = .ok ⟨⟩
  total : course.total = path.length
  ends : problem.EndsAt path course.limit course.ending
  trajectory : ∀ count ≤ course.limit,
    (problem.trajectory (path.take count)).outcome = .ok (course.trajectory count)

/-- The runner stands where the stage says. -/
inductive Shows (course : Course) (problem : Problem Float n)
    (path : List (Complex Float)) : Stage → RunnerSlot → Prop where
  | standing {count : Nat} {track : Track Float n}
      (stands : Runner.StandsAt problem path count track) (inside : count ≤ course.limit) :
      Shows course problem path (.standing count)
        (.active (.following problem path track))
  | spent : Shows course problem path .spent .spent

/-- Every accepted problem has a course. -/
theorem exists_describes
    (problem : Problem Float n)
    (path : List (Complex Float))
    (accepted : Corrector.check n problem.settings = .ok ⟨⟩) :
    ∃ course : Course, course.Describes problem path := by
  obtain ⟨limit, ending, ends⟩ := problem.exists_endsAt path
  have followed : ∀ count, ∃ trajectory, count ≤ limit →
      (problem.trajectory (path.take count)).outcome = .ok trajectory := by
    intro count
    by_cases inside : count ≤ limit
    · obtain ⟨track, reached⟩ := ends.exists_follow_take inside
      refine ⟨track.trajectory, fun _ => ?_⟩
      exact (Problem.outcome_trajectory_eq_ok_iff _ accepted).mpr ⟨track, reached, rfl⟩
    · exact ⟨⟨[], []⟩, fun impossible => absurd impossible inside⟩
  choose trajectory reached using followed
  exact ⟨⟨path.length, limit, ending, trajectory⟩, accepted, rfl, ends, reached⟩

variable {problem : Problem Float n} {path : List (Complex Float)} {course : Course}
  {stage : Stage} {slot : RunnerSlot} {call : Call} {count : Nat} {track : Track Float n}

theorem Describes.progress_eq
    (describes : course.Describes problem path)
    (stands : Runner.StandsAt problem path count track) :
    (Runner.following problem path track).progress = .of count course.total := by
  rw [stands.progress, describes.total]

theorem Describes.result_eq
    (describes : course.Describes problem path)
    (stands : Runner.StandsAt problem path count track)
    (inside : count ≤ course.limit) :
    (Runner.following problem path track).result = course.trajectory count := by
  have reached := stands.result describes.accepted
  exact Except.ok.inj (reached.symm.trans (describes.trajectory count inside))

/-- If the whole path can be followed, its course comes to the end. -/
theorem Describes.whole_of_trajectory
    {trajectory : Trajectory Float}
    (describes : course.Describes problem path)
    (followed : (problem.trajectory path).outcome = .ok trajectory) :
    course.limit = course.total ∧ course.ending = none ∧
      course.trajectory course.total = trajectory := by
  have ends := describes.ends
  cases ending : course.ending with
  | some failure =>
      rw [ending] at ends
      have failed := (ends.trajectory_of_blocked describes.accepted).1
      cases followed.symm.trans failed
  | none =>
      rw [ending] at ends
      have whole := (ends.trajectory_of_whole describes.accepted).1
      have last := describes.trajectory path.length whole.ge
      rw [List.take_length, followed] at last
      rw [describes.total]
      exact ⟨whole, rfl, (Except.ok.inj last).symm⟩

/-- If the path fails, its course comes to the failing point. -/
theorem Describes.blocked_of_failure
    {failure : Failure Float}
    (describes : course.Describes problem path)
    (failed : (problem.trajectory path).outcome = .error failure) :
    course.limit < course.total ∧ course.ending = some failure := by
  have ends := describes.ends
  cases ending : course.ending with
  | none =>
      rw [ending] at ends
      obtain ⟨_, trajectory, followed⟩ := ends.trajectory_of_whole describes.accepted
      cases failed.symm.trans followed
  | some other =>
      rw [ending] at ends
      obtain ⟨stopped, q, atLimit, _⟩ := ends.trajectory_of_blocked describes.accepted
      rw [describes.total]
      exact ⟨(List.getElem?_eq_some_iff.mp atLimit).1,
        congrArg some (Except.error.inj (stopped.symm.trans failed))⟩

/-- What one call preserves: the runner answers as the machine does, and stands where the
machine leads. -/
theorem Shows.reply
    (describes : course.Describes problem path)
    (shown : course.Shows problem path stage slot)
    (onRunner : call.OnRunner) :
    ∃ next, (slot.reply call).outcome = .ok (next, course.reply stage call) ∧
      course.Shows problem path (course.next stage call) next := by
  cases shown with
  | spent => cases onRunner <;> exact ⟨.spent, rfl, .spent⟩
  | @standing count track stands inside =>
      have progress := describes.progress_eq stands
      cases onRunner with
      | isDone =>
          have done : (Runner.following problem path track).isDone =
              decide (course.total ≤ count) :=
            congrArg Progress.done progress
          refine ⟨_, ?_, .standing stands inside⟩
          rw [reply, ← done]
          rfl
      | progress =>
          refine ⟨_, ?_, .standing stands inside⟩
          rw [reply, ← progress]
          rfl
      | result =>
          refine ⟨.spent, ?_, .spent⟩
          rw [reply, ← describes.result_eq stands inside]
          rfl
      | runSteps batch =>
          obtain ⟨reached, arrived, ran⟩ := stands.runSteps describes.ends batch
          refine ⟨_, ?_, .standing arrived (Nat.min_le_right _ _)⟩
          rw [RunnerSlot.reply, Run.outcome_bind, ran, reply,
            ← describes.progress_eq arrived]
          rfl

/-- A call on a runner changes the bench at the place of the runner only. -/
theorem outcome_call_onRunner
    {bench : Workbench}
    (onRunner : call.OnRunner)
    (onBench : bench.runner = some slot) :
    (bench.call call).outcome = (slot.reply call).outcome.map fun answer =>
      ({ bench with runner := some answer.1 }, answer.2) := by
  have forwarded : bench.call call = slot.reply call >>= fun answer =>
      pure ({ bench with runner := some answer.1 }, answer.2) := by
    cases onRunner <;> rw [Workbench.call, onBench]
  rw [forwarded, Run.outcome_bind]
  rfl

/-- What any calls are answered. -/
theorem Shows.outcome_calls
    {bench : Workbench}
    {calls : List Call}
    (describes : course.Describes problem path)
    (shown : course.Shows problem path stage slot)
    (onBench : bench.runner = some slot)
    (onRunner : ∀ call ∈ calls, call.OnRunner) :
    (bench.calls calls).outcome = .ok (course.replies stage calls) := by
  induction calls generalizing bench stage slot with
  | nil => rfl
  | cons call calls inductionHypothesis =>
      obtain ⟨next, replied, later⟩ := shown.reply describes (onRunner call List.mem_cons_self)
      have rest : (Workbench.calls { bench with runner := some next } calls).outcome =
          .ok (course.replies (course.next stage call) calls) :=
        inductionHypothesis later rfl fun call member =>
          onRunner call (List.mem_cons_of_mem _ member)
      rw [Workbench.calls, Run.outcome_bind,
        outcome_call_onRunner (onRunner call List.mem_cons_self) onBench, replied]
      change (Workbench.calls { bench with runner := some next } calls >>= fun replies =>
        pure (course.reply stage call :: replies)).outcome = _
      rw [Run.outcome_bind, rest]
      rfl

end Course
end Host
end RootTrace
