import Mathlib.Algebra.BigOperators.Group.Finset.Basic
import RootTrace.Proofs.Host.Course

/-!
# Runners that are driven in rounds

A host application drives a runner in rounds: it asks whether the runner is done, and if
not, has it follow some more points. As every round asks for at least one point, the
rounds come to an end. Along a path without failing points that is when the runner is
done, and its result is then the trajectory of the whole path. Otherwise it is the first
round that asks for the failing point.
-/

namespace RootTrace
namespace Host

/-- The number of points that the first rounds ask for. -/
def pointsAsked (sizes : Nat → Nat) (rounds : Nat) : Nat :=
  ∑ round ∈ Finset.range rounds, sizes round

/-- The calls of the first rounds. -/
def drive (sizes : Nat → Nat) (rounds : Nat) : List Call :=
  (List.range rounds).flatMap fun round => [.isDone, .runSteps (sizes round)]

/-- What the first rounds are answered while points are left and none fails. -/
def driveReplies (total : Nat) (sizes : Nat → Nat) (rounds : Nat) : List Reply :=
  (List.range rounds).flatMap fun round =>
    [.value (.bool false),
      .value (.ofProgress (.of (min (pointsAsked sizes (round + 1)) total) total))]

section
variable (sizes : Nat → Nat)

@[simp] theorem pointsAsked_zero : pointsAsked sizes 0 = 0 :=
  Finset.sum_range_zero sizes

theorem pointsAsked_succ (rounds : Nat) :
    pointsAsked sizes (rounds + 1) = pointsAsked sizes rounds + sizes rounds :=
  Finset.sum_range_succ sizes rounds

theorem drive_succ (rounds : Nat) :
    drive sizes (rounds + 1) = drive sizes rounds ++ [.isDone, .runSteps (sizes rounds)] := by
  rw [drive, List.range_succ, List.flatMap_append, List.flatMap_singleton]
  rfl

theorem driveReplies_succ (total rounds : Nat) :
    driveReplies total sizes (rounds + 1) = driveReplies total sizes rounds ++
      [.value (.bool false),
        .value (.ofProgress (.of (min (pointsAsked sizes (rounds + 1)) total) total))] := by
  rw [driveReplies, List.range_succ, List.flatMap_append, List.flatMap_singleton]
  rfl

theorem onRunner_of_mem_drive
    {rounds : Nat}
    {call : Call}
    (member : call ∈ drive sizes rounds) :
    call.OnRunner := by
  obtain ⟨round, _, among⟩ := List.mem_flatMap.mp member
  rw [List.mem_pair] at among
  rcases among with rfl | rfl
  · exact .isDone
  · exact .runSteps _

variable {sizes}

theorem le_pointsAsked (positive : ∀ round, 0 < sizes round) (rounds : Nat) :
    rounds ≤ pointsAsked sizes rounds := by
  induction rounds with
  | zero => exact Nat.zero_le _
  | succ rounds inductionHypothesis =>
      rw [pointsAsked_succ]
      exact Nat.add_le_add inductionHypothesis (positive rounds)

/-- Rounds that each ask for a point ask for any number of them in the end. -/
theorem exists_first_pointsAsked (positive : ∀ round, 0 < sizes round) (count : Nat) :
    ∃ rounds, count ≤ pointsAsked sizes rounds ∧
      ∀ earlier < rounds, pointsAsked sizes earlier < count := by
  have enough : ∃ rounds, count ≤ pointsAsked sizes rounds :=
    ⟨count, le_pointsAsked positive count⟩
  refine ⟨Nat.find enough, Nat.find_spec enough, ?_⟩
  intro earlier inside
  exact Nat.not_le.mp (Nat.find_min enough inside)

end

namespace Course

variable (course : Course) {sizes : Nat → Nat} {rounds : Nat}

/-- What one round is answered while points are left and none fails. -/
theorem replies_round
    {count batch : Nat}
    (left : count < course.total)
    (calm : course.limit < count + batch → course.ending = none) :
    course.replies (.standing count) [.isDone, .runSteps batch] =
      [.value (.bool false),
        .value (.ofProgress (.of (min (count + batch) course.limit) course.total))] := by
  have undone : decide (course.total ≤ count) = false :=
    decide_eq_false (Nat.not_le.mpr left)
  have unstopped : (if course.limit < count + batch then course.ending else none) = none := by
    by_cases tried : course.limit < count + batch
    · rw [if_pos tried, calm tried]
    · rw [if_neg tried]
  rw [replies_cons, replies_cons, replies_nil, reply, undone, next, reply, unstopped]
  all_goals simp

/-- Where rounds lead, and what they are answered, as long as each begins with points
left and no point that it asks for fails. -/
theorem replies_drive
    (left : ∀ round < rounds, pointsAsked sizes round < course.total)
    (calm : ∀ round < rounds,
      pointsAsked sizes (round + 1) ≤ course.limit ∨
        course.limit = course.total ∧ course.ending = none)
    (bounded : course.limit ≤ course.total) :
    (drive sizes rounds).foldl course.next (.standing 0) =
        .standing (min (pointsAsked sizes rounds) course.limit) ∧
      course.replies (.standing 0) (drive sizes rounds) =
        driveReplies course.total sizes rounds := by
  induction rounds with
  | zero =>
      rw [pointsAsked_zero, Nat.zero_min]
      exact ⟨rfl, rfl⟩
  | succ rounds inductionHypothesis =>
      obtain ⟨place, replied⟩ := inductionHypothesis
        (fun round inside => left round (Nat.lt_succ_of_lt inside))
        fun round inside => calm round (Nat.lt_succ_of_lt inside)
      have pointsLeft := left rounds (Nat.lt_succ_self rounds)
      have quiet := calm rounds (Nat.lt_succ_self rounds)
      have asked := pointsAsked_succ sizes rounds
      have further : min (min (pointsAsked sizes rounds) course.limit + sizes rounds)
          course.limit = min (pointsAsked sizes (rounds + 1)) course.limit := by
        omega
      have shown : min (pointsAsked sizes (rounds + 1)) course.limit =
          min (pointsAsked sizes (rounds + 1)) course.total := by
        omega
      rw [drive_succ, driveReplies_succ, List.foldl_append, replies_append, place, replied]
      constructor
      · change Stage.standing _ = _
        rw [further]
      · rw [replies_round, further, shown]
        · omega
        · intro tried
          exact (quiet.resolve_left (by omega)).2

/-- Along a path without failing points, rounds lead to a runner that is done and hands
out the trajectory of the whole path. -/
theorem exists_drive_of_whole
    (whole : course.limit = course.total)
    (unfailing : course.ending = none)
    (positive : ∀ round, 0 < sizes round) :
    ∃ rounds, course.replies (.standing 0) (drive sizes rounds ++ [.isDone, .result]) =
      driveReplies course.total sizes rounds ++
        [.value (.bool true), .value (.ofTrajectory (course.trajectory course.total))] := by
  obtain ⟨rounds, reached, unreached⟩ := exists_first_pointsAsked positive course.total
  obtain ⟨place, replied⟩ :=
    course.replies_drive unreached (fun _ _ => .inr ⟨whole, unfailing⟩) whole.le
  rw [whole, Nat.min_eq_right reached] at place
  refine ⟨rounds, ?_⟩
  rw [replies_append, place, replied, replies_cons, replies_cons, reply,
    decide_eq_true le_rfl]
  all_goals rfl

/-- Along a path with a failing point, rounds lead to one that asks for this point. The first of
them that ask for as many points end with the one that is stopped. -/
theorem exists_drive_of_blocked
    {failure : Failure Float}
    (blocked : course.limit < course.total)
    (failing : course.ending = some failure)
    (positive : ∀ round, 0 < sizes round) :
    ∃ rounds,
      course.replies (.standing 0)
          (drive sizes rounds ++ [.isDone, .runSteps (sizes rounds)]) =
        driveReplies course.total sizes rounds ++
          [.value (.bool false), .refused (.failed .runSteps failure)] := by
  obtain ⟨rounds, reached, unreached⟩ := exists_first_pointsAsked positive (course.limit + 1)
  cases rounds with
  | zero =>
      rw [pointsAsked_zero] at reached
      exact absurd reached (by omega)
  | succ rounds =>
      have before : ∀ round ≤ rounds, pointsAsked sizes round ≤ course.limit :=
        fun round inside => Nat.le_of_lt_succ (unreached round (Nat.lt_succ_of_le inside))
      obtain ⟨place, replied⟩ := course.replies_drive
        (fun round inside => (before round inside.le).trans_lt blocked)
        (fun round inside => .inl (before (round + 1) inside)) blocked.le
      rw [Nat.min_eq_left (before rounds le_rfl)] at place
      have undone : decide (course.total ≤ pointsAsked sizes rounds) = false :=
        decide_eq_false (Nat.not_le.mpr ((before rounds le_rfl).trans_lt blocked))
      have tried : course.limit < pointsAsked sizes rounds + sizes rounds := by
        rw [← pointsAsked_succ]
        exact reached
      refine ⟨rounds, ?_⟩
      rw [replies_append, place, replied, replies_cons, replies_cons, reply, undone, next,
        reply, if_pos tried, failing]
      all_goals simp

end Course
end Host
end RootTrace
