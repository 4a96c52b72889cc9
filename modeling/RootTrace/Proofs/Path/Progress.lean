import RootTrace.Proofs.Path.Batches
import RootTrace.Proofs.Path.Chain

/-!
# How far batches come

A path can be followed up to its first failing point, or to its end if there is none.
Batches come as far as they ask for, but never past that place. Where a runner stands is
therefore a function of the number of points it was asked for, and a batch fails exactly
if it asks for the failing point.
-/

namespace RootTrace

universe u

variable {α : Type u} {n : Nat}

namespace Problem

variable [Zero α] [One α] [Add α] [Sub α] [Mul α] [Neg α] [Div α] [BEq α]
  [LT α] [DecidableLT α] [Magnitude α]

variable {problem : Problem α n} {path : List (Complex α)} {limit : Nat}
  {ending : Option (Failure α)}

/-- Up to where a path can be followed, and the failure that stands there. -/
inductive EndsAt (problem : Problem α n) (path : List (Complex α)) :
    Nat → Option (Failure α) → Prop where
  /-- Every point can be followed. -/
  | whole {track : Track α n} (followed : problem.follow Track.empty path = .ok track) :
      EndsAt problem path path.length none
  /-- A point fails. -/
  | blocked {step : Nat} {before : Track α n} {failure : Failure α}
      (failsAt : problem.FailsAt Track.empty path step before failure) :
      EndsAt problem path step (some failure)

/-- A path can be followed up to some point, which is its last one or the one in front of a
failure. -/
theorem exists_endsAt (problem : Problem α n) (path : List (Complex α)) :
    ∃ limit ending, problem.EndsAt path limit ending := by
  cases followed : problem.follow Track.empty path with
  | ok track => exact ⟨_, _, .whole followed⟩
  | error failure =>
      obtain ⟨step, before, failsAt⟩ :=
        (problem.follow_eq_error_iff Track.empty path failure).mp followed
      exact ⟨_, _, .blocked failsAt⟩

theorem EndsAt.le_length (ends : problem.EndsAt path limit ending) :
    limit ≤ path.length := by
  cases ends with
  | whole followed => exact le_rfl
  | blocked failsAt => exact failsAt.inside.le

theorem exists_follow_take
    {track reached : Track α n}
    (followed : problem.follow track path = .ok reached)
    (count : Nat) :
    ∃ before, problem.follow track (path.take count) = .ok before := by
  rw [← List.take_append_drop count path, follow_append] at followed
  cases front : problem.follow track (path.take count) with
  | ok before => exact ⟨before, rfl⟩
  | error failure =>
      rw [front] at followed
      cases followed

theorem EndsAt.exists_follow_take
    (ends : problem.EndsAt path limit ending)
    {count : Nat}
    (inside : count ≤ limit) :
    ∃ track, problem.follow Track.empty (path.take count) = .ok track := by
  cases ends with
  | whole followed => exact Problem.exists_follow_take followed count
  | blocked failsAt =>
      obtain ⟨track, followed⟩ := Problem.exists_follow_take failsAt.reached count
      rw [List.take_take, Nat.min_eq_left inside] at followed
      exact ⟨track, followed⟩

/-- A path that can be followed to its end has a trajectory. -/
theorem EndsAt.trajectory_of_whole
    (ends : problem.EndsAt path limit none)
    (accepted : Corrector.check n problem.settings = .ok ⟨⟩) :
    limit = path.length ∧
      ∃ trajectory, (problem.trajectory path).outcome = .ok trajectory := by
  cases ends with
  | @whole track followed =>
      exact ⟨rfl, track.trajectory,
        (outcome_trajectory_eq_ok_iff _ accepted).mpr ⟨track, followed, rfl⟩⟩

/-- A path that is blocked fails as the blocking point does. -/
theorem EndsAt.trajectory_of_blocked
    {failure : Failure α}
    (ends : problem.EndsAt path limit (some failure))
    (accepted : Corrector.check n problem.settings = .ok ⟨⟩) :
    (problem.trajectory path).outcome = .error failure ∧
      ∃ q, path[limit]? = some q ∧
        ∃ inner : Failure α, failure = inner.within (.pathStep limit q) := by
  cases ends with
  | blocked failsAt =>
      constructor
      · apply (outcome_trajectory_eq_error_iff _ accepted).mpr
        exact (follow_eq_error_iff _ _ _ _).mpr ⟨_, _, failsAt⟩
      · obtain ⟨q, atStep, inner, named⟩ := failsAt.names_point
        rw [Track.length_empty, Nat.zero_add] at named
        exact ⟨q, atStep, inner, named⟩

end Problem

/-- The progress of a runner that has followed some of the points of its path. -/
def Progress.of (count total : Nat) : Progress :=
  ⟨decide (total ≤ count), count, total⟩

namespace Runner

variable [Zero α] [One α] [Add α] [Sub α] [Mul α] [Neg α] [Div α] [BEq α]
  [LT α] [DecidableLT α] [Magnitude α]

/-- A runner that has followed a number of points, with what they come to. -/
structure StandsAt (problem : Problem α n) (path : List (Complex α)) (count : Nat)
    (track : Track α n) : Prop where
  length : track.length = count
  reached : problem.follow Track.empty (path.take count) = .ok track

namespace StandsAt

variable {problem : Problem α n} {path : List (Complex α)} {count limit : Nat}
  {track : Track α n} {ending : Option (Failure α)}

theorem empty : StandsAt problem path 0 Track.empty :=
  ⟨rfl, rfl⟩

theorem progress (stands : StandsAt problem path count track) :
    (following problem path track).progress = .of count path.length := by
  rw [← stands.length]
  rfl

theorem result
    (stands : StandsAt problem path count track)
    (accepted : Corrector.check n problem.settings = .ok ⟨⟩) :
    (problem.trajectory (path.take count)).outcome =
      .ok (following problem path track).result :=
  (Problem.outcome_trajectory_eq_ok_iff _ accepted).mpr ⟨track, stands.reached, rfl⟩

/-- A batch comes as far as it asks for, or to where the path ends. It fails exactly if
it asks for a point that fails. -/
theorem runSteps
    (stands : StandsAt problem path count track)
    (ends : problem.EndsAt path limit ending)
    (batch : Nat) :
    ∃ next, StandsAt problem path (min (count + batch) limit) next ∧
      ((following problem path track).runSteps batch).outcome =
        .ok (following problem path next,
          if limit < count + batch then ending else none) := by
  obtain ⟨rfl, reached⟩ := stands
  have bounded := ends.le_length
  have standsAt : ∀ {place : Nat} {next : Track α n}, place ≤ limit →
      problem.follow Track.empty (path.take place) = .ok next →
      StandsAt problem path place next := by
    intro place next inside followed
    refine ⟨?_, followed⟩
    rw [Problem.length_of_follow followed, Track.length_empty, Nat.zero_add,
      List.length_take_of_le (inside.trans bounded)]
  by_cases tried : limit < track.length + batch
  · rw [if_pos tried, Nat.min_eq_right tried.le]
    cases ends with
    | @whole whole followed =>
        have all : ∀ place, path.length ≤ place →
            problem.follow Track.empty (path.take place) = .ok whole := by
          intro place beyond
          rw [List.take_of_length_le beyond]
          exact followed
        exact ⟨whole, standsAt le_rfl (all _ le_rfl),
          outcome_runSteps_of_ok reached (all _ tried.le)⟩
    | blocked failsAt =>
        exact ⟨_, standsAt le_rfl failsAt.reached,
          outcome_runSteps_of_failsAt reached failsAt tried⟩
  · have inside : track.length + batch ≤ limit := Nat.not_lt.mp tried
    rw [if_neg tried, Nat.min_eq_left inside]
    obtain ⟨next, followed⟩ := ends.exists_follow_take inside
    exact ⟨next, standsAt inside followed, outcome_runSteps_of_ok reached followed⟩

end StandsAt
end Runner
end RootTrace
