import RootTrace.Batch
import RootTrace.Proofs.Path.Follow

/-!
# Seeds that take turns

The seeds of a batch may be worked on in any order and at the same time. Then the
work on each of them is cut into turns, one for the checks, one for each point of the
path and one for coming to an end, and a schedule says whose turn it is. A turn reads
and changes the work on its own seed only, so however the turns are interleaved, every
seed comes to what it comes to alone.
-/

namespace RootTrace

universe u

namespace Problem

variable {α : Type u} {n : Nat}

/-- How far the work on a path has come. -/
inductive Work (α : Type u) (n : Nat) where
  /-- Nothing has been done. -/
  | waiting
  /-- Some points have been followed, others are left. -/
  | following (track : Track α n) (rest : List (Complex α))
  /-- The work has come to an end. -/
  | finished (outcome : Except (Failure α) (Track α n))

variable [Zero α] [One α] [Add α] [Sub α] [Mul α] [Neg α] [Div α] [BEq α]
  [LT α] [DecidableLT α] [Magnitude α]

/-- One turn of the work on a path. -/
def turn (problem : Problem α n) (path : List (Complex α)) : Work α n → Work α n
  | .waiting =>
      match Corrector.check n problem.settings with
      | .error fault => .finished (.error (.ofFault fault))
      | .ok _ => .following Track.empty path
  | .following track [] => .finished (.ok track)
  | .following track (q :: rest) =>
      match problem.point track q with
      | .error failure => .finished (.error failure)
      | .ok next => .following next rest
  | .finished outcome => .finished outcome

variable (problem : Problem α n) (path : List (Complex α))

theorem iterate_turn_finished
    (outcome : Except (Failure α) (Track α n))
    (turns : Nat) :
    (problem.turn path)^[turns] (.finished outcome) = .finished outcome :=
  Function.iterate_fixed rfl turns

/-- One turn for every point, and one more, finish the work on a seed. -/
theorem iterate_turn_following (track : Track α n) (rest : List (Complex α)) :
    (problem.turn path)^[rest.length + 1] (.following track rest) =
      .finished (problem.follow track rest) := by
  induction rest generalizing track with
  | nil => rfl
  | cons q rest inductionHypothesis =>
      rw [List.length_cons, Function.iterate_succ_apply, turn, follow_cons]
      cases problem.point track q with
      | error failure => exact iterate_turn_finished problem path _ _
      | ok next => exact inductionHypothesis next

/-- Enough turns bring the work to an end. -/
theorem iterate_turn_waiting :
    (problem.turn path)^[path.length + 2] .waiting =
      .finished (problem.trace path).outcome := by
  rw [Function.iterate_succ_apply, turn, outcome_trace]
  cases Corrector.check n problem.settings with
  | error fault => exact iterate_turn_finished problem path _ _
  | ok accepted => exact iterate_turn_following problem path Track.empty path

theorem iterate_turn_waiting_of_le
    {turns : Nat}
    (enough : path.length + 2 ≤ turns) :
    (problem.turn path)^[turns] .waiting = .finished (problem.trace path).outcome := by
  obtain ⟨more, rfl⟩ := Nat.exists_eq_add_of_le' enough
  rw [Function.iterate_add_apply, iterate_turn_waiting, iterate_turn_finished]

/-- Work can come to one end only. -/
theorem outcome_of_iterate_turn_finished
    {turns : Nat}
    {outcome : Except (Failure α) (Track α n)}
    (ended : (problem.turn path)^[turns] .waiting = .finished outcome) :
    outcome = (problem.trace path).outcome := by
  have later : (problem.turn path)^[path.length + 2 + turns] .waiting =
      .finished outcome := by
    rw [Function.iterate_add_apply, ended, iterate_turn_finished]
  rw [iterate_turn_waiting_of_le problem path (Nat.le_add_right _ _)] at later
  exact (Work.finished.inj later).symm

end Problem

namespace Batch

variable (system : RootSystem Float) (settings : Settings Float)
  (path : List (Complex Float)) (seeds : List Seed)

/-- How far the work on every seed has come. -/
abbrev Works (seeds : List Seed) : Type :=
  (i : Fin seeds.length) → Problem.Work Float (seeds.get i).roots.length

/-- Give one seed a turn. -/
def turnAt (works : Works seeds) (i : Fin seeds.length) : Works seeds :=
  Function.update works i
    ((Problem.ofList system settings (seeds.get i).roots).turn path (works i))

/-- Give the seeds their turns in the order of a schedule. -/
def interleave (schedule : List (Fin seeds.length)) : Works seeds :=
  schedule.foldl (turnAt system settings path seeds) fun _ => .waiting

/-- Under any schedule the work on a seed has had the turns that were its own, and no other turn
touches it. -/
theorem foldl_turnAt_apply
    (schedule : List (Fin seeds.length))
    (works : Works seeds)
    (i : Fin seeds.length) :
    schedule.foldl (turnAt system settings path seeds) works i =
      ((Problem.ofList system settings (seeds.get i).roots).turn path)^[schedule.count i]
        (works i) := by
  induction schedule generalizing works with
  | nil => rfl
  | cons j schedule inductionHypothesis =>
      rw [List.foldl_cons, inductionHypothesis, turnAt]
      by_cases same : j = i
      · subst same
        rw [Function.update_self, List.count_cons_self, Function.iterate_succ_apply]
      · rw [Function.update_of_ne (Ne.symm same), List.count_cons_of_ne same]

/-- Every seed gets as far as its own turns bring it. -/
theorem interleave_apply (schedule : List (Fin seeds.length)) (i : Fin seeds.length) :
    interleave system settings path seeds schedule i =
      ((Problem.ofList system settings (seeds.get i).roots).turn path)^[schedule.count i]
        .waiting :=
  foldl_turnAt_apply system settings path seeds schedule _ i

end Batch
end RootTrace
