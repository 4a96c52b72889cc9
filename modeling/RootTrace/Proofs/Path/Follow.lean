import RootTrace.Proofs.Outcome
import RootTrace.Runner

/-!
# What a path comes to

The outcome of a run forgets its record. Outcomes are put together as exceptions
are, so a path comes to a fold of what its points come to, and splitting the path
splits the fold. The loop that stops at the first failure and keeps the points
before it runs through the same fold.
-/

namespace RootTrace

universe u v

/-! ## Parts of a path -/

theorem take_drop_eq_drop_take {β : Type*} (path : List β) (first batch : Nat) :
    (path.drop first).take batch = (path.take (first + batch)).drop first := by
  rw [List.drop_take, Nat.add_sub_cancel_left]

/-- The points in front of a failing one, the failing one, and the rest. -/
theorem drop_take_of_inside
    {β : Type*}
    {path : List β}
    {first step last : Nat}
    (inside : step < path.length)
    (started : first ≤ step)
    (tried : step < last) :
    (path.take last).drop first =
      (path.take step).drop first ++ path[step] :: (path.take last).drop (step + 1) := by
  have bound : step < (path.take last).length := by
    rw [List.length_take]
    omega
  have front : (path.take last).take step = path.take step := by
    rw [List.take_take, Nat.min_eq_left tried.le]
  have frontLength : (path.take step).length = step := by
    rw [List.length_take]
    omega
  conv_lhs => rw [← List.take_append_drop step (path.take last), front,
    List.drop_eq_getElem_cons bound, List.getElem_take]
  rw [List.drop_append_of_le_length (by omega)]

@[simp] theorem Track.length_empty {α : Type u} {n : Nat} :
    (Track.empty : Track α n).length = 0 := rfl

namespace Problem

variable {α : Type u} {n : Nat}
variable [Zero α] [One α] [Add α] [Sub α] [Mul α] [Neg α] [Div α] [BEq α]
  [LT α] [DecidableLT α] [Magnitude α]

/-! ## One point -/

/-- What the next point of a path comes to. -/
def point (problem : Problem α n) (track : Track α n) (q : Complex α) :
    Except (Failure α) (Track α n) :=
  (problem.advance track q).outcome

/-- A point is passed exactly if the correction from the latest roots succeeds, which is then
recorded. -/
theorem point_eq_ok_iff
    (problem : Problem α n)
    (track next : Track α n)
    (q : Complex α) :
    problem.point track q = .ok next ↔
      ∃ correction,
        (Corrector.correct problem.system problem.settings
          (track.latest problem.seed) q).outcome = .ok correction ∧
          next = track.record correction := by
  unfold point advance
  rw [Run.outcome_map, Run.outcome_within]
  cases (Corrector.correct problem.system problem.settings
    (track.latest problem.seed) q).outcome with
  | error failure => simp [Except.mapError, Functor.map, Except.map]
  | ok correction => simp [Except.mapError, Functor.map, Except.map, eq_comm]

/-- A point fails exactly if the correction from the latest roots does, and the failure names the
step and the point. -/
theorem point_eq_error_iff
    (problem : Problem α n)
    (track : Track α n)
    (q : Complex α)
    (failure : Failure α) :
    problem.point track q = .error failure ↔
      ∃ inner,
        (Corrector.correct problem.system problem.settings
          (track.latest problem.seed) q).outcome = .error inner ∧
          failure = inner.within (.pathStep track.length q) := by
  unfold point advance
  rw [Run.outcome_map, Run.outcome_within]
  cases (Corrector.correct problem.system problem.settings
    (track.latest problem.seed) q).outcome with
  | error failure => simp [Except.mapError, Functor.map, Except.map, eq_comm]
  | ok correction => simp [Except.mapError, Functor.map, Except.map]

theorem length_of_point
    {problem : Problem α n}
    {track next : Track α n}
    {q : Complex α}
    (succeeded : problem.point track q = .ok next) :
    next.length = track.length + 1 := by
  obtain ⟨correction, _, rfl⟩ := (problem.point_eq_ok_iff track next q).mp succeeded
  simp [Track.record, Track.length]

/-! ## Many points -/

/-- What some further points of a path come to. -/
def follow (problem : Problem α n) (track : Track α n) (points : List (Complex α)) :
    Except (Failure α) (Track α n) :=
  points.foldlM problem.point track

@[simp] theorem follow_nil (problem : Problem α n) (track : Track α n) :
    problem.follow track [] = .ok track := rfl

theorem follow_cons
    (problem : Problem α n)
    (track : Track α n)
    (q : Complex α)
    (points : List (Complex α)) :
    problem.follow track (q :: points) =
      problem.point track q >>= fun next => problem.follow next points := rfl

theorem follow_cons_eq_ok_iff
    {problem : Problem α n}
    {track reached : Track α n}
    {q : Complex α}
    {points : List (Complex α)} :
    problem.follow track (q :: points) = .ok reached ↔
      ∃ next, problem.point track q = .ok next ∧ problem.follow next points = .ok reached := by
  rw [follow_cons]
  cases problem.point track q with
  | error failure => simp [bind, Except.bind]
  | ok next => simp [bind, Except.bind]

theorem follow_append
    (problem : Problem α n)
    (track : Track α n)
    (first second : List (Complex α)) :
    problem.follow track (first ++ second) =
      problem.follow track first >>= fun next => problem.follow next second :=
  List.foldlM_append

theorem follow_concat_eq_ok_iff
    {problem : Problem α n}
    {track reached : Track α n}
    {points : List (Complex α)}
    {q : Complex α} :
    problem.follow track (points ++ [q]) = .ok reached ↔
      ∃ before, problem.follow track points = .ok before ∧
        problem.point before q = .ok reached := by
  rw [follow_append]
  cases problem.follow track points with
  | error failure => simp [bind, Except.bind]
  | ok before => simp [bind, Except.bind, follow_cons_eq_ok_iff]

theorem length_of_follow
    {problem : Problem α n}
    {track reached : Track α n}
    {points : List (Complex α)}
    (succeeded : problem.follow track points = .ok reached) :
    reached.length = track.length + points.length := by
  induction points generalizing track with
  | nil =>
      cases succeeded
      rfl
  | cons q points inductionHypothesis =>
      obtain ⟨next, firstPoint, rest⟩ := follow_cons_eq_ok_iff.mp succeeded
      have length := inductionHypothesis rest
      rw [length, length_of_point firstPoint, List.length_cons]
      omega

/-- Among some further points, one is the first that fails. -/
structure FailsAt (problem : Problem α n) (track : Track α n)
    (points : List (Complex α)) (step : Nat) (before : Track α n)
    (failure : Failure α) : Prop where
  /-- There is such a point. -/
  inside : step < points.length
  /-- The points in front of it succeed. -/
  reached : problem.follow track (points.take step) = .ok before
  /-- The point fails. -/
  fails : problem.point before points[step] = .error failure

/-- Following up to a later point is following on from an earlier one. -/
theorem follow_drop_take
    {problem : Problem α n}
    {path : List (Complex α)}
    {track : Track α n}
    {first last : Nat}
    (reached : problem.follow Track.empty (path.take first) = .ok track)
    (ordered : first ≤ last) :
    problem.follow track ((path.take last).drop first) =
      problem.follow Track.empty (path.take last) := by
  have split : path.take last = path.take first ++ (path.take last).drop first := by
    have whole := (List.take_append_drop first (path.take last)).symm
    rwa [List.take_take, Nat.min_eq_left ordered] at whole
  conv_rhs => rw [split, follow_append, reached]
  rfl

/-- Some points fail exactly with the failure of the first that fails. -/
theorem follow_eq_error_iff
    (problem : Problem α n)
    (track : Track α n)
    (points : List (Complex α))
    (failure : Failure α) :
    problem.follow track points = .error failure ↔
      ∃ step before, problem.FailsAt track points step before failure := by
  constructor
  · intro failed
    induction points generalizing track with
    | nil => cases failed
    | cons q points inductionHypothesis =>
        rw [follow_cons] at failed
        cases firstPoint : problem.point track q with
        | error other =>
            rw [firstPoint] at failed
            cases failed
            exact ⟨0, track, Nat.zero_lt_succ _, rfl, firstPoint⟩
        | ok next =>
            rw [firstPoint] at failed
            obtain ⟨step, before, inside, reached, fails⟩ := inductionHypothesis next failed
            refine ⟨step + 1, before, Nat.succ_lt_succ inside, ?_, fails⟩
            rw [List.take_succ_cons, follow_cons, firstPoint]
            exact reached
  · rintro ⟨step, before, inside, reached, fails⟩
    have split : points =
        points.take step ++ points[step] :: points.drop (step + 1) := by
      rw [← List.drop_eq_getElem_cons inside, List.take_append_drop]
    rw [split, follow_append, reached]
    change problem.follow before (points[step] :: points.drop (step + 1)) = _
    rw [follow_cons, fails]
    rfl

/-- Among the first points the failing step is the same, if it is one of them. -/
theorem failsAt_take_iff
    {problem : Problem α n}
    {track before : Track α n}
    {points : List (Complex α)}
    {step bound : Nat}
    {failure : Failure α} :
    problem.FailsAt track (points.take bound) step before failure ↔
      step < bound ∧ problem.FailsAt track points step before failure := by
  constructor
  · rintro ⟨inside, reached, fails⟩
    rw [List.length_take] at inside
    rw [List.take_take, Nat.min_eq_left (by omega)] at reached
    rw [List.getElem_take] at fails
    exact ⟨by omega, by omega, reached, fails⟩
  · rintro ⟨bounded, inside, reached, fails⟩
    refine ⟨?_, ?_, ?_⟩
    · rw [List.length_take]
      omega
    · rwa [List.take_take, Nat.min_eq_left bounded.le]
    · rwa [List.getElem_take]

/-- Points that succeed end in front of the first that fails. -/
theorem FailsAt.le_of_follow_take
    {problem : Problem α n}
    {track before reached : Track α n}
    {points : List (Complex α)}
    {step count : Nat}
    {failure : Failure α}
    (failsAt : problem.FailsAt track points step before failure)
    (succeeded : problem.follow track (points.take count) = .ok reached) :
    count ≤ step := by
  by_contra tried
  have failed : problem.follow track (points.take count) = .error failure :=
    (problem.follow_eq_error_iff track _ failure).mpr
      ⟨step, before, failsAt_take_iff.mpr ⟨by omega, failsAt⟩⟩
  rw [succeeded] at failed
  cases failed

/-- The failure names the point, counted from the beginning of the track. -/
theorem FailsAt.names_point
    {problem : Problem α n}
    {track before : Track α n}
    {points : List (Complex α)}
    {step : Nat}
    {failure : Failure α}
    (failsAt : problem.FailsAt track points step before failure) :
    ∃ q, points[step]? = some q ∧
      ∃ inner : Failure α, failure = inner.within (.pathStep (track.length + step) q) := by
  have inside := failsAt.inside
  refine ⟨points[step], List.getElem?_eq_getElem inside, ?_⟩
  obtain ⟨inner, _, wrapped⟩ :=
    (problem.point_eq_error_iff before points[step] failure).mp failsAt.fails
  have length := length_of_follow failsAt.reached
  rw [List.length_take, Nat.min_eq_left inside.le] at length
  exact ⟨inner, by rw [wrapped, length]⟩

/-- The outcome of a whole path: the two checks, then the fold of its points. -/
theorem outcome_trace (problem : Problem α n) (path : List (Complex α)) :
    (problem.trace path).outcome =
      (Corrector.check n problem.settings).mapError Failure.ofFault >>= fun _ =>
        problem.follow Track.empty path := by
  unfold trace
  rw [Run.outcome_bind, Run.outcome_ofCheck]
  congr 1
  funext accepted
  rw [Run.outcome_bind]
  change ((path.foldlM problem.advance Track.empty >>= fun track => _).outcome) = _
  rw [Run.outcome_bind, Run.outcome_foldlM]
  change (problem.follow Track.empty path >>= fun track => _) = _
  cases problem.follow Track.empty path with
  | error failure => rfl
  | ok track => rfl

/-- A fault without circumstances comes from the checks, since every other
failure names a point. -/
theorem outcome_trace_eq_fault_iff
    (problem : Problem α n)
    (path : List (Complex α))
    (fault : Fault α) :
    (problem.trace path).outcome = .error (.ofFault fault) ↔
      Corrector.check n problem.settings = .error fault := by
  rw [outcome_trace]
  cases Corrector.check n problem.settings with
  | error other =>
      simp [Except.mapError, bind, Except.bind, Failure.ofFault]
  | ok accepted =>
      constructor
      · intro failed
        obtain ⟨step, before, failsAt⟩ :=
          (problem.follow_eq_error_iff Track.empty path _).mp failed
        obtain ⟨q, _, inner, named⟩ := failsAt.names_point
        have contexts := congrArg Failure.contexts named
        simp at contexts
      · intro impossible
        cases impossible

theorem outcome_trace_of_check_ok
    {problem : Problem α n}
    (accepted : Corrector.check n problem.settings = .ok ⟨⟩)
    (path : List (Complex α)) :
    (problem.trace path).outcome = problem.follow Track.empty path := by
  rw [outcome_trace, accepted]
  rfl

/-- A path leaves a track exactly if the task is accepted and every point can be followed. -/
theorem outcome_trace_eq_ok_iff
    (problem : Problem α n)
    (path : List (Complex α))
    (track : Track α n) :
    (problem.trace path).outcome = .ok track ↔
      Corrector.check n problem.settings = .ok ⟨⟩ ∧
        problem.follow Track.empty path = .ok track := by
  rw [outcome_trace]
  cases Corrector.check n problem.settings with
  | error fault => simp [Except.mapError, bind, Except.bind]
  | ok accepted => simp [Except.mapError, bind, Except.bind]

end Problem
end RootTrace
