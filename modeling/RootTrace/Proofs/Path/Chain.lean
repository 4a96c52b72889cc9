import RootTrace.Proofs.Newton.Iteration
import RootTrace.Proofs.Path.Follow
import RootTrace.Proofs.Path.Transpose

/-!
# A path is a chain of corrections

Following a path calls the corrector once at every point, from the roots that the
call before it returned, whether or not these had converged. The path succeeds
exactly if all these calls do. Its trajectory then holds what they returned and the
steps that did not converge, and its record is put together from theirs. If a call
fails, the path fails for the same cause, and what comes behind that point plays no
part.
-/

namespace RootTrace
namespace Problem

universe u

variable {α : Type u} {n : Nat}
variable [Zero α] [One α] [Add α] [Sub α] [Mul α] [Neg α] [Div α] [BEq α]
  [LT α] [DecidableLT α] [Magnitude α]

/-! ## Chains -/

/-- Correct any roots at a parameter, with the system and the settings of a problem. -/
def correct (problem : Problem α n) (x : Vector (Complex α) n) (q : Complex α) :
    Run α (Correction α n) :=
  Corrector.correct problem.system problem.settings x q

/-- Roots that start at the seed and lead from each point of a path to the next by one
call of the corrector. -/
structure Chain (problem : Problem α n) (path : List (Complex α))
    (roots : Nat → Vector (Complex α) n) : Prop where
  start : roots 0 = problem.seed
  link : ∀ step (inside : step < path.length), ∃ correction,
    (problem.correct (roots step) path[step]).outcome = .ok correction ∧
      correction.roots = roots (step + 1)

/-- The call at a step of a chain returned roots that had not converged. -/
def UnconvergedAt (problem : Problem α n) (path : List (Complex α))
    (roots : Nat → Vector (Complex α) n) (step : Nat) : Prop :=
  ∃ q correction, path[step]? = some q ∧
    (problem.correct (roots step) q).outcome = .ok correction ∧
      correction.converged = false

/-- What the calls of a chain record, one after the other. -/
def callEvents (problem : Problem α n) (path : List (Complex α))
    (roots : Nat → Vector (Complex α) n) : List (Event α) :=
  path.zipIdx.flatMap fun point => (problem.correct (roots point.2) point.1).events

variable {problem : Problem α n} {path : List (Complex α)} {q : Complex α}
  {roots : Nat → Vector (Complex α) n} {track : Track α n}
  {correction : Correction α n}

theorem chain_nil_iff : problem.Chain [] roots ↔ roots 0 = problem.seed := by
  constructor
  · intro chain
    exact chain.start
  · intro start
    refine ⟨start, ?_⟩
    intro step inside
    cases inside

/-- One more point prolongs a chain by one more correction, from the roots at its end. -/
theorem chain_concat_iff :
    problem.Chain (path ++ [q]) roots ↔
      problem.Chain path roots ∧ ∃ correction,
        (problem.correct (roots path.length) q).outcome = .ok correction ∧
          correction.roots = roots (path.length + 1) := by
  constructor
  · intro chain
    refine ⟨⟨chain.start, ?_⟩, ?_⟩
    · intro step inside
      have called := chain.link step (by simp; omega)
      rwa [List.getElem_append_left inside] at called
    · have called := chain.link path.length (by simp)
      rwa [List.getElem_concat_length rfl] at called
  · rintro ⟨chain, last⟩
    refine ⟨chain.start, ?_⟩
    intro step inside
    by_cases earlier : step < path.length
    · rw [List.getElem_append_left earlier]
      exact chain.link step earlier
    · have atEnd : step = path.length := by
        rw [List.length_append, List.length_singleton] at inside
        omega
      subst atEnd
      rwa [List.getElem_concat_length rfl]

/-- Only the roots up to the end of the path belong to a chain. -/
theorem Chain.congr
    {others : Nat → Vector (Complex α) n}
    (chain : problem.Chain path roots)
    (same : ∀ step ≤ path.length, others step = roots step) :
    problem.Chain path others := by
  refine ⟨(same 0 (Nat.zero_le _)).trans chain.start, ?_⟩
  intro step inside
  rw [same step inside.le, same (step + 1) inside]
  exact chain.link step inside

theorem callEvents_concat :
    problem.callEvents (path ++ [q]) roots =
      problem.callEvents path roots ++
        (problem.correct (roots path.length) q).events := by
  simp [callEvents, List.zipIdx_append]

/-- One more point adds its own step to those that did not converge, or none. -/
theorem unconvergedAt_concat_iff (step : Nat) :
    problem.UnconvergedAt (path ++ [q]) roots step ↔
      problem.UnconvergedAt path roots step ∨
        step = path.length ∧ ∃ correction,
          (problem.correct (roots path.length) q).outcome = .ok correction ∧
            correction.converged = false := by
  unfold UnconvergedAt
  rcases Nat.lt_trichotomy step path.length with earlier | rfl | later
  · rw [List.getElem?_append_left earlier]
    simp [earlier.ne]
  · rw [List.getElem?_concat_length, List.getElem?_eq_none (Nat.le_refl _)]
    simp
  · have outside : (path ++ [q]).length ≤ step := by
      simpa using later
    rw [List.getElem?_eq_none outside, List.getElem?_eq_none later.le]
    simp [later.ne']

/-! ## One point -/

theorem advance_of_ok
    (corrected : (problem.correct (track.latest problem.seed) q).outcome = .ok correction) :
    problem.advance track q =
      ⟨(problem.correct (track.latest problem.seed) q).events,
        .ok (track.record correction)⟩ := by
  rw [advance, Run.map_eq, Run.outcome_within, Run.events_within, ← correct, corrected]
  rfl

/-- A correction that fails ends the step with its failure, which names the step and the point. -/
theorem advance_of_error
    {inner : Failure α}
    (failed : (problem.correct (track.latest problem.seed) q).outcome = .error inner) :
    problem.advance track q =
      ⟨(problem.correct (track.latest problem.seed) q).events,
        .error (inner.within (.pathStep track.length q))⟩ := by
  rw [advance, Run.map_eq, Run.outcome_within, Run.events_within, ← correct, failed]
  rfl

/-- A track that holds what the calls of a chain returned. -/
structure Holds (problem : Problem α n) (path : List (Complex α))
    (roots : Nat → Vector (Complex α) n) (track : Track α n) : Prop where
  steps : track.steps = (List.range path.length).map fun step => roots (step + 1)
  increasing : track.unconverged.Pairwise (· < ·)
  unconverged : ∀ step, step ∈ track.unconverged ↔ problem.UnconvergedAt path roots step

namespace Holds

theorem length (holds : problem.Holds path roots track) : track.length = path.length := by
  rw [Track.length, holds.steps, List.length_map, List.length_range]

/-- The next call starts where the chain stands. -/
theorem latest
    (holds : problem.Holds path roots track)
    (start : roots 0 = problem.seed) :
    track.latest problem.seed = roots path.length := by
  rw [Track.latest, holds.steps]
  cases counted : path.length with
  | zero => exact start.symm
  | succ before => simp [List.range_succ]

theorem empty : problem.Holds [] roots Track.empty := by
  refine ⟨rfl, List.Pairwise.nil, ?_⟩
  intro step
  simp [UnconvergedAt, Track.empty]

/-- What one point preserves. -/
theorem record
    (holds : problem.Holds path roots track)
    (corrected : (problem.correct (roots path.length) q).outcome = .ok correction)
    (arrived : correction.roots = roots (path.length + 1)) :
    problem.Holds (path ++ [q]) roots (track.record correction) := by
  have inside : ∀ step ∈ track.unconverged, step < path.length := by
    intro step member
    obtain ⟨q, _, atStep, _⟩ := (holds.unconverged step).mp member
    exact (List.getElem?_eq_some_iff.mp atStep).1
  refine ⟨?_, ?_, ?_⟩
  · simp [Track.record, holds.steps, arrived, List.range_succ]
  · unfold Track.record
    by_cases converged : correction.converged
    · simpa [converged] using holds.increasing
    · simp only [converged, Bool.false_eq_true, if_false, List.pairwise_append,
        List.pairwise_singleton, List.mem_singleton, true_and]
      refine ⟨holds.increasing, ?_⟩
      rintro step member _ rfl
      rw [holds.length]
      exact inside step member
  · intro step
    rw [unconvergedAt_concat_iff, ← holds.unconverged step, corrected]
    cases converged : correction.converged with
    | true => simp [Track.record, converged]
    | false => simp [Track.record, converged, holds.length]

end Holds

/-! ## All points -/

/-- The calls of a chain carry a path to its end. -/
theorem foldlM_advance_of_chain (chain : problem.Chain path roots) :
    ∃ track, problem.Holds path roots track ∧
      path.foldlM problem.advance Track.empty =
        ⟨problem.callEvents path roots, .ok track⟩ := by
  induction path using List.reverseRecOn with
  | nil => exact ⟨Track.empty, .empty, rfl⟩
  | append_singleton path q inductionHypothesis =>
      obtain ⟨front, correction, corrected, arrived⟩ := chain_concat_iff.mp chain
      obtain ⟨track, holds, followed⟩ := inductionHypothesis front
      refine ⟨track.record correction, holds.record corrected arrived, ?_⟩
      have called := corrected
      rw [← holds.latest chain.start] at called
      rw [Run.foldlM_append_of_ok followed, List.foldlM_cons, advance_of_ok called,
        callEvents_concat, holds.latest chain.start]
      simp [bind, Run.andThen, pure, Run.succeed]

theorem Chain.holds
    (chain : problem.Chain path roots)
    (followed : problem.follow Track.empty path = .ok track) :
    problem.Holds path roots track := by
  obtain ⟨reached, holds, whole⟩ := foldlM_advance_of_chain chain
  have outcome := Run.outcome_foldlM problem.advance Track.empty path
  rw [whole] at outcome
  cases outcome.trans followed
  exact holds

/-- A chain goes on as long as the calls succeed. -/
theorem Chain.extend
    (chain : problem.Chain path roots)
    (corrected : (problem.correct (roots path.length) q).outcome = .ok correction) :
    problem.Chain (path ++ [q])
      (Function.update roots (path.length + 1) correction.roots) := by
  have same : ∀ step ≤ path.length,
      Function.update roots (path.length + 1) correction.roots step = roots step := by
    intro step bounded
    exact Function.update_of_ne (by omega) _ _
  refine chain_concat_iff.mpr ⟨chain.congr same, correction, ?_, ?_⟩
  · rwa [same path.length (Nat.le_refl _)]
  · rw [Function.update_self]

/-- A path that succeeds has a chain. -/
theorem chain_of_follow (followed : problem.follow Track.empty path = .ok track) :
    ∃ roots, problem.Chain path roots := by
  induction path using List.reverseRecOn generalizing track with
  | nil => exact ⟨fun _ => problem.seed, chain_nil_iff.mpr rfl⟩
  | append_singleton path q inductionHypothesis =>
      obtain ⟨before, front, last⟩ := follow_concat_eq_ok_iff.mp followed
      obtain ⟨roots, chain⟩ := inductionHypothesis front
      obtain ⟨correction, corrected, _⟩ := (point_eq_ok_iff _ _ _ _).mp last
      rw [(chain.holds front).latest chain.start] at corrected
      exact ⟨_, chain.extend corrected⟩

/-! ## The first call that fails -/

/-- A chain leads to a call that fails, whatever comes behind it. -/
theorem foldlM_advance_of_failure
    {inner : Failure α}
    (chain : problem.Chain path roots)
    (failed : (problem.correct (roots path.length) q).outcome = .error inner)
    (later : List (Complex α)) :
    (path ++ q :: later).foldlM problem.advance Track.empty =
      ⟨problem.callEvents (path ++ [q]) roots,
        .error (inner.within (.pathStep path.length q))⟩ := by
  obtain ⟨track, holds, followed⟩ := foldlM_advance_of_chain chain
  have latest := holds.latest chain.start
  rw [← latest] at failed
  rw [Run.foldlM_append_of_ok followed, List.foldlM_cons, callEvents_concat,
    Run.bind_of_error (by rw [advance_of_error failed]), advance_of_error failed, latest,
    holds.length]

/-- If there is no chain to the end of a path, one leads to a call that fails. -/
theorem exists_failure_of_no_chain (broken : ¬ ∃ roots, problem.Chain path roots) :
    ∃ step, ∃ inside : step < path.length, ∃ roots inner,
      problem.Chain (path.take step) roots ∧
        (problem.correct (roots step) path[step]).outcome = .error inner := by
  cases followed : problem.follow Track.empty path with
  | ok track => exact absurd (chain_of_follow followed) broken
  | error failure =>
      obtain ⟨step, before, failsAt⟩ :=
        (problem.follow_eq_error_iff Track.empty path failure).mp followed
      obtain ⟨roots, chain⟩ := chain_of_follow failsAt.reached
      obtain ⟨inner, failed, _⟩ := (point_eq_error_iff _ _ _ _).mp failsAt.fails
      have length : (path.take step).length = step :=
        List.length_take_of_le failsAt.inside.le
      rw [(chain.holds failsAt.reached).latest chain.start, length] at failed
      exact ⟨step, failsAt.inside, roots, inner, chain, failed⟩

/-! ## The whole run -/

/-- The trajectory along a path. -/
def trajectory (problem : Problem α n) (path : List (Complex α)) :
    Run α (Trajectory α) :=
  Track.trajectory <$> problem.trace path

theorem exists_track_of_trajectory
    {trajectory : Trajectory α}
    (succeeded : (problem.trajectory path).outcome = .ok trajectory) :
    ∃ track, (problem.trace path).outcome = .ok track ∧ track.trajectory = trajectory := by
  rw [Problem.trajectory, Run.outcome_map] at succeeded
  cases followed : (problem.trace path).outcome with
  | error failure =>
      rw [followed] at succeeded
      cases succeeded
  | ok track =>
      rw [followed] at succeeded
      cases succeeded
      exact ⟨track, rfl, rfl⟩

theorem outcome_trajectory
    (problem : Problem α n)
    (accepted : Corrector.check n problem.settings = .ok ⟨⟩)
    (path : List (Complex α)) :
    (problem.trajectory path).outcome =
      (problem.follow Track.empty path).map Track.trajectory := by
  rw [trajectory, Run.outcome_map, outcome_trace_of_check_ok accepted]
  rfl

/-- A trajectory is what a path that can be followed leaves on its track. -/
theorem outcome_trajectory_eq_ok_iff
    (problem : Problem α n)
    {trajectory : Trajectory α}
    (accepted : Corrector.check n problem.settings = .ok ⟨⟩) :
    (problem.trajectory path).outcome = .ok trajectory ↔
      ∃ track, problem.follow Track.empty path = .ok track ∧ track.trajectory = trajectory := by
  rw [outcome_trajectory problem accepted]
  cases problem.follow Track.empty path with
  | error failure => simp [Except.map]
  | ok track => simp [Except.map]

theorem outcome_trajectory_eq_error_iff
    (problem : Problem α n)
    {failure : Failure α}
    (accepted : Corrector.check n problem.settings = .ok ⟨⟩) :
    (problem.trajectory path).outcome = .error failure ↔
      problem.follow Track.empty path = .error failure := by
  rw [outcome_trajectory problem accepted]
  cases problem.follow Track.empty path with
  | error failure => simp [Except.map]
  | ok track => simp [Except.map]

/-- A problem that is turned down fails without circumstances. -/
theorem trajectory_of_check_error
    {fault : Fault α}
    (refused : Corrector.check n problem.settings = .error fault)
    (path : List (Complex α)) :
    (problem.trajectory path).outcome = .error (.ofFault fault) := by
  rw [trajectory, Run.outcome_map, outcome_trace, refused]
  rfl

/-- Around what a path records as it is followed, a trajectory records its start and its end. -/
theorem trajectory_of_ok
    {events : List (Event α)}
    (accepted : Corrector.check n problem.settings = .ok ⟨⟩)
    (followed : path.foldlM problem.advance Track.empty = ⟨events, .ok track⟩) :
    problem.trajectory path =
      ⟨.pathStarted n path.length :: events ++ [.pathFinished track.unconverged.length],
        .ok track.trajectory⟩ := by
  rw [trajectory, trace, followed, Run.ofCheck, accepted]
  simp [bind, Functor.map, Run.andThen, Run.emit, pure, Run.succeed, Except.mapError]

theorem trajectory_of_error
    {events : List (Event α)}
    {failure : Failure α}
    (accepted : Corrector.check n problem.settings = .ok ⟨⟩)
    (followed : path.foldlM problem.advance Track.empty = ⟨events, .error failure⟩) :
    problem.trajectory path =
      ⟨.pathStarted n path.length :: events, .error failure⟩ := by
  rw [trajectory, trace, followed, Run.ofCheck, accepted]
  simp [bind, Functor.map, Run.andThen, Run.emit, Except.mapError]

/-! ## What a trajectory holds -/

/-- A trajectory that holds what the calls of a chain returned: one list per root with
one value per point, and the steps that had not converged. -/
structure Reads (problem : Problem α n) (path : List (Complex α))
    (roots : Nat → Vector (Complex α) n) (trajectory : Trajectory α) : Prop where
  components : trajectory.components = List.ofFn fun k : Fin n =>
    (List.range path.length).map fun step => (roots (step + 1)).get k
  rootsAt : ∀ step, trajectory.rootsAt step =
    .ok (if step < path.length then some (roots (step + 1)).toList else none)
  start : trajectory.start =
    .ok (if path.length = 0 then none else some (roots 1).toList)
  finish : trajectory.finish =
    .ok (if path.length = 0 then none else some (roots path.length).toList)
  increasing : trajectory.unconvergedSteps.Pairwise (· < ·)
  unconverged : ∀ step, step ∈ trajectory.unconvergedSteps ↔
    problem.UnconvergedAt path roots step

/-- Whatever is read off the trajectory of a track are the roots of the chain. -/
theorem Holds.reads
    (holds : problem.Holds path roots track)
    (nonempty : n ≠ 0) :
    problem.Reads path roots track.trajectory := by
  have atStep : ∀ step, track.steps[step]? =
      if step < path.length then some (roots (step + 1)) else none := by
    intro step
    rw [holds.steps, List.getElem?_map]
    by_cases inside : step < path.length
    · simp [inside]
    · simp [inside]
  have rootsAt : ∀ step, track.trajectory.rootsAt step =
      .ok (if step < path.length then some (roots (step + 1)).toList else none) := by
    intro step
    rw [track.rootsAt_trajectory nonempty, atStep]
    by_cases inside : step < path.length
    · simp [inside]
    · simp [inside]
  refine ⟨?_, rootsAt, ?_, ?_, holds.increasing, holds.unconverged⟩
  · rw [Track.trajectory, holds.steps, List.ofFn_eq_map]
    simp
  · rw [Trajectory.start, rootsAt]
    by_cases vacant : path.length = 0
    · simp [vacant]
    · simp [vacant, Nat.pos_of_ne_zero vacant]
  · rw [Trajectory.finish, track.length_trajectory nonempty, holds.length]
    cases counted : path.length with
    | zero => rfl
    | succ before => simp [rootsAt, counted]

/-- The calls of a chain make the trajectory. -/
theorem trajectory_of_chain
    (nonempty : n ≠ 0)
    (valid : problem.settings.check = .ok ⟨⟩)
    (chain : problem.Chain path roots) :
    ∃ trajectory, (problem.trajectory path).outcome = .ok trajectory ∧
      problem.Reads path roots trajectory := by
  obtain ⟨track, holds, followed⟩ := foldlM_advance_of_chain chain
  refine ⟨track.trajectory, ?_, holds.reads nonempty⟩
  rw [trajectory_of_ok (Corrector.check_eq_ok_iff.mpr ⟨nonempty, valid⟩) followed]

/-- A call that fails ends the run, whatever points come behind it. -/
theorem trajectory_of_failure
    {step : Nat}
    {inner : Failure α}
    (nonempty : n ≠ 0)
    (valid : problem.settings.check = .ok ⟨⟩)
    (inside : step < path.length)
    (chain : problem.Chain (path.take step) roots)
    (failed : (problem.correct (roots step) path[step]).outcome = .error inner)
    (later : List (Complex α)) :
    problem.trajectory (path.take (step + 1) ++ later) =
      ⟨.pathStarted n (step + 1 + later.length) ::
          problem.callEvents (path.take (step + 1)) roots,
        .error (inner.within (.pathStep step path[step]))⟩ := by
  have length : (path.take step).length = step := List.length_take_of_le inside.le
  have last : path.take (step + 1) = path.take step ++ [path[step]] :=
    List.take_succ_eq_append_getElem inside
  have stopped := foldlM_advance_of_failure chain (by rwa [length]) later
  rw [length, ← last, List.append_cons, ← last] at stopped
  rw [trajectory_of_error (Corrector.check_eq_ok_iff.mpr ⟨nonempty, valid⟩) stopped,
    List.length_append, List.length_take_of_le inside]

/-- Following a path is making a chain of calls of the corrector. It succeeds exactly if
there is such a chain, and the trajectory then holds what the calls returned. Otherwise
it fails at the first call that fails, for the same cause, and neither its outcome nor
its record depends on the points behind that call. -/
theorem trajectory_is_chain_of_corrections
    (problem : Problem α n)
    (nonempty : n ≠ 0)
    (valid : problem.settings.check = .ok ⟨⟩)
    (path : List (Complex α)) :
    ((∃ trajectory, (problem.trajectory path).outcome = .ok trajectory) ↔
      ∃ roots, problem.Chain path roots) ∧
    (∀ trajectory roots,
      (problem.trajectory path).outcome = .ok trajectory →
      problem.Chain path roots →
      problem.Reads path roots trajectory) ∧
    ((¬ ∃ roots, problem.Chain path roots) →
      ∃ step q roots inner,
        path[step]? = some q ∧
        problem.Chain (path.take step) roots ∧
        (problem.correct (roots step) q).outcome = .error inner ∧
        (problem.trajectory path).outcome = .error (inner.within (.pathStep step q)) ∧
        ∀ later, problem.trajectory (path.take (step + 1) ++ later) =
          ⟨.pathStarted n (step + 1 + later.length) ::
              problem.callEvents (path.take (step + 1)) roots,
            .error (inner.within (.pathStep step q))⟩) := by
  refine ⟨⟨?_, ?_⟩, ?_, ?_⟩
  · rintro ⟨trajectory, succeeded⟩
    by_contra broken
    obtain ⟨step, inside, roots, inner, chain, failed⟩ := exists_failure_of_no_chain broken
    have stopped :=
      trajectory_of_failure nonempty valid inside chain failed (path.drop (step + 1))
    rw [List.take_append_drop] at stopped
    rw [stopped] at succeeded
    cases succeeded
  · rintro ⟨roots, chain⟩
    obtain ⟨trajectory, succeeded, _⟩ := trajectory_of_chain nonempty valid chain
    exact ⟨trajectory, succeeded⟩
  · intro trajectory roots succeeded chain
    obtain ⟨reached, arrived, reads⟩ := trajectory_of_chain nonempty valid chain
    cases arrived.symm.trans succeeded
    exact reads
  · intro broken
    obtain ⟨step, inside, roots, inner, chain, failed⟩ := exists_failure_of_no_chain broken
    have stopped := trajectory_of_failure nonempty valid inside chain failed
    have whole := stopped (path.drop (step + 1))
    rw [List.take_append_drop] at whole
    refine ⟨step, path[step], roots, inner, List.getElem?_eq_getElem inside, chain, failed,
      ?_, stopped⟩
    rw [whole]

/-- The square root of the parameter from one, with a single iteration at each point. -/
def singleIteration : Problem Float 1 where
  system := RootSystem.squares
  settings := { Settings.standard with maxSteps := 1 }
  seed := #v[⟨1, 0⟩]

/-- At four the only iteration arrives at five halves and has not converged. The next
point starts there nevertheless, and finds five halves to be its root. -/
theorem chain_of_singleIteration :
    (1 : Nat) ≠ 0 ∧ singleIteration.settings.check = .ok ⟨⟩ ∧
      ∃ roots, singleIteration.Chain [⟨4, 0⟩, ⟨6.25, 0⟩] roots ∧
        singleIteration.Reads [⟨4, 0⟩, ⟨6.25, 0⟩] roots
          ⟨[[⟨2.5, 0⟩, ⟨2.5, 0⟩]], [0]⟩ := by
  have valid : singleIteration.settings.check = .ok ⟨⟩ := by
    decide +kernel
  have succeeded : (singleIteration.trajectory [⟨4, 0⟩, ⟨6.25, 0⟩]).outcome =
      .ok ⟨[[⟨2.5, 0⟩, ⟨2.5, 0⟩]], [0]⟩ := by
    decide +kernel
  obtain ⟨chains, reads, _⟩ :=
    trajectory_is_chain_of_corrections singleIteration one_ne_zero valid
      [⟨4, 0⟩, ⟨6.25, 0⟩]
  obtain ⟨roots, chain⟩ := chains.mp ⟨_, succeeded⟩
  exact ⟨one_ne_zero, valid, roots, chain, reads _ roots succeeded chain⟩

end Problem
end RootTrace
