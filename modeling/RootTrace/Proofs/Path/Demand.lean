import RootTrace.Proofs.Newton.Endings
import RootTrace.Proofs.Path.Chain

/-!
# Demanding convergence

A demand for convergence has no part in any iteration. It only turns a call of the corrector
that used up its iterations into a failure. A path is therefore followed under the demand
exactly if it is followed without and every step converges, and to the same trajectory.
Otherwise it stops at the first step that does not converge or fails, and what happens
without the demand behind that step plays no part.
-/

namespace RootTrace

universe u

variable {α : Type u} {n : Nat}

/-- The same settings with or without a demand for convergence. -/
def Settings.demanding (settings : Settings α) (demanded : Bool) : Settings α :=
  { settings with requireConvergence := demanded }

namespace Corrector

/-- Turn roots that have not converged into a failure. -/
def insist (maxSteps : Nat) :
    Except (Failure α) (Correction α n) → Except (Failure α) (Correction α n)
  | .ok correction =>
      if correction.converged then .ok correction
      else .error ⟨[], .notConverged maxSteps correction.change⟩
  | .error failure => .error failure

variable {maxSteps : Nat} {outcome : Except (Failure α) (Correction α n)}
  {correction : Correction α n}

/-- Insisting on convergence lets pass exactly the corrections that converged. -/
theorem insist_eq_ok_iff :
    insist maxSteps outcome = .ok correction ↔
      outcome = .ok correction ∧ correction.converged = true := by
  cases outcome with
  | error failure => simp [insist]
  | ok found =>
      by_cases converged : found.converged = true
      · simp only [insist, if_pos converged, Except.ok.injEq]
        constructor
        · rintro rfl
          exact ⟨rfl, converged⟩
        · exact And.left
      · simp only [insist, if_neg converged, Except.ok.injEq, reduceCtorEq, false_iff]
        rintro ⟨rfl, converged'⟩
        exact converged converged'

/-- An iteration that ends a correction leaves nothing to insist on. -/
theorem Ending.insist_eq
    [Add α] [Sub α] [LT α] [Magnitude α]
    {step : Vector (Complex α) n → Option (Vector (Complex α) n)}
    {tolerance : α}
    {seed : Vector (Complex α) n}
    {number : Nat}
    (ending : Ending step tolerance seed number outcome) :
    insist maxSteps outcome = outcome := by
  cases ending <;> rfl

variable [Zero α] [One α] [Add α] [Sub α] [Mul α] [Neg α] [Div α] [BEq α]
  [LT α] [DecidableLT α] [Magnitude α]

theorem outcome_correct_demanding
    (system : RootSystem α)
    (settings : Settings α)
    (seed : Vector (Complex α) n)
    (q : Complex α) :
    (correct system (settings.demanding true) seed q).outcome =
      insist settings.maxSteps (correct system (settings.demanding false) seed q).outcome := by
  cases checked : check n settings with
  | error fault =>
      have refused : ∀ demanded, check n (settings.demanding demanded) = .error fault :=
        fun _ => checked
      rw [outcome_correct_of_check_error (refused true),
        outcome_correct_of_check_error (refused false)]
      rfl
  | ok accepted =>
      have allowed : ∀ demanded, check n (settings.demanding demanded) = .ok ⟨⟩ :=
        fun _ => checked
      rcases outcome_correct_cases system (allowed false) seed q with
        ⟨number, inside, answer, first, outcome⟩ | ⟨unended, last, final, before, after, outcome⟩
      · rw [outcome, first.ending.insist_eq]
        exact first.outcome_correct (settings.demanding true) (allowed true) inside
      · obtain ⟨last', final', before', after', outcome'⟩ :=
          Unended.outcome_correct (settings.demanding true) unended (allowed true)
        cases before.symm.trans before'
        cases after.symm.trans after'
        rw [outcome, outcome', outcome_giveUp, outcome_giveUp]
        rfl

end Corrector

/-- Recording a correction leaves the unconverged steps as they are exactly if it has
converged. -/
theorem Track.unconverged_record_eq_iff (track : Track α n) (correction : Correction α n) :
    (track.record correction).unconverged = track.unconverged ↔
      correction.converged = true := by
  cases converged : correction.converged with
  | true => simp [record, converged]
  | false => simp [record, converged]

namespace Problem

/-- The same problem with or without a demand for convergence. -/
def demanding (problem : Problem α n) (demanded : Bool) : Problem α n :=
  { problem with settings := problem.settings.demanding demanded }

variable [Zero α] [One α] [Add α] [Sub α] [Mul α] [Neg α] [Div α] [BEq α]
  [LT α] [DecidableLT α] [Magnitude α]

variable {problem : Problem α n} {track next reached : Track α n} {q : Complex α}
  {points path : List (Complex α)} {roots : Nat → Vector (Complex α) n} {step : Nat}

theorem outcome_correct_demanding
    (problem : Problem α n)
    (x : Vector (Complex α) n)
    (q : Complex α) :
    ((problem.demanding true).correct x q).outcome =
      Corrector.insist problem.settings.maxSteps
        ((problem.demanding false).correct x q).outcome :=
  Corrector.outcome_correct_demanding problem.system problem.settings x q

/-! ## Tracks without unconverged steps -/

theorem unconverged_prefix_of_follow (followed : problem.follow track points = .ok reached) :
    track.unconverged <+: reached.unconverged := by
  induction points generalizing track with
  | nil =>
      cases followed
      exact List.prefix_refl _
  | cons q points inductionHypothesis =>
      obtain ⟨next, first, rest⟩ := follow_cons_eq_ok_iff.mp followed
      obtain ⟨correction, _, rfl⟩ := (point_eq_ok_iff _ _ _ _).mp first
      refine List.IsPrefix.trans ?_ (inductionHypothesis rest)
      unfold Track.record
      split
      · exact List.prefix_refl _
      · exact List.prefix_append _ _

/-- What one point does under the demand. -/
theorem point_demanding_eq_ok_iff :
    (problem.demanding true).point track q = .ok next ↔
      (problem.demanding false).point track q = .ok next ∧
        next.unconverged = track.unconverged := by
  have called := problem.outcome_correct_demanding (track.latest problem.seed) q
  rw [point_eq_ok_iff, point_eq_ok_iff]
  constructor
  · rintro ⟨correction, corrected, rfl⟩
    obtain ⟨found, converged⟩ := Corrector.insist_eq_ok_iff.mp (called.symm.trans corrected)
    exact ⟨⟨correction, found, rfl⟩, (track.unconverged_record_eq_iff correction).mpr converged⟩
  · rintro ⟨⟨correction, found, rfl⟩, kept⟩
    have converged := (track.unconverged_record_eq_iff correction).mp kept
    exact ⟨correction, called.trans (Corrector.insist_eq_ok_iff.mpr ⟨found, converged⟩), rfl⟩

/-- What any points do under the demand. Unconverged steps are only ever added, so if there are as
many in the end, none was added on the way. -/
theorem follow_demanding_eq_ok_iff :
    (problem.demanding true).follow track points = .ok reached ↔
      (problem.demanding false).follow track points = .ok reached ∧
        reached.unconverged = track.unconverged := by
  induction points generalizing track with
  | nil =>
      constructor
      · intro followed
        cases followed
        exact ⟨rfl, rfl⟩
      · exact And.left
  | cons q points inductionHypothesis =>
      rw [follow_cons_eq_ok_iff, follow_cons_eq_ok_iff]
      constructor
      · rintro ⟨next, first, rest⟩
        obtain ⟨first', kept⟩ := point_demanding_eq_ok_iff.mp first
        obtain ⟨rest', kept'⟩ := inductionHypothesis.mp rest
        exact ⟨⟨next, first', rest'⟩, kept'.trans kept⟩
      · rintro ⟨⟨next, first, rest⟩, kept⟩
        have onFirst : track.unconverged <+: next.unconverged :=
          unconverged_prefix_of_follow (follow_cons_eq_ok_iff.mpr ⟨next, first, follow_nil _ _⟩)
        have onRest : next.unconverged <+: track.unconverged :=
          kept ▸ unconverged_prefix_of_follow rest
        have same : next.unconverged = track.unconverged :=
          onRest.eq_of_length_le onFirst.length_le
        exact ⟨next, point_demanding_eq_ok_iff.mpr ⟨first, same⟩,
          inductionHypothesis.mpr ⟨rest, kept.trans same.symm⟩⟩

/-! ## The first step that does not converge -/

/-- The calls of a chain that lie in front of a step have converged. -/
structure ConvergesUpTo (problem : Problem α n) (path : List (Complex α))
    (roots : Nat → Vector (Complex α) n) (step : Nat) : Prop where
  chain : problem.Chain (path.take step) roots
  converged : ∀ earlier < step, ¬ problem.UnconvergedAt path roots earlier

/-- The calls that have converged without the demand are the calls under the demand. -/
theorem convergesUpTo_iff_chain_demanding :
    (problem.demanding false).ConvergesUpTo path roots step ↔
      (problem.demanding true).Chain (path.take step) roots := by
  constructor
  · intro converges
    refine ⟨converges.chain.start, ?_⟩
    intro earlier inside
    obtain ⟨correction, corrected, arrived⟩ := converges.chain.link earlier inside
    refine ⟨correction, ?_, arrived⟩
    rw [outcome_correct_demanding, Corrector.insist_eq_ok_iff]
    refine ⟨corrected, ?_⟩
    rw [List.length_take] at inside
    rw [List.getElem_take] at corrected
    by_contra unconverged
    exact converges.converged earlier (by omega) ⟨path[earlier], correction,
      List.getElem?_eq_getElem (by omega), corrected, Bool.eq_false_iff.mpr unconverged⟩
  · intro chain
    have converged : ∀ earlier (inside : earlier < (path.take step).length), ∃ correction,
        ((problem.demanding false).correct (roots earlier) (path.take step)[earlier]).outcome =
            .ok correction ∧
          correction.converged = true ∧ correction.roots = roots (earlier + 1) := by
      intro earlier inside
      obtain ⟨correction, corrected, arrived⟩ := chain.link earlier inside
      rw [outcome_correct_demanding, Corrector.insist_eq_ok_iff] at corrected
      exact ⟨correction, corrected.1, corrected.2, arrived⟩
    refine ⟨⟨chain.start, ?_⟩, ?_⟩
    · intro earlier inside
      obtain ⟨correction, corrected, _, arrived⟩ := converged earlier inside
      exact ⟨correction, corrected, arrived⟩
    · rintro earlier before ⟨q, other, atStep, found, unconverged⟩
      obtain ⟨inside, rfl⟩ := List.getElem?_eq_some_iff.mp atStep
      obtain ⟨correction, corrected, hasConverged, _⟩ :=
        converged earlier (by rw [List.length_take]; omega)
      rw [List.getElem_take] at corrected
      cases corrected.symm.trans found
      exact Bool.false_ne_true (unconverged.symm.trans hasConverged)

/-- A call that fails behind a chain is what the whole path comes to. -/
theorem outcome_trajectory_of_failure
    {inner : Failure α}
    (nonempty : n ≠ 0)
    (valid : problem.settings.check = .ok ⟨⟩)
    (atStep : path[step]? = some q)
    (chain : problem.Chain (path.take step) roots)
    (failed : (problem.correct (roots step) q).outcome = .error inner) :
    (problem.trajectory path).outcome = .error (inner.within (.pathStep step q)) := by
  obtain ⟨inside, rfl⟩ := List.getElem?_eq_some_iff.mp atStep
  have stopped := trajectory_of_failure nonempty valid inside chain failed (path.drop (step + 1))
  rw [List.take_append_drop] at stopped
  rw [stopped]

/-- The demand stops a path at the first step that does not converge or fails. -/
theorem ConvergesUpTo.outcome_trajectory
    {inner : Failure α}
    (converges : (problem.demanding false).ConvergesUpTo path roots step)
    (nonempty : n ≠ 0)
    (valid : problem.settings.check = .ok ⟨⟩)
    (atStep : path[step]? = some q)
    (failed : Corrector.insist problem.settings.maxSteps
      ((problem.demanding false).correct (roots step) q).outcome = .error inner) :
    ((problem.demanding true).trajectory path).outcome =
      .error (inner.within (.pathStep step q)) := by
  rw [← outcome_correct_demanding] at failed
  exact outcome_trajectory_of_failure nonempty valid atStep
    (convergesUpTo_iff_chain_demanding.mp converges) failed

/-- Under the demand a trajectory is the one without it, if that has no unconverged steps. -/
theorem outcome_trajectory_demanding_eq_ok_iff
    {trajectory : Trajectory α}
    (accepted : Corrector.check n problem.settings = .ok ⟨⟩) :
    ((problem.demanding true).trajectory path).outcome = .ok trajectory ↔
      ((problem.demanding false).trajectory path).outcome = .ok trajectory ∧
        trajectory.unconvergedSteps = [] := by
  rw [outcome_trajectory_eq_ok_iff (problem.demanding true) accepted,
    outcome_trajectory_eq_ok_iff (problem.demanding false) accepted]
  constructor
  · rintro ⟨track, followed, rfl⟩
    obtain ⟨followed', none⟩ := follow_demanding_eq_ok_iff.mp followed
    exact ⟨⟨track, followed', rfl⟩, none⟩
  · rintro ⟨⟨track, followed, rfl⟩, none⟩
    exact ⟨track, follow_demanding_eq_ok_iff.mpr ⟨followed, none⟩, rfl⟩

/-- Under the demand a path is followed to its end, or there is a step that stops it. -/
theorem exists_trajectory_or_stop
    (problem : Problem α n)
    (nonempty : n ≠ 0)
    (valid : problem.settings.check = .ok ⟨⟩)
    (path : List (Complex α)) :
    (∃ trajectory, ((problem.demanding true).trajectory path).outcome = .ok trajectory) ∨
      ∃ step q roots,
        path[step]? = some q ∧
        (problem.demanding false).ConvergesUpTo path roots step ∧
        ((∃ correction,
            ((problem.demanding false).correct (roots step) q).outcome = .ok correction ∧
              correction.converged = false) ∨
          ∃ inner,
            ((problem.demanding false).correct (roots step) q).outcome = .error inner) := by
  by_cases chained : ∃ roots, (problem.demanding true).Chain path roots
  · obtain ⟨roots, chain⟩ := chained
    have valid' : (problem.demanding true).settings.check = .ok ⟨⟩ := valid
    obtain ⟨trajectory, succeeded, _⟩ := trajectory_of_chain nonempty valid' chain
    exact .inl ⟨trajectory, succeeded⟩
  · obtain ⟨step, inside, roots, inner, chain, failed⟩ := exists_failure_of_no_chain chained
    refine .inr ⟨step, path[step], roots, List.getElem?_eq_getElem inside,
      convergesUpTo_iff_chain_demanding.mpr chain, ?_⟩
    rw [outcome_correct_demanding] at failed
    cases called : ((problem.demanding false).correct (roots step) path[step]).outcome with
    | error inner => exact .inr ⟨inner, rfl⟩
    | ok correction =>
        refine .inl ⟨correction, rfl, ?_⟩
        by_contra converged
        rw [called, Corrector.insist_eq_ok_iff.mpr ⟨rfl, by simpa using converged⟩] at failed
        cases failed

/-- A demand for convergence turns the first step that does not converge into a failure, and
does nothing else. Under the demand a path leads to a trajectory exactly if it leads to the
same trajectory without, and that has no unconverged steps. If all steps in front of some
step converge, then the demand stops there for want of convergence when that step does not
converge, with the change that it was left with, and for the same cause when it fails. There
is such a step unless there is a trajectory. -/
theorem demand_stops_at_first_unconverged_step
    (problem : Problem α n)
    (nonempty : n ≠ 0)
    (valid : problem.settings.check = .ok ⟨⟩)
    (path : List (Complex α)) :
    (∀ trajectory,
      ((problem.demanding true).trajectory path).outcome = .ok trajectory ↔
        ((problem.demanding false).trajectory path).outcome = .ok trajectory ∧
          trajectory.unconvergedSteps = []) ∧
    (∀ step q roots correction,
      path[step]? = some q →
      (problem.demanding false).ConvergesUpTo path roots step →
      ((problem.demanding false).correct (roots step) q).outcome = .ok correction →
      correction.converged = false →
        ((problem.demanding true).trajectory path).outcome =
          .error ⟨[.pathStep step q],
            .notConverged problem.settings.maxSteps correction.change⟩) ∧
    (∀ step q roots inner,
      path[step]? = some q →
      (problem.demanding false).ConvergesUpTo path roots step →
      ((problem.demanding false).correct (roots step) q).outcome = .error inner →
        ((problem.demanding false).trajectory path).outcome =
            .error (inner.within (.pathStep step q)) ∧
          ((problem.demanding true).trajectory path).outcome =
            .error (inner.within (.pathStep step q))) ∧
    ((∃ trajectory, ((problem.demanding true).trajectory path).outcome = .ok trajectory) ∨
      ∃ step q roots,
        path[step]? = some q ∧
        (problem.demanding false).ConvergesUpTo path roots step ∧
        ((∃ correction,
            ((problem.demanding false).correct (roots step) q).outcome = .ok correction ∧
              correction.converged = false) ∨
          ∃ inner,
            ((problem.demanding false).correct (roots step) q).outcome = .error inner)) ∧
    (∀ trajectory,
      ((problem.demanding true).trajectory path).outcome = .ok trajectory →
        trajectory.converged = true) := by
  have accepted := Corrector.check_eq_ok_iff.mpr ⟨nonempty, valid⟩
  refine ⟨?_, ?_, ?_, exists_trajectory_or_stop problem nonempty valid path, ?_⟩
  · intro trajectory
    exact outcome_trajectory_demanding_eq_ok_iff accepted
  · intro step q roots correction atStep converges corrected unconverged
    have insisted : Corrector.insist problem.settings.maxSteps
        ((problem.demanding false).correct (roots step) q).outcome =
          .error ⟨[], .notConverged problem.settings.maxSteps correction.change⟩ := by
      rw [corrected, Corrector.insist, if_neg (Bool.eq_false_iff.mp unconverged)]
    exact converges.outcome_trajectory nonempty valid atStep insisted
  · intro step q roots inner atStep converges failed
    constructor
    · exact outcome_trajectory_of_failure nonempty valid atStep converges.chain failed
    · refine converges.outcome_trajectory nonempty valid atStep ?_
      rw [failed, Corrector.insist]
  · intro trajectory succeeded
    have none := ((outcome_trajectory_demanding_eq_ok_iff accepted).mp succeeded).2
    rw [Trajectory.converged, none]
    rfl

/-- The square root of the parameter from five halves, with a single iteration at each
point. -/
def fromFiveHalves : Problem Float 1 where
  system := RootSystem.squares
  settings := { Settings.standard with maxSteps := 1 }
  seed := #v[⟨2.5, 0⟩]

/-- Five halves are found to be the first root. The only iteration at four still changes them,
which ends the path under the demand, whatever the point behind it is. -/
theorem demand_stops_fromFiveHalves :
    ((fromFiveHalves.demanding true).trajectory [⟨6.25, 0⟩, ⟨4, 0⟩, ⟨0, 0⟩]).outcome =
      .error ⟨[.pathStep 1 ⟨4, 0⟩], .notConverged 1 0.4500000000000002⟩ := by
  have valid : fromFiveHalves.settings.check = .ok ⟨⟩ := by
    decide +kernel
  have converges : (fromFiveHalves.demanding false).ConvergesUpTo
      [⟨6.25, 0⟩, ⟨4, 0⟩, ⟨0, 0⟩] (fun _ => #v[⟨2.5, 0⟩]) 1 := by
    have called : ((fromFiveHalves.demanding true).correct #v[⟨2.5, 0⟩] ⟨6.25, 0⟩).outcome =
        .ok ⟨#v[⟨2.5, 0⟩], 1, true, 0⟩ := by
      decide +kernel
    refine convergesUpTo_iff_chain_demanding.mpr ⟨rfl, ?_⟩
    intro step inside
    obtain rfl : step = 0 := Nat.lt_one_iff.mp inside
    exact ⟨⟨#v[⟨2.5, 0⟩], 1, true, 0⟩, called, rfl⟩
  have corrected : ((fromFiveHalves.demanding false).correct #v[⟨2.5, 0⟩] ⟨4, 0⟩).outcome =
      .ok ⟨#v[⟨2.05, 0⟩], 1, false, 0.4500000000000002⟩ := by
    decide +kernel
  obtain ⟨_, unconverged, _⟩ := demand_stops_at_first_unconverged_step fromFiveHalves
    one_ne_zero valid [⟨6.25, 0⟩, ⟨4, 0⟩, ⟨0, 0⟩]
  exact unconverged 1 ⟨4, 0⟩ _ _ rfl converges corrected rfl

end Problem
end RootTrace
