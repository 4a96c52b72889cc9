import RootTrace.Proofs.Finiteness.Corrections
import RootTrace.Proofs.Newton.Endings

/-!
# What a correction can come to

A correction that succeeds ends with a step, and what it hands out is what this step made of
the roots before it. A correction that fails does so for one of five causes: there are no
roots, the settings are turned down, an iteration meets a singular system or leaves the
finite numbers, or the iterations are used up although convergence is demanded.
-/

namespace RootTrace

universe u

variable {α : Type u} {n : Nat}

/-! ## Settings -/

section Settings

variable [Zero α] [One α] [LT α] [DecidableLT α] {settings : Settings α}

/-- What settings are accepted: there is an iteration, the tolerance is positive, and the damping
is positive and at most one. -/
theorem Settings.check_eq_ok_iff :
    settings.check = .ok ⟨⟩ ↔ settings.maxSteps ≠ 0 ∧ 0 < settings.tolerance ∧
      0 < settings.damping ∧ ¬ 1 < settings.damping := by
  unfold check
  by_cases steps : settings.maxSteps = 0
  · simp [steps]
  · by_cases tolerance : 0 < settings.tolerance
    · by_cases damping : 0 < settings.damping
      · by_cases above : 1 < settings.damping
        · simp [steps, tolerance, damping, above]
        · simp [steps, tolerance, damping, above]
      · simp [steps, tolerance, damping]
    · simp [steps, tolerance]

/-- Settings are turned down for a reason, whatever it is. -/
theorem Settings.exists_objection_of_check_error
    {fault : Fault α}
    (refused : settings.check = .error fault) :
    ∃ objection, fault = .invalid objection := by
  unfold check at refused
  split at refused
  · cases refused
    exact ⟨_, rfl⟩
  · split at refused
    · cases refused
      exact ⟨_, rfl⟩
    · split at refused
      · cases refused
        exact ⟨_, rfl⟩
      · cases refused

end Settings

namespace Corrector

/-! ## Iterations that are reached -/

section Reached

variable [Zero α] [One α] [Add α] [Sub α] [Mul α] [Neg α] [Div α] [BEq α]
  [LT α] [DecidableLT α] [Magnitude α]
  {system : RootSystem α} {settings : Settings α} {q : Complex α}
  {seed x : Vector (Complex α) n} {iteration : Nat}

theorem Reaches.accepted (reached : Reaches system settings q seed iteration x) :
    check n settings = .ok ⟨⟩ := by
  induction reached with
  | first accepted => exact accepted
  | next _ _ _ _ inductionHypothesis => exact inductionHypothesis

/-- The roots of an iteration that is reached are those after the steps before it. -/
theorem Reaches.iterates?_eq (reached : Reaches system settings q seed iteration x) :
    iterates? (step? system settings.damping q) seed (iteration - 1) = some x := by
  induction reached with
  | first _ => rfl
  | @next iteration x y change reached _ iterated _ inductionHypothesis =>
      obtain ⟨advanced, _⟩ := advance_of_iterate iterated
      have stepped := (Option.filter_eq_some_iff.mp advanced).1
      cases iteration with
      | zero => cases reached
      | succ count => exact (iterates?_succ inductionHypothesis).trans stepped

end Reached

/-! ## Success -/

section Success

variable [Zero α] [One α] [Add α] [Sub α] [Mul α] [Neg α] [Div α] [BEq α]
  [LT α] [DecidableLT α] [Magnitude α]

/-- A correction that hands out what its last step made of the roots before it. -/
structure EndsWithStep (system : RootSystem α) (settings : Settings α) (q : Complex α)
    (seed : Vector (Complex α) n) (correction : Correction α n) (count : Nat)
    (before : Vector (Complex α) n) : Prop where
  iterations : correction.iterations = count + 1
  allowed : count < settings.maxSteps
  reached : iterates? (step? system settings.damping q) seed count = some before
  stepped : step? system settings.damping q before = some correction.roots
  finite : Complex.allFinite correction.roots.toList = true
  change : correction.change = changeOf before correction.roots
  converged : correction.converged = true ↔
    changeOf before correction.roots < settings.tolerance

variable {system : RootSystem α} {settings : Settings α} {q : Complex α}
  {seed : Vector (Complex α) n} {correction : Correction α n} {failure : Failure α}

/-- What a correction hands out is what its last step made. If that was the last of all iterations
that are allowed, it did not end the correction, so its change was not small. -/
theorem exists_endsWithStep
    (corrected : (correct system settings seed q).outcome = .ok correction) :
    ∃ count before, EndsWithStep system settings q seed correction count before := by
  have accepted := (outcome_correct_eq_ok_iff.mp corrected).1
  rcases outcome_correct_cases system accepted seed q with
    ⟨number, allowed, answer, first, outcome⟩ | ⟨unended, last, final, before, after, outcome⟩
  · cases outcome.symm.trans corrected
    cases first.ending with
    | @small count before after reached stepped finite small =>
        exact ⟨count, before, rfl, allowed, reached, stepped, finite, rfl,
          iff_of_true rfl small⟩
  · rw [corrected] at outcome
    cases eq_of_giveUp outcome.symm
    obtain ⟨count, steps⟩ := Nat.exists_eq_succ_of_ne_zero
      (maxSteps_ne_zero_of_check (check_eq_ok_iff.mp accepted).2)
    rw [steps] at unended before after
    rw [Nat.succ_sub_one] at before
    have stepped := (iterates?_succ before).symm.trans after
    have finite : Complex.allFinite final.toList = true := by
      by_contra notFinite
      exact unended _ (Nat.le_refl _) _ (.nonFinite before stepped notFinite)
    have large : ¬ changeOf last final < settings.tolerance := by
      intro small
      exact unended _ (Nat.le_refl _) _ (.small before stepped finite small)
    exact ⟨count, last, steps, by omega, before, stepped, finite, rfl,
      iff_of_false Bool.false_ne_true large⟩

end Success

/-! ## Failure -/

/-- Why a correction of `n` roots can fail, and when. -/
inductive Cause [Zero α] [One α] [LT α] [DecidableLT α] (n : Nat) (settings : Settings α) :
    Fault α → Prop where
  /-- There are no roots. -/
  | emptySeed : n = 0 → Cause n settings .emptySeed
  /-- There are roots, and the settings are turned down. -/
  | invalid {objection : Objection} :
      n ≠ 0 →
      settings.check = .error (.invalid objection) →
      Cause n settings (.invalid objection)
  /-- The system of an iteration has no unique solution. -/
  | singular {iteration : Nat} :
      check n settings = .ok ⟨⟩ →
      1 ≤ iteration →
      iteration ≤ settings.maxSteps →
      Cause n settings (.singular iteration)
  /-- An iteration leaves the finite numbers. -/
  | nonFinite {iteration : Nat} :
      check n settings = .ok ⟨⟩ →
      1 ≤ iteration →
      iteration ≤ settings.maxSteps →
      Cause n settings (.nonFinite iteration)
  /-- The iterations are used up, and convergence is demanded. -/
  | notConverged {change : α} :
      check n settings = .ok ⟨⟩ →
      settings.requireConvergence = true →
      Cause n settings (.notConverged settings.maxSteps change)

section Check

variable [Zero α] [One α] [LT α] [DecidableLT α] {settings : Settings α}

/-- A task is turned down for one of the causes that a correction may have. -/
theorem cause_of_check_error
    {fault : Fault α}
    (refused : check n settings = .error fault) :
    Cause n settings fault := by
  unfold check at refused
  by_cases vacant : n = 0
  · rw [if_pos vacant] at refused
    cases refused
    exact .emptySeed vacant
  · rw [if_neg vacant] at refused
    obtain ⟨objection, rfl⟩ := Settings.exists_objection_of_check_error refused
    exact .invalid vacant refused

theorem Cause.eq_zero (cause : Cause n settings .emptySeed) : n = 0 := by
  cases cause with
  | emptySeed vacant => exact vacant

theorem Cause.refused
    {objection : Objection}
    (cause : Cause n settings (.invalid objection)) :
    n ≠ 0 ∧ settings.check ≠ .ok ⟨⟩ := by
  cases cause with
  | invalid nonempty refused =>
      refine ⟨nonempty, ?_⟩
      rw [refused]
      intro impossible
      cases impossible

end Check

variable [Zero α] [One α] [Add α] [Sub α] [Mul α] [Neg α] [Div α] [BEq α]
  [LT α] [DecidableLT α] [Magnitude α]
  {system : RootSystem α} {settings : Settings α} {q : Complex α}
  {seed : Vector (Complex α) n} {failure : Failure α}

/-- Whatever lets a correction fail is among its causes. Turned down, it failed no iteration;
accepted, it failed at its first ending or when it gave up. -/
theorem cause_of_correct
    (failed : (correct system settings seed q).outcome = .error failure) :
    Cause n settings failure.cause := by
  cases checked : check n settings with
  | error fault =>
      cases (outcome_correct_of_check_error checked seed).symm.trans failed
      exact cause_of_check_error checked
  | ok accepted =>
      rcases outcome_correct_cases system checked seed q with
        ⟨number, allowed, answer, first, outcome⟩ | ⟨_, last, final, _, _, outcome⟩
      · cases outcome.symm.trans failed
        have positive := Nat.one_le_iff_ne_zero.mpr first.ending.number_ne_zero
        cases first.ending with
        | singular => exact .singular checked positive allowed
        | nonFinite => exact .nonFinite checked positive allowed
      · rw [outcome, outcome_giveUp] at failed
        split at failed
        · cases failed
          exact .notConverged checked ‹_›
        · cases failed

end Corrector
end RootTrace
