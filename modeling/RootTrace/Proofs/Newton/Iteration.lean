import RootTrace.Corrector
import RootTrace.Proofs.Outcome

/-!
# What an iteration comes to

An iteration hands on new roots exactly if the linear system has an answer and
the roots after the step are finite numbers. The two ways in which it fails are
told apart by their causes.
-/

namespace RootTrace
namespace Corrector

universe u

variable {α : Type u} {n : Nat}

/-- A task is accepted exactly if there are roots and the settings are accepted. -/
theorem check_eq_ok_iff
    [Zero α] [One α] [LT α] [DecidableLT α]
    {settings : Settings α} :
    check n settings = .ok ⟨⟩ ↔ n ≠ 0 ∧ settings.check = .ok ⟨⟩ := by
  by_cases vacant : n = 0
  · simp [check, vacant]
  · simp [check, vacant]

/-- Running out of iterations is a failure if convergence is required, and otherwise leaves the
last roots, marked as not converged. -/
theorem outcome_giveUp
    (settings : Settings α)
    (q : Complex α)
    (x : Vector (Complex α) n)
    (change : α) :
    (giveUp settings q x change).outcome =
      if settings.requireConvergence then
        .error ⟨[], .notConverged settings.maxSteps change⟩
      else
        .ok ⟨x, settings.maxSteps, false, change⟩ := by
  unfold giveUp
  by_cases required : settings.requireConvergence = true
  · rw [if_pos required, if_pos required]
    rfl
  · rw [if_neg required, if_neg required]
    rfl

theorem eq_of_giveUp
    {settings : Settings α}
    {q : Complex α}
    {x : Vector (Complex α) n}
    {change : α}
    {correction : Correction α n}
    (gaveUp : (giveUp settings q x change).outcome = .ok correction) :
    correction = ⟨x, settings.maxSteps, false, change⟩ := by
  rw [outcome_giveUp] at gaveUp
  split at gaveUp
  · cases gaveUp
  · cases gaveUp
    rfl

/-- What is left when the iterations are used up never counts as converged. -/
theorem not_converged_of_giveUp
    {settings : Settings α}
    {q : Complex α}
    {x : Vector (Complex α) n}
    {change : α}
    {correction : Correction α n}
    (gaveUp : (giveUp settings q x change).outcome = .ok correction) :
    correction.converged = false := by
  rw [eq_of_giveUp gaveUp]

variable [Zero α] [One α] [Add α] [Sub α] [Mul α] [Neg α] [Div α] [BEq α]
  [LT α] [DecidableLT α] [Magnitude α]

/-- The roots that an iteration hands on. -/
def advance? (system : RootSystem α) (damping : α) (q : Complex α)
    (x : Vector (Complex α) n) : Option (Vector (Complex α) n) :=
  (step? system damping q x).filter fun next => Complex.allFinite next.toList

variable {system : RootSystem α} {damping : α} {q : Complex α}
  {x next : Vector (Complex α) n}

/-- If the linear system has no answer, the iteration fails as singular, while it solves. -/
theorem iterate_of_no_step
    (iteration : Nat)
    (failed : step? system damping q x = none) :
    (iterate system damping q iteration x).outcome =
      .error ⟨[.linearSolve], .singular iteration⟩ := by
  unfold iterate
  rw [failed]
  rfl

/-- Finite roots are handed on together with the change of the sum of moduli. -/
theorem iterate_of_finite
    (iteration : Nat)
    (stepped : step? system damping q x = some next)
    (finite : Complex.allFinite next.toList = true) :
    (iterate system damping q iteration x).outcome = .ok (next, changeOf x next) := by
  unfold iterate
  rw [stepped]
  change (if Complex.allFinite next.toList then _ else _ : Run α _).outcome = _
  rw [if_pos finite]
  rfl

/-- Roots that are not finite end the iteration, which names itself in the failure. -/
theorem iterate_of_not_finite
    (iteration : Nat)
    (stepped : step? system damping q x = some next)
    (notFinite : ¬ Complex.allFinite next.toList = true) :
    (iterate system damping q iteration x).outcome =
      .error ⟨[], .nonFinite iteration⟩ := by
  unfold iterate
  rw [stepped]
  change (if Complex.allFinite next.toList then _ else _ : Run α _).outcome = _
  rw [if_neg notFinite]
  rfl

theorem iterate_of_advance
    (iteration : Nat)
    (advanced : advance? system damping q x = some next) :
    (iterate system damping q iteration x).outcome = .ok (next, changeOf x next) := by
  obtain ⟨stepped, finite⟩ := Option.filter_eq_some_iff.mp advanced
  exact iterate_of_finite iteration stepped finite

theorem iterate_of_no_advance
    (iteration : Nat)
    (failed : advance? system damping q x = none) :
    ∃ failure, (iterate system damping q iteration x).outcome = .error failure := by
  cases stepped : step? system damping q x with
  | none => exact ⟨_, iterate_of_no_step iteration stepped⟩
  | some next =>
      have notFinite : ¬ Complex.allFinite next.toList = true :=
        Option.filter_eq_none_iff.mp failed next stepped
      exact ⟨_, iterate_of_not_finite iteration stepped notFinite⟩

/-- What an iteration returns are the roots that it hands on, and their change. -/
theorem advance_of_iterate
    {iteration : Nat}
    {change : α}
    (iterated : (iterate system damping q iteration x).outcome = .ok (next, change)) :
    advance? system damping q x = some next ∧ change = changeOf x next := by
  cases advanced : advance? system damping q x with
  | none =>
      obtain ⟨failure, failed⟩ := iterate_of_no_advance iteration advanced
      cases failed.symm.trans iterated
  | some reached =>
      cases (iterate_of_advance iteration advanced).symm.trans iterated
      exact ⟨rfl, rfl⟩

/-! ## The loop -/

variable {settings : Settings α}

theorem correctFrom_of_iterate_error
    {iteration : Nat}
    {failure : Failure α}
    (spare : Nat)
    (failed : (iterate system settings.damping q iteration x).outcome = .error failure) :
    (correctFrom system settings q spare iteration x).outcome = .error failure := by
  unfold correctFrom
  rw [Run.outcome_bind, failed]
  rfl

theorem correctFrom_of_no_advance
    (spare iteration : Nat)
    (failed : advance? system settings.damping q x = none) :
    ∃ failure,
      (correctFrom system settings q spare iteration x).outcome = .error failure := by
  obtain ⟨failure, iterated⟩ := iterate_of_no_advance iteration failed
  exact ⟨failure, correctFrom_of_iterate_error spare iterated⟩

/-- A small change ends the loop as converged. -/
theorem correctFrom_of_small
    (spare iteration : Nat)
    (advanced : advance? system settings.damping q x = some next)
    (small : changeOf x next < settings.tolerance) :
    (correctFrom system settings q spare iteration x).outcome =
      .ok ⟨next, iteration, true, changeOf x next⟩ := by
  unfold correctFrom
  rw [Run.outcome_bind, iterate_of_advance iteration advanced]
  change (if changeOf x next < settings.tolerance then _ else _ : Run α _).outcome = _
  rw [if_pos small]
  rfl

/-- Behind the last iteration a large change leaves nothing to do but give up. -/
theorem correctFrom_zero_of_large
    (iteration : Nat)
    (advanced : advance? system settings.damping q x = some next)
    (large : ¬ changeOf x next < settings.tolerance) :
    (correctFrom system settings q 0 iteration x).outcome =
      (giveUp settings q next (changeOf x next)).outcome := by
  unfold correctFrom
  rw [Run.outcome_bind, iterate_of_advance iteration advanced]
  change (if changeOf x next < settings.tolerance then _ else _ : Run α _).outcome = _
  rw [if_neg large]

/-- As long as iterations are left, the loop goes on behind a large change. -/
theorem correctFrom_succ_of_large
    (spare iteration : Nat)
    (advanced : advance? system settings.damping q x = some next)
    (large : ¬ changeOf x next < settings.tolerance) :
    (correctFrom system settings q (spare + 1) iteration x).outcome =
      (correctFrom system settings q spare (iteration + 1) next).outcome := by
  rw [correctFrom, Run.outcome_bind, iterate_of_advance iteration advanced]
  change (if changeOf x next < settings.tolerance then _ else _ : Run α _).outcome = _
  rw [if_neg large]

/-! ## The whole correction -/

theorem outcome_correct_of_check_ok
    (accepted : check n settings = .ok ⟨⟩)
    (seed : Vector (Complex α) n) :
    (correct system settings seed q).outcome =
      (correctFrom system settings q (settings.maxSteps - 1) 1 seed).outcome := by
  rw [correct, Run.outcome_bind, Run.outcome_ofCheck, accepted]
  rfl

theorem outcome_correct_of_check_error
    {fault : Fault α}
    (refused : check n settings = .error fault)
    (seed : Vector (Complex α) n) :
    (correct system settings seed q).outcome = .error (.ofFault fault) := by
  rw [correct, Run.outcome_bind, Run.outcome_ofCheck, refused]
  rfl

/-- A correction succeeds exactly if the task is accepted and the loop succeeds from its first
iteration on. -/
theorem outcome_correct_eq_ok_iff
    {seed : Vector (Complex α) n}
    {correction : Correction α n} :
    (correct system settings seed q).outcome = .ok correction ↔
      check n settings = .ok ⟨⟩ ∧
        (correctFrom system settings q (settings.maxSteps - 1) 1 seed).outcome =
          .ok correction := by
  rw [correct, Run.outcome_bind, Run.outcome_ofCheck]
  cases check n settings with
  | error fault => simp [Except.mapError, bind, Except.bind]
  | ok accepted => simp [Except.mapError, bind, Except.bind]

end Corrector
end RootTrace
