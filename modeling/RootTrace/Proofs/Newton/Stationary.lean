import RootTrace.Proofs.Algebra.Comparison
import RootTrace.Proofs.Algebra.Lengths
import RootTrace.Proofs.Newton.Outcomes
import RootTrace.Proofs.Newton.Stopping

/-!
# Iterations that leave the roots as they are

On doubles an iteration that does not move the sum of the moduli has the change zero, and
the correction ends there, as long as the sum is a finite number. Roots that are finite
can have moduli, or a sum of moduli, beyond the largest double. The change is then the
difference of two infinities, which is no number and below no tolerance: roots that no
iteration moves any more are held until the iterations are used up, and are then
reported as not converged.
-/

namespace RootTrace
namespace Corrector

open Binary64 Float.Model

/-! ## The change of a sum that stays -/

section Change

variable {n : Nat} {before after : Vector (Complex Float) n}

theorem changeOf_eq (before after : Vector (Complex Float) n) :
    changeOf before after =
      .ofModel (.pack (Float.Model.pack
        (UnpackedFloat.sub Format.binary64
          (Complex.absSum after.toList).toModel.unpack
          (Complex.absSum before.toList).toModel.unpack)).unpack.abs) := rfl

/-- A finite sum that stays as it is has not changed. -/
theorem changeOf_of_sum_eq
    (same : Complex.absSum after.toList = Complex.absSum before.toList)
    (finite : (Complex.absSum before.toList).isFinite = true) :
    changeOf before after = 0 := by
  rw [changeOf_eq, same, sub_self_of_isFinite finite]
  decide +kernel

/-- An infinite sum that stays as it is has changed by nothing that could be named. -/
theorem isNaN_changeOf_self
    (infinite : (Complex.absSum before.toList).isFinite = false) :
    (changeOf before before).isNaN = true := by
  rw [changeOf_eq, sub_self_of_not_isFinite infinite]
  decide +kernel

/-- The change is a number if the roots before are finite and the sum after is. -/
theorem isNaN_changeOf_eq_false
    (finiteRoots : Complex.allFinite before.toList = true)
    (finiteSum : (Complex.absSum after.toList).isFinite = true) :
    (changeOf before after).isNaN = false := by
  have number := (Complex.nonnegative_absSum finiteRoots).sign?_ne_none
  have difference := sign?_sub_ne_none finiteSum number
  rw [← sign?_unpack_pack] at difference
  have change := sign?_abs_ne_none difference
  rw [← sign?_unpack_pack] at change
  exact isNaN_eq_false_iff.mpr change

theorem isNaN_eq_false_of_lt {x y : Float} (below : x < y) : x.isNaN = false := by
  obtain ⟨number, _, _⟩ := lt_iff_rank_lt.mp (of_decide_eq_true below)
  exact isNaN_eq_false_of_ne number

end Change

/-! ## Roots that stay -/

variable {n : Nat} {system : RootSystem Float} {settings : Settings Float}
  {seed x : Vector (Complex Float) n} {q : Complex Float} {iteration : Nat}
  {correction : Correction Float n}

/-- An iteration that does not move a finite sum is the last one. -/
theorem Reaches.outcome_of_sum_eq
    {next : Vector (Complex Float) n}
    (reached : Reaches system settings q seed iteration x)
    (advanced : advance? system settings.damping q x = some next)
    (same : Complex.absSum next.toList = Complex.absSum x.toList)
    (finite : (Complex.absSum x.toList).isFinite = true) :
    (correct system settings seed q).outcome = .ok ⟨next, iteration, true, 0⟩ := by
  have unchanged : changeOf x next = 0 := changeOf_of_sum_eq same finite
  obtain ⟨_, positive, _⟩ :=
    Settings.check_eq_ok_iff.mp (check_eq_ok_iff.mp reached.accepted).2
  have small : changeOf x next < settings.tolerance := by
    rw [unchanged]
    exact positive
  rw [reached.outcome_correct, correctFrom_of_small _ iteration advanced small, unchanged]

/-- Roots that stay where they are without ever counting as small are still held when the
iterations are used up. -/
theorem correctFrom_of_stationary
    (stationary : advance? system settings.damping q x = some x)
    (large : ¬ changeOf x x < settings.tolerance)
    (spare iteration : Nat) :
    (correctFrom system settings q spare iteration x).outcome =
      (giveUp settings q x (changeOf x x)).outcome := by
  induction spare generalizing iteration with
  | zero => exact correctFrom_zero_of_large iteration stationary large
  | succ spare inductionHypothesis =>
      rw [correctFrom_succ_of_large spare iteration stationary large, inductionHypothesis]

/-- Roots whose sum of moduli is infinite, and that no iteration moves, are held until the
iterations are used up. -/
theorem Reaches.outcome_of_infinite_sum
    (reached : Reaches system settings q seed iteration x)
    (stationary : advance? system settings.damping q x = some x)
    (infinite : (Complex.absSum x.toList).isFinite = false) :
    ∃ change : Float, change.isNaN = true ∧
      (correct system settings seed q).outcome =
        (giveUp settings q x change).outcome := by
  have indeterminate : (changeOf x x).isNaN = true := isNaN_changeOf_self infinite
  have large : ¬ changeOf x x < settings.tolerance := by
    intro small
    cases indeterminate.symm.trans (isNaN_eq_false_of_lt small)
  refine ⟨changeOf x x, indeterminate, ?_⟩
  rw [reached.outcome_correct, correctFrom_of_stationary stationary large]

/-- The change of a correction is no number only if its last roots have an infinite sum of
moduli, and then the correction does not count as converged. -/
theorem infinite_sum_of_isNaN
    (corrected : (correct system settings seed q).outcome = .ok correction)
    (indeterminate : correction.change.isNaN = true) :
    (Complex.absSum correction.roots.toList).isFinite = false ∧
      correction.converged = false := by
  obtain ⟨count, before, ends⟩ := exists_endsWithStep corrected
  rw [ends.change] at indeterminate
  constructor
  · by_contra finite
    have finiteBefore : Complex.allFinite before.toList = true :=
      (finiteAt_of_step? ends.stepped ends.finite).1
    have number := isNaN_changeOf_eq_false finiteBefore (Bool.eq_true_of_not_eq_false finite)
    cases indeterminate.symm.trans number
  · by_contra converged
    have small := ends.converged.mp (Bool.eq_true_of_not_eq_false converged)
    cases indeterminate.symm.trans (isNaN_eq_false_of_lt small)

/-- An iteration that does not move a finite sum of moduli ends the correction as converged,
with the change zero. Roots with an infinite sum that an iteration leaves as they are are
held until the iterations are used up. The change is then no number, and it is a number for
every other correction that hands out roots. -/
theorem stationary_iteration_converges_unless_sum_overflows
    (system : RootSystem Float)
    (settings : Settings Float)
    (n : Nat)
    (seed : Vector (Complex Float) n)
    (q : Complex Float) :
    (∀ iteration x next, Reaches system settings q seed iteration x →
      advance? system settings.damping q x = some next →
      Complex.absSum next.toList = Complex.absSum x.toList →
      (Complex.absSum x.toList).isFinite = true →
      (correct system settings seed q).outcome = .ok ⟨next, iteration, true, 0⟩) ∧
    (∀ iteration x, Reaches system settings q seed iteration x →
      advance? system settings.damping q x = some x →
      (Complex.absSum x.toList).isFinite = false →
      ∃ change : Float, change.isNaN = true ∧
        (correct system settings seed q).outcome =
          if settings.requireConvergence then
            .error ⟨[], .notConverged settings.maxSteps change⟩
          else
            .ok ⟨x, settings.maxSteps, false, change⟩) ∧
    ∀ correction, (correct system settings seed q).outcome = .ok correction →
      correction.change.isNaN = true →
      (Complex.absSum correction.roots.toList).isFinite = false ∧
        correction.converged = false := by
  refine ⟨?_, ?_, ?_⟩
  · intro iteration x next reached advanced same finite
    exact reached.outcome_of_sum_eq advanced same finite
  · intro iteration x reached stationary infinite
    obtain ⟨change, indeterminate, outcome⟩ :=
      reached.outcome_of_infinite_sum stationary infinite
    exact ⟨change, indeterminate, outcome.trans (outcome_giveUp settings q x change)⟩
  · intro correction corrected indeterminate
    exact infinite_sum_of_isNaN corrected indeterminate

/-- Constants that make the only residual `x - constant` at the parameter two. -/
def pinned (constant : Complex Float) : Config (Complex Float) where
  shifts := ⟨0, 0, 0⟩
  constants := ⟨[constant], [constant]⟩

/-- The first iteration leaves a root at the constant where it is. If its modulus is finite,
the correction converges there, and if not, it never does. -/
theorem pinned_root_converges_unless_sum_overflows :
    (correct (RootSystem.ofProductForm (pinned ⟨1, 1⟩).productForm) Settings.standard
        (#v[⟨1, 1⟩] : Vector (Complex Float) 1) ⟨2, 0⟩).outcome =
        .ok ⟨#v[⟨1, 1⟩], 1, true, 0⟩ ∧
      ∃ change : Float, change.isNaN = true ∧
        (correct (RootSystem.ofProductForm (pinned ⟨1.5e308, 1.5e308⟩).productForm)
          Settings.standard (#v[⟨1.5e308, 1.5e308⟩] : Vector (Complex Float) 1)
          ⟨2, 0⟩).outcome = .ok ⟨#v[⟨1.5e308, 1.5e308⟩], 20, false, change⟩ := by
  constructor
  · refine (stationary_iteration_converges_unless_sum_overflows _ Settings.standard 1
      #v[⟨1, 1⟩] ⟨2, 0⟩).1 1 #v[⟨1, 1⟩] #v[⟨1, 1⟩] (.first (check_standard 0)) ?_ rfl ?_
    · decide +kernel
    · decide +kernel
  · refine (stationary_iteration_converges_unless_sum_overflows _ Settings.standard 1
      #v[⟨1.5e308, 1.5e308⟩] ⟨2, 0⟩).2.1 1 #v[⟨1.5e308, 1.5e308⟩]
      (.first (check_standard 0)) ?_ ?_
    · decide +kernel
    · decide +kernel

/-- A step that leaves all roots as they are need not end a correction, although the roots
are finite: their moduli can be infinite. -/
theorem not_converged_of_stationary :
    ¬ ∀ (system : RootSystem Float) (settings : Settings Float) (n : Nat)
        (seed : Vector (Complex Float) n) (q : Complex Float) (iteration : Nat)
        (x : Vector (Complex Float) n),
      n ≠ 0 →
      Complex.allFinite seed.toList = true →
      settings.check = .ok ⟨⟩ →
      Reaches system settings q seed iteration x →
      step? system settings.damping q x = some x →
      Complex.allFinite x.toList = true →
      (correct system settings seed q).outcome = .ok ⟨x, iteration, true, 0⟩ := by
  intro claimed
  have finiteSeed :
      Complex.allFinite (#v[⟨1.5e308, 1.5e308⟩] : Vector (Complex Float) 1).toList := by
    decide +kernel
  have accepted : Settings.standard.check = .ok ⟨⟩ := by
    decide +kernel
  have stationary :
      step? (RootSystem.ofProductForm (pinned ⟨1.5e308, 1.5e308⟩).productForm)
        Settings.standard.damping ⟨2, 0⟩
        (#v[⟨1.5e308, 1.5e308⟩] : Vector (Complex Float) 1) =
        some #v[⟨1.5e308, 1.5e308⟩] := by
    decide +kernel
  have outcome := claimed _ Settings.standard 1 _ ⟨2, 0⟩ 1 _ one_ne_zero finiteSeed accepted
    (.first (check_standard 0)) stationary finiteSeed
  have notConverged :
      (correct (RootSystem.ofProductForm (pinned ⟨1.5e308, 1.5e308⟩).productForm)
        Settings.standard (#v[⟨1.5e308, 1.5e308⟩] : Vector (Complex Float) 1)
        ⟨2, 0⟩).outcome ≠ .ok ⟨#v[⟨1.5e308, 1.5e308⟩], 1, true, 0⟩ := by
    decide +kernel
  exact notConverged outcome

end Corrector
end RootTrace
