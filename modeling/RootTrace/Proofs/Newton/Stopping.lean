import RootTrace.Proofs.Newton.Endings
import RootTrace.Solver

/-!
# When a correction counts as converged

The corrector watches one number, the sum of the moduli of the roots. It stops as
converged at the first iteration that changes this number by less than the
tolerance, if the iterations that are allowed reach one. Among the endings of a
correction this is the only one that counts as converged. The residuals play no
part in that: a step that takes a root to its negative leaves the sum as it is,
and between large constants rounding leaves a residual at roots that stay put.
-/

namespace RootTrace
namespace Corrector

universe u

section General

variable {α : Type u} {n : Nat}
variable [Zero α] [One α] [Add α] [Sub α] [Mul α] [Neg α] [Div α] [BEq α]
  [LT α] [DecidableLT α] [Magnitude α]

/-- After a number of iterations, each of which hands roots on, comes the first
one that changes the sum of moduli by less than the tolerance. -/
structure FirstSmallChange (system : RootSystem α) (settings : Settings α) (q : Complex α)
    (x : Vector (Complex α) n) (count : Nat) (before after : Vector (Complex α) n) :
    Prop where
  reached : iterates? (advance? system settings.damping q) x count = some before
  advanced : advance? system settings.damping q before = some after
  small : changeOf before after < settings.tolerance
  notEarlier : ∀ earlier < count, ∀ y z,
    iterates? (advance? system settings.damping q) x earlier = some y →
    advance? system settings.damping q y = some z →
    ¬ changeOf y z < settings.tolerance

variable {system : RootSystem α} {settings : Settings α} {q : Complex α}
  {seed before after : Vector (Complex α) n} {count number : Nat}
  {correction : Correction α n}

/-! ## Iterations that hand roots on -/

/-- Iterations that hand roots on are steps. -/
theorem iterates?_step_of_advance
    (reached : iterates? (advance? system settings.damping q) seed count = some before) :
    iterates? (step? system settings.damping q) seed count = some before := by
  induction count generalizing before with
  | zero => exact reached
  | succ count inductionHypothesis =>
      obtain ⟨last, earlier, advanced⟩ := Option.bind_eq_some_iff.mp reached
      rw [iterates?_succ (inductionHypothesis earlier)]
      exact (Option.filter_eq_some_iff.mp advanced).1

/-- As long as no iteration ends a correction, every step is an iteration that
hands roots on. -/
theorem Unended.iterates?_advance
    (unended : Unended (step? system settings.damping q) settings.tolerance seed count)
    (reached : iterates? (step? system settings.damping q) seed count = some before) :
    iterates? (advance? system settings.damping q) seed count = some before := by
  induction count generalizing before with
  | zero => exact reached
  | succ count inductionHypothesis =>
      obtain ⟨last, earlier, stepped⟩ := Option.bind_eq_some_iff.mp reached
      have shorter : Unended (step? system settings.damping q) settings.tolerance seed count :=
        fun number bounded => unended number (Nat.le_succ_of_le bounded)
      rw [iterates?_succ (inductionHypothesis shorter earlier)]
      rcases ending_or_passes settings.tolerance earlier with ⟨answer, ending⟩ | ⟨next, passes⟩
      · exact absurd ending (unended (count + 1) (Nat.le_refl _) answer)
      · cases stepped.symm.trans passes.stepped
        exact passes.advance?_eq

/-- The iterations before the first small change do not end a correction: they
hand roots on, and change the sum of moduli more. -/
theorem FirstSmallChange.unended
    (first : FirstSmallChange system settings q seed count before after)
    (bounded : number ≤ count) :
    Unended (step? system settings.damping q) settings.tolerance seed number := by
  induction number with
  | zero => exact unended_zero
  | succ number inductionHypothesis =>
      obtain ⟨z, reached⟩ := exists_iterates?_of_le first.reached bounded
      obtain ⟨y, earlier, advanced⟩ := Option.bind_eq_some_iff.mp reached
      obtain ⟨stepped, finite⟩ := Option.filter_eq_some_iff.mp advanced
      exact (inductionHypothesis (Nat.le_of_succ_le bounded)).succ
        (iterates?_step_of_advance earlier)
        ⟨stepped, finite, first.notEarlier number bounded y z earlier advanced⟩

/-- The first small change is the first iteration that ends a correction. -/
theorem FirstSmallChange.firstEnding
    (first : FirstSmallChange system settings q seed count before after) :
    FirstEnding (step? system settings.damping q) settings.tolerance seed (count + 1)
      (.ok ⟨after, count + 1, true, changeOf before after⟩) := by
  obtain ⟨stepped, finite⟩ := Option.filter_eq_some_iff.mp first.advanced
  exact (first.unended (Nat.le_refl count)).firstEnding
    (.small (iterates?_step_of_advance first.reached) stepped finite first.small)

/-- If the first iteration that ends a correction makes one, then it is the first
small change. -/
theorem FirstEnding.exists_firstSmallChange
    (first : FirstEnding (step? system settings.damping q) settings.tolerance seed number
      (.ok correction)) :
    ∃ count before after, number = count + 1 ∧
      FirstSmallChange system settings q seed count before after ∧
      correction = ⟨after, count + 1, true, changeOf before after⟩ := by
  obtain ⟨ending, notEarlier⟩ := first
  cases ending with
  | @small count before after reached stepped finite small =>
      refine ⟨count, before, after, rfl, ⟨?_, ?_, small, ?_⟩, rfl⟩
      · exact Unended.iterates?_advance
          (fun number bounded => notEarlier number (Nat.lt_succ_of_le bounded)) reached
      · exact Option.filter_eq_some_iff.mpr ⟨stepped, finite⟩
      · intro earlier bounded y z reachedEarlier advanced smallEarlier
        obtain ⟨steppedEarlier, finiteEarlier⟩ := Option.filter_eq_some_iff.mp advanced
        exact notEarlier (earlier + 1) (Nat.succ_lt_succ bounded) _
          (.small (iterates?_step_of_advance reachedEarlier) steppedEarlier finiteEarlier
            smallEarlier)

/-- A correction counts as converged exactly if the task is accepted and it is
what a first small change makes within the iterations that are allowed. -/
theorem correct_converged_iff
    (accepted : check n settings = .ok ⟨⟩)
    (seed : Vector (Complex α) n) :
    ((correct system settings seed q).outcome = .ok correction ∧
        correction.converged = true) ↔
      ∃ count < settings.maxSteps, ∃ before after,
        FirstSmallChange system settings q seed count before after ∧
        correction = ⟨after, count + 1, true, changeOf before after⟩ := by
  constructor
  · rintro ⟨outcome, converged⟩
    rcases outcome_correct_cases system accepted seed q with
      ⟨number, allowed, answer, first, decided⟩ | ⟨_, last, final, _, _, gaveUp⟩
    · rw [outcome] at decided
      subst decided
      obtain ⟨count, before, after, rfl, small, made⟩ := first.exists_firstSmallChange
      exact ⟨count, allowed, before, after, small, made⟩
    · rw [not_converged_of_giveUp (gaveUp.symm.trans outcome)] at converged
      cases converged
  · rintro ⟨count, allowed, before, after, first, rfl⟩
    exact ⟨first.firstEnding.outcome_correct settings accepted allowed, rfl⟩

end General

/-! ## The standard settings -/

theorem check_standard (n : Nat) : check (n + 1) Settings.standard = .ok ⟨⟩ := by
  have accepted : Settings.standard.check = .ok ⟨⟩ := by
    decide +kernel
  rw [check, if_neg (Nat.succ_ne_zero n), accepted]

/-- With the standard settings, a correction counts as converged exactly if it is
what the first small change among twenty iterations makes. -/
theorem converged_iff_first_small_change
    (system : RootSystem Float)
    (n : Nat)
    (seed : Vector (Complex Float) (n + 1))
    (q : Complex Float)
    (correction : Correction Float (n + 1)) :
    ((correct system Settings.standard seed q).outcome = .ok correction ∧
        correction.converged = true) ↔
      ∃ count < 20, ∃ before after,
        FirstSmallChange system Settings.standard q seed count before after ∧
        correction = ⟨after, count + 1, true, changeOf before after⟩ :=
  correct_converged_iff (check_standard n) seed

theorem system_of_check_ok
    {config : Config (Complex Float)}
    (accepted : config.check = .ok ⟨⟩) :
    Solver.system config = .ok (RootSystem.ofProductForm config.productForm) := by
  unfold Solver.system Config.equations
  rw [accepted]
  rfl

/-- Constants that make the only residual `x ^ 2 + 3` at the parameter two. -/
def mirroring : Config (Complex Float) where
  shifts := ⟨0, 0, 0⟩
  constants := ⟨[0, 1], [⟨3, 0⟩, ⟨-1, 0⟩]⟩

/-- Converged roots need not have a small residual: from one, the corrector steps
to minus one, where it stops as converged and the residual is four. -/
theorem not_small_residual_of_converged :
    ¬ ∀ (config : Config (Complex Float)) (system : RootSystem Float) (n : Nat)
        (seed : Vector (Complex Float) n) (q : Complex Float)
        (correction : Correction Float n),
      Solver.system config = .ok system →
      n ≠ 0 →
      Complex.allFinite seed.toList = true →
      (correct system Settings.standard seed q).outcome = .ok correction →
      correction.converged = true →
      system.residualAbsSum correction.roots q < 1e-9 := by
  intro claimed
  have accepted : mirroring.check = .ok ⟨⟩ := by
    decide +kernel
  have finiteSeed : Complex.allFinite (#v[⟨1, 0⟩] : Vector (Complex Float) 1).toList := by
    decide +kernel
  have outcome :
      (correct (RootSystem.ofProductForm mirroring.productForm) Settings.standard
        (#v[⟨1, 0⟩] : Vector (Complex Float) 1) ⟨2, 0⟩).outcome =
        .ok ⟨#v[⟨-1, 0⟩], 1, true, 0⟩ := by
    decide +kernel
  have large : ¬ (RootSystem.ofProductForm mirroring.productForm).residualAbsSum
      (#v[⟨-1, 0⟩] : Vector (Complex Float) 1) ⟨2, 0⟩ < 1e-9 := by
    decide +kernel
  have small := claimed mirroring _ 1 #v[⟨1, 0⟩] ⟨2, 0⟩ ⟨#v[⟨-1, 0⟩], 1, true, 0⟩
    (system_of_check_ok accepted) one_ne_zero finiteSeed outcome rfl
  exact large small

/-- Constants that make the only residual `3 * x - 4 * 10 ^ 20` at the parameter
four. -/
def distant : Config (Complex Float) where
  shifts := ⟨0, 0, 0⟩
  constants := ⟨[⟨1e20, 0⟩], [0]⟩

/-- Not even roots that a further iteration leaves as they are need to have a small
residual, because rounding alone can keep it large. -/
theorem not_small_residual_of_stationary :
    ¬ ∀ (config : Config (Complex Float)) (system : RootSystem Float) (n : Nat)
        (seed : Vector (Complex Float) n) (q : Complex Float)
        (correction : Correction Float n),
      Solver.system config = .ok system →
      n ≠ 0 →
      Complex.allFinite seed.toList = true →
      (correct system Settings.standard seed q).outcome = .ok correction →
      correction.converged = true →
      advance? system Settings.standard.damping q correction.roots =
        some correction.roots →
      system.residualAbsSum correction.roots q < 1e-9 := by
  intro claimed
  have accepted : distant.check = .ok ⟨⟩ := by
    decide +kernel
  have finiteSeed : Complex.allFinite (#v[⟨1, 0⟩] : Vector (Complex Float) 1).toList := by
    decide +kernel
  have outcome :
      (correct (RootSystem.ofProductForm distant.productForm) Settings.standard
        (#v[⟨1, 0⟩] : Vector (Complex Float) 1) ⟨4, 0⟩).outcome =
        .ok ⟨#v[⟨1.3333333333333333e20, 0⟩], 2, true, 0⟩ := by
    decide +kernel
  have stationary :
      advance? (RootSystem.ofProductForm distant.productForm) Settings.standard.damping
        ⟨4, 0⟩ (#v[⟨1.3333333333333333e20, 0⟩] : Vector (Complex Float) 1) =
        some #v[⟨1.3333333333333333e20, 0⟩] := by
    decide +kernel
  have large : ¬ (RootSystem.ofProductForm distant.productForm).residualAbsSum
      (#v[⟨1.3333333333333333e20, 0⟩] : Vector (Complex Float) 1) ⟨4, 0⟩ < 1e-9 := by
    decide +kernel
  have small := claimed distant _ 1 #v[⟨1, 0⟩] ⟨4, 0⟩
    ⟨#v[⟨1.3333333333333333e20, 0⟩], 2, true, 0⟩
    (system_of_check_ok accepted) one_ne_zero finiteSeed outcome rfl stationary
  exact large small

end Corrector
end RootTrace
