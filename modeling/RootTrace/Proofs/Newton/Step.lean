import RootTrace.Proofs.LinearSystem.Embedding
import RootTrace.Proofs.LinearSystem.Solution
import RootTrace.Proofs.Newton.Iteration

/-!
# One iteration is an exact damped Newton step

Over exact arithmetic the solver is reached with the real embedding of the
derivatives and of the residuals, so it gives up exactly on singular derivatives,
and what is read back from its answer is the complex Newton direction. The roots
then move against it by the damping.
-/

namespace RootTrace
namespace Corrector

universe u

open Matrix Elimination RootTrace.Embedding

variable {α : Type u} [Field α] [LinearOrder α] [IsStrictOrderedRing α]
  [Magnitude α] [ExactMagnitude α] {n : Nat}
  (system : RootSystem α) (damping : α) (q : Complex α)

/-- The right side of a damped step. -/
def dampedResidual (x : Vector (Complex α) n) : Fin n → Complex α :=
  fun i => ((system.residual x q).get i).scale damping

theorem step?_eq_none_iff (x : Vector (Complex α) n) :
    step? system damping q x = none ↔ ¬ IsUnit (system.jacobian x q).toMatrix := by
  rw [step?, Option.map_eq_none_iff, solve?_eq_none_iff, isUnit_embedMatrix_iff]

variable {system damping q}

theorem isUnit_of_step?_eq_some
    {x next : Vector (Complex α) n}
    (stepped : step? system damping q x = some next) :
    IsUnit (system.jacobian x q).toMatrix := by
  by_contra singular
  rw [(step?_eq_none_iff system damping q x).mpr singular] at stepped
  cases stepped

/-- The roots after a step solve the equation of the damped Newton step. -/
theorem mulVec_sub_of_step?_eq_some
    {x next : Vector (Complex α) n}
    (stepped : step? system damping q x = some next) :
    (system.jacobian x q).toMatrix *ᵥ (x.get - next.get) =
      dampedResidual system damping q x := by
  obtain ⟨solution, solved, moved⟩ := Option.map_eq_some_iff.mp stepped
  have direction :
      (system.jacobian x q).toMatrix *ᵥ (unembedVector solution).get =
        (system.residual x q).get :=
    (embedMatrix_mulVec_eq_iff _ _ _).mp (mulVec_of_solve?_eq_some solved)
  have move : x.get - next.get =
      (⟨damping, 0⟩ : Complex α) • (unembedVector solution).get := by
    funext i
    have component : next.get i =
        x.get i - ((unembedVector solution).get i).scale damping := by
      rw [← moved, Vector.get_eq_getElem, Vector.getElem_zipWith]
      rfl
    rw [Pi.sub_apply, component, sub_sub_cancel, Complex.scale_eq_mul, Pi.smul_apply,
      smul_eq_mul, mul_comm]
  rw [move, mulVec_smul, direction]
  funext i
  rw [Pi.smul_apply, smul_eq_mul, dampedResidual, Complex.scale_eq_mul, mul_comm]

/-- Invertible derivatives leave room for one answer only. -/
theorem mulVec_sub_eq_iff
    {x next : Vector (Complex α) n}
    (stepped : step? system damping q x = some next)
    (invertible : IsUnit (system.jacobian x q).toMatrix)
    (y : Vector (Complex α) n) :
    (system.jacobian x q).toMatrix *ᵥ (x.get - y.get) =
      dampedResidual system damping q x ↔ y = next := by
  constructor
  · intro solves
    have sameMove : x.get - y.get = x.get - next.get := by
      apply mulVec_injective_of_isUnit invertible
      exact solves.trans (mulVec_sub_of_step?_eq_some stepped).symm
    exact eq_of_get_eq (sub_right_injective sameMove)
  · rintro rfl
    exact mulVec_sub_of_step?_eq_some stepped

/-- An iteration fails exactly on singular derivatives, and otherwise it arrives
at the only roots that solve the equation of the damped Newton step. -/
theorem iterate_is_exact_newton_step
    (system : RootSystem α)
    (damping : α)
    (q : Complex α)
    (iteration : Nat)
    (x : Vector (Complex α) n) :
    ((iterate system damping q iteration x).outcome =
        .error ⟨[.linearSolve], .singular iteration⟩ ↔
      ¬ IsUnit (system.jacobian x q).toMatrix) ∧
    (IsUnit (system.jacobian x q).toMatrix →
      ∃ next : Vector (Complex α) n,
        (iterate system damping q iteration x).outcome = .ok (next, changeOf x next) ∧
        ∀ y : Vector (Complex α) n,
          (system.jacobian x q).toMatrix *ᵥ (x.get - y.get) =
            dampedResidual system damping q x ↔ y = next) := by
  cases stepped : step? system damping q x with
  | none =>
      have singular := (step?_eq_none_iff system damping q x).mp stepped
      refine ⟨⟨fun _ => singular, fun _ => iterate_of_no_step iteration stepped⟩, ?_⟩
      intro invertible
      exact absurd invertible singular
  | some next =>
      have invertible : IsUnit (system.jacobian x q).toMatrix := by
        by_contra singular
        rw [(step?_eq_none_iff system damping q x).mpr singular] at stepped
        cases stepped
      have arrived := iterate_of_finite iteration stepped
        (Complex.allFinite_eq_true next.toList)
      constructor
      · rw [arrived]
        constructor
        · intro impossible
          cases impossible
        · intro singular
          exact absurd invertible singular
      · intro _
        exact ⟨next, arrived, mulVec_sub_eq_iff stepped invertible⟩

/-- From one towards the square roots of four, a full step arrives at five halves. -/
theorem squares_step_from_one :
    (iterate (RootSystem.squares : RootSystem ℝ) 1 ⟨4, 0⟩ 1 #v[⟨1, 0⟩]).outcome =
      .ok (#v[⟨5 / 2, 0⟩], changeOf #v[⟨1, 0⟩] #v[⟨5 / 2, 0⟩]) := by
  have derivative :
      ((RootSystem.squares : RootSystem ℝ).jacobian #v[⟨1, 0⟩] ⟨4, 0⟩).toMatrix 0 0 =
        ⟨2, 0⟩ := by
    rw [RootSystem.squares, RowMatrix.toMatrix_apply, RowMatrix.entry_ofFn, Vector.get_ofFn,
      if_pos rfl]
    apply Complex.ext
    · change (1 : ℝ) * (1 + 1) = 2
      norm_num
    · change (0 : ℝ) * (1 + 1) = 0
      norm_num
  have invertible :
      IsUnit ((RootSystem.squares : RootSystem ℝ).jacobian #v[⟨1, 0⟩] ⟨4, 0⟩).toMatrix := by
    rw [Matrix.isUnit_iff_isUnit_det, det_fin_one, derivative]
    have inverse : (⟨2, 0⟩ : Complex ℝ) * ⟨1 / 2, 0⟩ = 1 := by
      apply Complex.ext
      · simp
      · simp
    exact IsUnit.of_mul_eq_one _ inverse
  obtain ⟨next, arrived, only⟩ :=
    (iterate_is_exact_newton_step RootSystem.squares 1 ⟨4, 0⟩ 1 #v[⟨1, 0⟩]).2 invertible
  have expected : #v[⟨5 / 2, 0⟩] = next := by
    apply (only _).mp
    funext i
    rw [Subsingleton.elim i 0, mulVec, dotProduct, Fin.sum_univ_one, derivative,
      dampedResidual, RootSystem.squares, Vector.get_map]
    apply Complex.ext
    · change (2 : ℝ) * (1 - 5 / 2) - 0 * (0 - 0) = (1 * 1 - 0 * 0 - 4) * 1
      norm_num
    · change (2 : ℝ) * (0 - 0) + 0 * (1 - 5 / 2) = (1 * 0 + 0 * 1 - 0) * 1
      norm_num
  rw [arrived, expected]
end Corrector
end RootTrace
