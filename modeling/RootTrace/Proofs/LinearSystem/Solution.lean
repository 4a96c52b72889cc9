import RootTrace.Proofs.LinearSystem.Substitution

/-!
# The solver finds the unique solution

The factors carry the invertibility of the given matrix: the lower one always has
determinant one, and the determinant of the upper one is the product of its
diagonal. So substitution is stopped by a zero exactly if the matrix is singular,
and otherwise its result solves the system that was given.
-/

namespace RootTrace
namespace Elimination

universe u

open Matrix

variable {α : Type u} [Field α] {n : Nat}

theorem lowerFactor_isLowerTriangular (e : RowMatrix α n n) :
    (lowerFactor e).IsLowerTriangular := by
  intro i j above
  have before : i < j := OrderDual.toDual_lt_toDual.mp above
  unfold lowerFactor
  rw [Matrix.of_apply, if_neg before.not_gt, if_neg before.ne']

theorem upperFactor_isUpperTriangular (e : RowMatrix α n n) :
    (upperFactor e).IsUpperTriangular := by
  intro i j below
  have after : j < i := below
  unfold upperFactor
  rw [Matrix.of_apply, if_neg after.not_ge]

theorem det_lowerFactor (e : RowMatrix α n n) : (lowerFactor e).det = 1 := by
  rw [det_of_isLowerTriangular _ (lowerFactor_isLowerTriangular e)]
  apply Finset.prod_eq_one
  intro i _
  unfold lowerFactor
  rw [Matrix.of_apply, if_neg (lt_irrefl i), if_pos rfl]

theorem det_upperFactor (e : RowMatrix α n n) :
    (upperFactor e).det = ∏ i, e.entry i i := by
  rw [det_of_isUpperTriangular (upperFactor_isUpperTriangular e)]
  apply Finset.prod_congr rfl
  intro i _
  unfold upperFactor
  rw [Matrix.of_apply, if_pos le_rfl]

variable [LinearOrder α] [IsStrictOrderedRing α] [Magnitude α] [ExactMagnitude α]

/-- A matrix is singular exactly if its upper factor has a zero on the diagonal. -/
theorem isUnit_iff_diagonal_nonzero (a : RowMatrix α n n) :
    IsUnit a.toMatrix ↔ ∀ i, (factor a).entries.entry i i ≠ 0 := by
  have exchanged :
      IsUnit (a.toMatrix.submatrix (broughtFrom (factor a).exchanges) (Equiv.refl (Fin n))) ↔
        IsUnit a.toMatrix :=
    isUnit_submatrix_equiv (broughtFrom (factor a).exchanges) (Equiv.refl (Fin n))
  rw [← exchanged, Equiv.coe_refl, ← lowerFactor_mul_upperFactor,
    Matrix.isUnit_iff_isUnit_det, det_mul, det_lowerFactor, one_mul, det_upperFactor,
    isUnit_iff_ne_zero, Finset.prod_ne_zero_iff]
  constructor
  · intro nonzero i
    exact nonzero i (Finset.mem_univ i)
  · intro nonzero i _
    exact nonzero i

/-- The solver gives up exactly on singular matrices. -/
theorem solve?_eq_none_iff (a : RowMatrix α n n) (b : Vector α n) :
    solve? a b = none ↔ ¬ IsUnit a.toMatrix := by
  unfold solve?
  rw [backward?_eq_none_iff, isUnit_iff_diagonal_nonzero, not_forall]
  simp only [ne_eq, not_not]

/-- What the solver finds solves the system. -/
theorem mulVec_of_solve?_eq_some
    {a : RowMatrix α n n}
    {b solution : Vector α n}
    (solved : solve? a b = some solution) :
    a.toMatrix *ᵥ solution.get = b.get := by
  unfold solve? at solved
  have exchangedSystem :
      (a.toMatrix.submatrix (broughtFrom (factor a).exchanges) id) *ᵥ solution.get =
        b.get ∘ broughtFrom (factor a).exchanges := by
    calc (a.toMatrix.submatrix (broughtFrom (factor a).exchanges) id) *ᵥ solution.get
      _ = lowerFactor (factor a).entries *ᵥ
            (upperFactor (factor a).entries *ᵥ solution.get) := by
          rw [← lowerFactor_mul_upperFactor, mulVec_mulVec]
      _ = (exchangeRows (factor a).exchanges b).get := by
          rw [upperFactor_mulVec_backward solved, lowerFactor_mulVec_forward]
      _ = b.get ∘ broughtFrom (factor a).exchanges := by
          funext i
          exact get_exchangeRows (factor a).exchanges b i
  funext row
  obtain ⟨place, rfl⟩ := (broughtFrom (factor a).exchanges).surjective row
  exact congrFun exchangedSystem place

end Elimination
end RootTrace
