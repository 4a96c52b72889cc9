import RootTrace.Proofs.Newton.Step
import RootTrace.Proofs.ProductForm.Products

/-!
# Row sums of the derivatives

The residual of a root depends on the other roots through differences only, and such a
difference does not change when all roots move by the same amount. What it adds to the
diagonal is therefore taken back beside the diagonal, and every row adds up to the
contributions of the pairs. Without pairs all rows add up to zero, the derivatives are
singular at any roots, and no correction survives its first iteration.
-/

namespace RootTrace

universe u

variable {K : Type u} {n : Nat}

/-! ## The contributions of the pairs -/

namespace ProductForm

variable [CommRing K] (form : ProductForm K) (x : Vector K n) (q : K) (i : Fin n)

/-- What another root adds to the diagonal is taken back beside it, so a row adds up to the terms
of the pairs. -/
theorem sum_derivative :
    ∑ j, form.derivative x q i j = ∑ k, form.pairTerm x q i k := by
  have otherRoots : ∀ j ∈ Finset.univ.erase i,
      form.derivative x q i j = -form.differenceTerm x q i j := by
    intro j member
    exact form.derivative_of_ne x q (Finset.ne_of_mem_erase member).symm
  rw [← Finset.add_sum_erase Finset.univ _ (Finset.mem_univ i), derivative_self,
    Finset.sum_congr rfl otherRoots, Finset.sum_neg_distrib, add_neg_cancel_right]

theorem shiftProduct_eq (difference : K) :
    form.shiftProduct difference =
      ⟨(form.shifts.toList.map fun shift => difference + shift).prod,
        (form.shifts.toList.map fun shift => difference - shift).prod⟩ := by
  rw [shiftProduct, Sides.list_prod_eq, shiftFactors, List.map_map, List.map_map]
  rfl

theorem prod_map_pairFactor (root : K) (pairs : List (Sides K)) :
    (pairs.map (pairFactor root)).prod =
      ⟨((pairs.map Sides.left).map fun constant => root - constant).prod,
        ((pairs.map Sides.right).map fun constant => root - constant).prod⟩ := by
  rw [Sides.list_prod_eq, List.map_map, List.map_map, List.map_map, List.map_map]
  rfl

/-- The two products of an equation, written out side by side. -/
theorem difference_start_mul (pairs : Sides K) :
    (start q * pairs * form.differenceProduct x i (Finset.univ.erase i)).difference =
      q * pairs.left *
          ∏ l ∈ Finset.univ.erase i,
            (form.shifts.toList.map fun shift => x.get i - x.get l + shift).prod -
        pairs.right *
          ∏ l ∈ Finset.univ.erase i,
            (form.shifts.toList.map fun shift => x.get i - x.get l - shift).prod := by
  rw [differenceProduct, Sides.prod_eq]
  simp only [shiftProduct_eq]
  rw [Sides.difference, Sides.mul_left, Sides.mul_left, Sides.mul_right, Sides.mul_right, start,
    one_mul]

end ProductForm

namespace Config

/-- What one pair contributes to the derivatives of the residual of a root: both products
without the factors of that pair. -/
def pairContribution [CommRing K] (config : Config K) (x : Vector K n) (q : K) (i : Fin n)
    (k : Nat) : K :=
  q * ((config.constants.left.eraseIdx k).map fun constant => x.get i - constant).prod *
      ∏ l ∈ Finset.univ.erase i,
        (config.shifts.toList.map fun shift => x.get i - x.get l + shift).prod -
    ((config.constants.right.eraseIdx k).map fun constant => x.get i - constant).prod *
      ∏ l ∈ Finset.univ.erase i,
        (config.shifts.toList.map fun shift => x.get i - x.get l - shift).prod

variable {config : Config K}

section Paired

variable (paired : config.constants.left.length = config.constants.right.length)

include paired

theorem length_pairs_productForm : config.productForm.pairs.length = config.pairCount := by
  rw [productForm, List.length_zipWith, ← paired, min_self, pairCount]

/-- Lists that pair up can be read back from the pairs. -/
theorem map_pairs_productForm :
    config.productForm.pairs.map Sides.left = config.constants.left ∧
      config.productForm.pairs.map Sides.right = config.constants.right := by
  rw [productForm, List.map_zipWith, List.map_zipWith]
  constructor
  · exact List.ext_getElem (by simp [paired]) (by simp)
  · exact List.ext_getElem (by simp [paired]) (by simp)

variable [CommRing K] (x : Vector K n) (q : K) (i : Fin n)

theorem pairTerm_productForm (k : Fin config.productForm.pairs.length) :
    config.productForm.pairTerm x q i k = config.pairContribution x q i k := by
  obtain ⟨left, right⟩ := map_pairs_productForm paired
  rw [ProductForm.pairTerm_eq, ← ProductForm.prod_pairFactorsExcept,
    ProductForm.pairFactorsExcept, ProductForm.prod_map_pairFactor,
    ← List.eraseIdx_map (f := Sides.left), ← List.eraseIdx_map (f := Sides.right), left, right,
    ProductForm.difference_start_mul]
  rfl

theorem sum_derivative_productForm :
    ∑ j, config.productForm.derivative x q i j =
      ∑ k ∈ Finset.range config.pairCount, config.pairContribution x q i k := by
  rw [ProductForm.sum_derivative, Finset.sum_congr rfl fun k _ =>
    pairTerm_productForm paired x q i k, Fin.sum_univ_eq_sum_range,
    length_pairs_productForm paired]

end Paired

end Config

/-! ## Singular derivatives -/

open Matrix

/-- The vector of ones is mapped to zero by a matrix whose rows add up to zero. -/
theorem not_isUnit_of_row_sums_eq_zero
    [CommRing K] [Nontrivial K]
    {a : Matrix (Fin n) (Fin n) K}
    (nonempty : n ≠ 0)
    (rowSums : ∀ i, ∑ j, a i j = 0) :
    ¬ IsUnit a := by
  intro invertible
  have vanishes : a *ᵥ 1 = a *ᵥ 0 := by
    funext i
    rw [mulVec_zero, mulVec, dotProduct]
    simp only [Pi.one_apply, mul_one]
    exact rowSums i
  have equal : (1 : Fin n → K) = 0 := mulVec_injective_of_isUnit invertible vanishes
  exact one_ne_zero (congrFun equal ⟨0, Nat.pos_of_ne_zero nonempty⟩)

variable {α : Type u} [Field α] [LinearOrder α] [IsStrictOrderedRing α]
  [Magnitude α] [ExactMagnitude α]

namespace Corrector

/-- Derivatives that are singular at the seed end a correction in its first iteration. -/
theorem outcome_correct_of_singular
    {system : RootSystem α}
    {settings : Settings α}
    {q : Complex α}
    {seed : Vector (Complex α) n}
    (accepted : check n settings = .ok ⟨⟩)
    (singular : ¬ IsUnit (system.jacobian seed q).toMatrix) :
    (correct system settings seed q).outcome = .error ⟨[.linearSolve], .singular 1⟩ := by
  have stuck := (step?_eq_none_iff system settings.damping q seed).mpr singular
  rw [outcome_correct_of_check_ok accepted]
  exact correctFrom_of_iterate_error _ (iterate_of_no_step 1 stuck)

end Corrector

/-- Every row of the derivatives adds up to the contributions of the pairs. Constants without
pairs are accepted, and with them every correction ends in its first iteration, because there
the derivatives are singular. -/
theorem row_sums_come_from_the_pairs (config : Config (Complex α)) :
    (config.check = .ok ⟨⟩ →
      ∀ (n : Nat) (x : Vector (Complex α) n) (q : Complex α) (i : Fin n),
        ∑ j, RowMatrix.entry ((RootSystem.ofProductForm config.productForm).jacobian x q) i j =
          ∑ k ∈ Finset.range config.pairCount, config.pairContribution x q i k) ∧
    (config.constants = ⟨[], []⟩ →
      config.check = .ok ⟨⟩ ∧
      ∀ (n : Nat) (settings : Settings α) (seed : Vector (Complex α) n) (q : Complex α),
        n ≠ 0 →
        settings.check = .ok ⟨⟩ →
        (Corrector.correct (.ofProductForm config.productForm) settings seed q).outcome =
          .error ⟨[.linearSolve], .singular 1⟩) := by
  have rowSums : config.check = .ok ⟨⟩ →
      ∀ (n : Nat) (x : Vector (Complex α) n) (q : Complex α) (i : Fin n),
        ∑ j, ((RootSystem.ofProductForm config.productForm).jacobian x q).toMatrix i j =
          ∑ k ∈ Finset.range config.pairCount, config.pairContribution x q i k := by
    intro valid n x q i
    rw [RootSystem.toMatrix_jacobian_ofProductForm]
    exact config.sum_derivative_productForm (config.check_eq_ok_iff.mp valid) x q i
  refine ⟨rowSums, ?_⟩
  intro vacant
  have valid : config.check = .ok ⟨⟩ := by
    rw [config.check_eq_ok_iff, vacant]
  refine ⟨valid, ?_⟩
  intro n settings seed q nonempty accepted
  apply Corrector.outcome_correct_of_singular (Corrector.check_eq_ok_iff.mpr ⟨nonempty, accepted⟩)
  apply not_isUnit_of_row_sums_eq_zero nonempty
  intro i
  rw [rowSums valid n seed q i, Config.pairCount, vacant]
  exact Finset.sum_range_zero _

/-- Constants with one imaginary shift and two pairs. -/
def twoPairs : Config (Complex ℚ) :=
  ⟨⟨⟨0, 1⟩, 0, 0⟩, ⟨[0, ⟨2, 0⟩], [1, ⟨3, 0⟩]⟩⟩

/-- With two pairs the first row adds up to what they contribute. Without them the same seed
is given up in the first iteration. -/
theorem rows_with_two_pairs_and_without :
    ∑ j, RowMatrix.entry
        ((RootSystem.ofProductForm twoPairs.productForm).jacobian #v[⟨5, 0⟩, ⟨4, 0⟩] ⟨2, 0⟩) 0 j =
      ⟨10, 22⟩ ∧
    (Corrector.correct
        (.ofProductForm (⟨twoPairs.shifts, ⟨[], []⟩⟩ : Config (Complex ℚ)).productForm)
        ⟨1, 1, 1, false⟩ #v[⟨5, 0⟩, ⟨4, 0⟩] ⟨2, 0⟩).outcome =
      .error ⟨[.linearSolve], .singular 1⟩ := by
  have valid : twoPairs.check = .ok ⟨⟩ := by
    decide +kernel
  have contributions :
      ∑ k ∈ Finset.range twoPairs.pairCount,
          twoPairs.pairContribution #v[⟨5, 0⟩, ⟨4, 0⟩] ⟨2, 0⟩ 0 k = ⟨10, 22⟩ := by
    decide +kernel
  constructor
  · exact ((row_sums_come_from_the_pairs twoPairs).1 valid 2 _ _ 0).trans contributions
  · obtain ⟨_, fails⟩ := (row_sums_come_from_the_pairs ⟨twoPairs.shifts, ⟨[], []⟩⟩).2 rfl
    exact fails 2 _ _ _ two_ne_zero (by decide +kernel)

end RootTrace
