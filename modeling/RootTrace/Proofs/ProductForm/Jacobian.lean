import RootTrace.Proofs.Algebra.Matrix
import RootTrace.Proofs.ProductForm.Map

/-!
# The derivatives of the equations are their derivatives

A derivation of the scalars that vanishes on the constants and on the parameter
obeys the chain rule on every residual, with the entries of the matrix of
derivatives as coefficients. The partial derivatives of polynomials are such
derivations, and so is the infinitesimal part of a dual number, so the matrix
holds the formal partial derivatives and is the linear part of the residuals
under any displacement of the roots.
-/

namespace RootTrace
namespace ProductForm

universe u

open Finset

variable {K : Type u} {n : Nat}

section ChainRule

variable [CommRing K] (D : Derivation ℤ K K)

/-- A derivation that vanishes on every constant of a family of equations. -/
structure Fixes (form : ProductForm K) : Prop where
  /-- It vanishes on the shifts. -/
  shifts : ∀ shift ∈ form.shifts.toList, D shift = 0
  /-- It vanishes on the left constants. -/
  left : ∀ pair ∈ form.pairs, D pair.left = 0
  /-- It vanishes on the right constants. -/
  right : ∀ pair ∈ form.pairs, D pair.right = 0

/-- Constants that come from scalars on which a derivation vanishes are fixed. -/
theorem fixes_map
    {S : Type*}
    (form : ProductForm S)
    (f : S → K)
    (vanishes : ∀ constant, D (f constant) = 0) :
    Fixes D (form.map f) where
  shifts := by
    intro shift member
    simp only [map, Shifts.toList, List.mem_cons, List.not_mem_nil, or_false] at member
    rcases member with rfl | rfl | rfl <;> exact vanishes _
  left := by
    intro pair member
    obtain ⟨source, _, rfl⟩ := List.mem_map.mp member
    exact vanishes source.left
  right := by
    intro pair member
    obtain ⟨source, _, rfl⟩ := List.mem_map.mp member
    exact vanishes source.right

variable {D} {form : ProductForm K}

theorem derivation_pairFactor
    (fixes : Fixes D form)
    (x : K)
    {pair : Sides K}
    (member : pair ∈ form.pairs) :
    Sides.derivation D (pairFactor x pair) = Sides.both (D x) := by
  apply Sides.ext
  · change D (x - pair.left) = D x
    rw [D.map_sub, fixes.left pair member, sub_zero]
  · change D (x - pair.right) = D x
    rw [D.map_sub, fixes.right pair member, sub_zero]

/-- The product rule for three factors that grow together. -/
theorem derivation_mul_three
    {a b c growth : K}
    (first : D a = growth)
    (second : D b = growth)
    (third : D c = growth) :
    D (a * (b * (c * 1))) = pairProducts a b c * growth := by
  rw [D.leibniz, D.leibniz, mul_one, first, second, third, pairProducts]
  simp only [smul_eq_mul]
  ring

/-- The product of the three factors of a difference changes by its derivative. -/
theorem derivation_shiftProduct (fixes : Fixes D form) (difference : K) :
    Sides.derivation D (form.shiftProduct difference) =
      form.shiftDerivative difference * Sides.both (D difference) := by
  have vanish := fixes.shifts
  simp only [Shifts.toList, List.mem_cons, List.not_mem_nil, or_false,
    forall_eq_or_imp, forall_eq] at vanish
  obtain ⟨first, second, third⟩ := vanish
  apply Sides.ext
  · apply derivation_mul_three
    · rw [D.map_add, first, add_zero, Sides.both_left]
    · rw [D.map_add, second, add_zero, Sides.both_left]
    · rw [D.map_add, third, add_zero, Sides.both_left]
  · apply derivation_mul_three
    · rw [D.map_sub, first, sub_zero, Sides.both_right]
    · rw [D.map_sub, second, sub_zero, Sides.both_right]
    · rw [D.map_sub, third, sub_zero, Sides.both_right]

theorem derivation_pairProduct (fixes : Fixes D form) (x : K) :
    Sides.derivation D (form.pairProduct x univ) =
      ∑ k, form.pairProduct x (univ.erase k) * Sides.both (D x) := by
  rw [pairProduct, derivation_prod]
  apply sum_congr rfl
  intro k _
  rw [derivation_pairFactor fixes x (List.get_mem form.pairs k), pairProduct]

/-- The product over the other roots changes by one term for each of them, in which this root is
left out. -/
theorem derivation_differenceProduct
    (fixes : Fixes D form)
    (x : Vector K n)
    (i : Fin n) :
    Sides.derivation D (form.differenceProduct x i (univ.erase i)) =
      ∑ k ∈ univ.erase i,
        form.differenceProduct x i ((univ.erase i).erase k) *
          form.shiftDerivative (x.get i - x.get k) *
          Sides.both (D (x.get i) - D (x.get k)) := by
  rw [differenceProduct, derivation_prod]
  apply sum_congr rfl
  intro k _
  rw [derivation_shiftProduct fixes, D.map_sub, differenceProduct, mul_assoc]

/-- Each residual grows with its own root through every pair and every
difference, and with another root through their difference only. -/
theorem derivation_residualAt_eq_terms
    (fixes : Fixes D form)
    (x : Vector K n)
    {q : K}
    (constant : D q = 0)
    (i : Fin n) :
    D (form.residualAt x q i) =
      ∑ k, form.pairTerm x q i k * D (x.get i) +
        ∑ k ∈ univ.erase i,
          form.differenceTerm x q i k * (D (x.get i) - D (x.get k)) := by
  have startConstant : Sides.derivation D (start q) = 0 :=
    Sides.ext constant D.map_one_eq_zero
  rw [residualAt_eq, ← Sides.difference_derivation, Derivation.leibniz,
    Derivation.leibniz, startConstant, derivation_pairProduct fixes,
    derivation_differenceProduct fixes, smul_zero, add_zero, add_comm]
  simp only [smul_eq_mul, mul_sum]
  rw [← Sides.differenceHom_apply, map_add, Sides.differenceHom_apply,
    Sides.differenceHom_apply, Sides.difference_sum, Sides.difference_sum]
  congr 1
  · apply sum_congr rfl
    intro k _
    rw [pairTerm_eq, ← Sides.difference_mul_both]
    congr 1
    ring
  · apply sum_congr rfl
    intro k _
    rw [differenceTerm_eq, ← Sides.difference_mul_both]
    congr 1
    ring

/-- The chain rule: the entries of a row are the rates at which its residual
grows with the roots. -/
theorem derivation_residualAt
    (fixes : Fixes D form)
    (x : Vector K n)
    {q : K}
    (constant : D q = 0)
    (i : Fin n) :
    D (form.residualAt x q i) = ∑ j, form.derivative x q i j * D (x.get j) := by
  have otherRoots : ∀ j ∈ univ.erase i,
      form.derivative x q i j * D (x.get j) =
        -(form.differenceTerm x q i j * D (x.get j)) := by
    intro j member
    rw [form.derivative_of_ne x q (ne_of_mem_erase member).symm, neg_mul]
  rw [derivation_residualAt_eq_terms fixes x constant i,
    ← add_sum_erase univ _ (mem_univ i), derivative_self,
    sum_congr rfl otherRoots, sum_neg_distrib, add_mul, sum_mul, sum_mul]
  simp only [mul_sub, sum_sub_distrib]
  ring

end ChainRule

/-! ## Partial derivatives of polynomials -/

section Polynomial

variable [CommRing K]

/-- The residuals as polynomials in the roots. -/
noncomputable def residualPolynomial (form : ProductForm K) (q : K) (i : Fin n) :
    MvPolynomial (Fin n) K :=
  (form.map MvPolynomial.C).residualAt (Vector.ofFn MvPolynomial.X) (MvPolynomial.C q) i

/-- Reading the polynomial form of the constants at a point gives them back. -/
theorem map_eval_map_C (form : ProductForm K) (point : Fin n → K) :
    (form.map (MvPolynomial.C (σ := Fin n))).map (MvPolynomial.eval point) = form := by
  simp [map, Sides.map, Function.comp_def]

/-- The formal partial derivatives of the residual polynomials are the entries of the matrix. -/
theorem eval_pderiv_residualPolynomial
    (form : ProductForm K)
    (x : Vector K n)
    (q : K)
    (i j : Fin n) :
    MvPolynomial.eval x.get (MvPolynomial.pderiv j (form.residualPolynomial q i)) =
      form.derivative x q i j := by
  have fixes : Fixes ((MvPolynomial.pderiv j).restrictScalars ℤ)
      (form.map (MvPolynomial.C (σ := Fin n))) :=
    fixes_map _ form _ fun _ => MvPolynomial.pderiv_C
  have chain := derivation_residualAt fixes
    (Vector.ofFn MvPolynomial.X) (q := MvPolynomial.C q) MvPolynomial.pderiv_C i
  have point : (Vector.ofFn MvPolynomial.X).map (MvPolynomial.eval x.get) = x := by
    ext k bound
    simp [Vector.get]
  change MvPolynomial.pderiv j (form.residualPolynomial q i) = _ at chain
  rw [chain, map_sum, sum_eq_single j]
  · rw [Vector.get_ofFn, Derivation.restrictScalars_apply, MvPolynomial.pderiv_X_self,
      mul_one, map_derivative, point, map_eval_map_C, MvPolynomial.eval_C]
  · intro k _ different
    rw [Vector.get_ofFn, Derivation.restrictScalars_apply,
      MvPolynomial.pderiv_X_of_ne different, mul_zero, map_zero]
  · exact fun absent => absurd (mem_univ j) absent

end Polynomial

/-! ## Dual numbers -/

section Dual

variable [CommRing K]

open scoped DualNumber
open TrivSqZeroExt (inl inr fst snd)

/-- The infinitesimal part of a dual number, as a derivation. -/
def infinitesimalPart : Derivation ℤ K[ε] K[ε] :=
  Derivation.mk'
    (AddMonoidHom.toIntLinearMap
      { toFun := fun z => inr z.snd
        map_zero' := rfl
        map_add' := fun _ _ => TrivSqZeroExt.inr_add K _ _ })
    (fun z w => by
      ext
      · simp
      · simp [mul_comm])

theorem infinitesimalPart_apply (z : K[ε]) : infinitesimalPart z = inr z.snd := rfl

/-- A vector of roots displaced by an infinitesimal multiple of a direction. -/
def displace (x v : Vector K n) : Vector K[ε] n :=
  Vector.ofFn fun i => inl (x.get i) + inr (v.get i)

/-- Forgetting the infinitesimal part gives the constants back. -/
theorem map_fst_map_inl (form : ProductForm K) :
    (form.map (inl : K → K[ε])).map fst = form := by
  simp [map, Sides.map, Function.comp_def]

theorem map_fst_displace (x v : Vector K n) : (displace x v).map fst = x := by
  ext k bound
  simp [displace, Vector.get]

theorem fst_residualAt_displace
    (form : ProductForm K)
    (x v : Vector K n)
    (q : K)
    (i : Fin n) :
    fst ((form.map inl).residualAt (displace x v) (inl q) i) = form.residualAt x q i := by
  have forgotten := map_residualAt (TrivSqZeroExt.fstHom K K K).toRingHom
    (form.map inl) (displace x v) (inl q) i
  change fst _ = ((form.map inl).map fst).residualAt ((displace x v).map fst) q i
    at forgotten
  rwa [map_fst_map_inl, map_fst_displace] at forgotten

theorem fst_derivative_displace
    (form : ProductForm K)
    (x v : Vector K n)
    (q : K)
    (i j : Fin n) :
    fst ((form.map inl).derivative (displace x v) (inl q) i j) =
      form.derivative x q i j := by
  have forgotten := map_derivative (TrivSqZeroExt.fstHom K K K).toRingHom
    (form.map inl) (displace x v) (inl q) i j
  change fst _ = ((form.map inl).map fst).derivative ((displace x v).map fst) q i j
    at forgotten
  rwa [map_fst_map_inl, map_fst_displace] at forgotten

/-- To first order, a displacement changes the residual by the row of the matrix. -/
theorem snd_residualAt_displace
    (form : ProductForm K)
    (x v : Vector K n)
    (q : K)
    (i : Fin n) :
    snd ((form.map inl).residualAt (displace x v) (inl q) i) =
      ∑ j, form.derivative x q i j * v.get j := by
  have fixes : Fixes infinitesimalPart (form.map (inl : K → K[ε])) :=
    fixes_map _ form _ fun _ => rfl
  have chain := derivation_residualAt fixes (displace x v) (q := inl q) rfl i
  have linear : ∀ j, snd ((form.map inl).derivative (displace x v) (inl q) i j *
      infinitesimalPart ((displace x v).get j)) =
        form.derivative x q i j * v.get j := by
    intro j
    rw [infinitesimalPart_apply, DualNumber.snd_mul, fst_derivative_displace,
      displace, Vector.get_ofFn]
    simp
  calc
    snd ((form.map inl).residualAt (displace x v) (inl q) i) =
        snd (infinitesimalPart
          ((form.map inl).residualAt (displace x v) (inl q) i)) := rfl
    _ = snd (∑ j, (form.map inl).derivative (displace x v) (inl q) i j *
          infinitesimalPart ((displace x v).get j)) :=
      congrArg snd chain
    _ = ∑ j, form.derivative x q i j * v.get j := by
      rw [TrivSqZeroExt.snd_sum, sum_congr rfl fun j _ => linear j]

/-- The matrix of derivatives holds the exact derivatives of the residuals, over
every commutative ring and whatever the constants, the roots and the parameter
are. Displacing the roots by an infinitesimal multiple of a direction displaces
the residuals by that multiple of the matrix times the direction, and every
entry is the formal partial derivative of a residual with respect to a root. -/
theorem jacobian_is_exact_derivative
    (form : ProductForm K)
    (x : Vector K n)
    (q : K) :
    (∀ v : Vector K n,
      (form.map inl).residual (displace x v) (inl q) =
        Vector.ofFn fun i =>
          inl ((form.residual x q).get i) +
            (RowMatrix.toMatrix (form.jacobian x q)).mulVec v.get i • ε) ∧
      ∀ i j : Fin n,
        RowMatrix.entry (form.jacobian x q) i j =
          MvPolynomial.eval x.get
            (MvPolynomial.pderiv j (form.residualPolynomial q i)) := by
  have entries : ∀ i j : Fin n,
      RowMatrix.entry (form.jacobian x q) i j = form.derivative x q i j := by
    intro i j
    rw [jacobian, RowMatrix.entry_ofFn, Vector.get_ofFn]
  constructor
  · intro v
    rw [residual]
    congr 1
    funext i
    apply TrivSqZeroExt.ext
    · rw [fst_residualAt_displace, residual, Vector.get_ofFn]
      simp
    · rw [snd_residualAt_displace]
      simp [Matrix.mulVec, dotProduct, entries]
  · intro i j
    rw [entries, eval_pderiv_residualPolynomial]

end Dual
end ProductForm
end RootTrace
