import RootTrace.Proofs.ProductForm.Transfer
import RootTrace.Proofs.Symmetry.Transport

/-!
# Duality of the two sides

Exchanging left and right constants and negating the shifts exchanges the two products of
every equation, except that the parameter stays on the left. Dividing by the parameter brings
it to the other side, so at the inverse parameter the dual equations and their derivatives
are the negated quotients of the original ones by the parameter. A common factor does not
change what a linear system has for solutions, so the corrections are the same.
-/

namespace RootTrace

universe u

variable {K : Type u} {n : Nat}

/-- The equations with left and right constants exchanged and the shifts negated. -/
def ProductForm.dual [Neg K] (form : ProductForm K) : ProductForm K where
  shifts := ⟨-form.shifts.first, -form.shifts.second, -form.shifts.third⟩
  pairs := form.pairs.map Sides.swap

/-- The constants with both lists exchanged and the shifts negated. -/
def Config.dual [Neg K] (config : Config K) : Config K where
  shifts := ⟨-config.shifts.first, -config.shifts.second, -config.shifts.third⟩
  constants := ⟨config.constants.right, config.constants.left⟩

theorem Config.productForm_dual [Neg K] (config : Config K) :
    config.dual.productForm = config.productForm.dual := by
  rw [productForm, productForm, dual, ProductForm.dual, List.map_zipWith, List.zipWith_comm]
  rfl

/-! ## Equations and derivatives -/

namespace ProductForm

variable [CommRing K] (form : ProductForm K) (x : Vector K n) (i j : Fin n)

/-- Every factor has its sides exchanged. -/
def dualTransfer : Transfer form form.dual where
  point := id
  pair := Sides.swap
  factor := Sides.swap
  pairs_eq := rfl
  pairFactor_eq _ _ := rfl
  shiftFactors_eq root other := by
    simp [shiftFactors, Shifts.toList, dual, Sides.swap, ← sub_eq_add_neg]

theorem shiftDerivative_dual (difference : K) :
    form.dual.shiftDerivative difference = (form.shiftDerivative difference).swap := by
  simp [shiftDerivative, dual, Sides.swap, ← sub_eq_add_neg]

variable {q p : K}

/-- Exchanging the sides of all factors, with the inverse as start, negates the difference and
divides it by the start. -/
theorem difference_times_swap
    (inverse : q * p = 1)
    (factors : List (Sides K)) :
    ((start p).times (factors.map Sides.swap)).difference =
      -((start q).times factors).difference * p := by
  have exchanged : start p = (start q).swap * Sides.both p :=
    Sides.ext (one_mul p).symm inverse.symm
  calc
    ((start p).times (factors.map Sides.swap)).difference =
        ((start q * factors.prod).swap * Sides.both p).difference := by
      rw [Sides.times_eq_mul_prod, exchanged, Sides.swap_mul, Sides.swap_list_prod,
        mul_right_comm]
    _ = -((start q).times factors).difference * p := by
      rw [Sides.difference_mul_both, Sides.difference_swap, Sides.times_eq_mul_prod]

theorem residualAt_dual (inverse : q * p = 1) :
    form.dual.residualAt x p i = -form.residualAt x q i * p := by
  rw [form.dualTransfer.residualAt_eq fun _ => rfl]
  exact difference_times_swap inverse _

/-- At the inverse parameter the term of a pair is the negated quotient by the parameter. -/
theorem pairTerm_dual
    (inverse : q * p = 1)
    {k : Fin form.pairs.length}
    {l : Fin form.dual.pairs.length}
    (same : l.val = k.val) :
    form.dual.pairTerm x p i l = -form.pairTerm x q i k * p := by
  rw [form.dualTransfer.pairTerm_eq (fun _ => rfl) p i same]
  exact difference_times_swap inverse _

theorem differenceTerm_dual (inverse : q * p = 1) :
    form.dual.differenceTerm x p i j = -form.differenceTerm x q i j * p := by
  have swapped := difference_times_swap inverse
    (form.pairFactors (x.get i) ++ form.differenceFactors x i (othersExcept i j) ++
      [form.shiftDerivative (x.get i - x.get j)])
  rw [List.map_append, List.map_singleton] at swapped
  rw [form.dualTransfer.differenceTerm_eq fun _ => rfl, shiftDerivative_dual]
  exact swapped

theorem derivative_dual (inverse : q * p = 1) :
    form.dual.derivative x p i j = -form.derivative x q i j * p := by
  have terms := derivative_of_terms form.dualTransfer.length_pairs_eq (Equiv.refl (Fin n))
    (AddMonoidHom.mulRight (-p)) (AddMonoidHom.id K)
    (fun k l same => (form.pairTerm_dual x i inverse same).trans (neg_mul_comm _ p))
    (fun k _ => (form.differenceTerm_dual x i k inverse).trans (neg_mul_comm _ p)) j
  exact terms.trans (neg_mul_comm _ p).symm

theorem residual_dual (inverse : q * p = 1) :
    form.dual.residual x p = (form.residual x q).map fun value => -value * p := by
  apply Vector.ext
  intro index inside
  rw [residual, residual, Vector.getElem_map, Vector.getElem_ofFn, Vector.getElem_ofFn]
  exact form.residualAt_dual x ⟨index, inside⟩ inverse

theorem jacobian_dual (inverse : q * p = 1) :
    form.dual.jacobian x p = (form.jacobian x q).map (Vector.map fun value => -value * p) := by
  apply Vector.ext
  intro row insideRow
  apply Vector.ext
  intro column insideColumn
  rw [jacobian, jacobian, Vector.getElem_map, Vector.getElem_map, Vector.getElem_ofFn,
    Vector.getElem_ofFn, Vector.getElem_ofFn, Vector.getElem_ofFn]
  exact form.derivative_dual x ⟨row, insideRow⟩ ⟨column, insideColumn⟩ inverse

end ProductForm

/-! ## Systems with a common factor -/

section Scaled

open Matrix Corrector

variable {α : Type u} [Field α] [LinearOrder α] [IsStrictOrderedRing α]
  [Magnitude α] [ExactMagnitude α]

/-- A system whose residuals and derivatives have a common invertible factor takes the same
steps. -/
theorem Agreement.ofScaled
    {system image : RootSystem α}
    {q q' factor : Complex α}
    (damping : α)
    (invertible : IsUnit factor)
    (residual : ∀ x : Vector (Complex α) n,
      (image.residual x q').get = factor • (system.residual x q).get)
    (jacobian : ∀ x : Vector (Complex α) n,
      (image.jacobian x q').toMatrix = factor • (system.jacobian x q).toMatrix) :
    Agreement system image damping (id : Vector (Complex α) n → _) q q' := by
  apply Agreement.ofNewton
  case invertible =>
    intro x
    obtain ⟨unit, rfl⟩ := invertible
    rw [id, jacobian]
    exact isUnit_smul_iff unit _
  case solves =>
    intro x y solved
    rw [id, jacobian, smul_mulVec, id, solved]
    funext i
    rw [Pi.smul_apply, smul_eq_mul, dampedResidual, dampedResidual, residual, Pi.smul_apply,
      smul_eq_mul, Complex.scale_eq_mul, Complex.scale_eq_mul, mul_assoc]
  case absSum => exact fun x => rfl

/-- The dual equations at the inverse parameter agree with the equations. -/
theorem agreement_dual
    (form : ProductForm (Complex α))
    (damping : α)
    {q p : Complex α}
    (inverse : q * p = 1) :
    Agreement (.ofProductForm form) (.ofProductForm form.dual) damping
      (id : Vector (Complex α) n → _) q p := by
  have invertible : IsUnit (-p) := (IsUnit.of_mul_eq_one_right q inverse).neg
  apply Agreement.ofScaled damping invertible
  case residual =>
    intro x
    funext i
    rw [RootSystem.get_residual_ofProductForm, RootSystem.get_residual_ofProductForm,
      form.residualAt_dual x i inverse, Pi.smul_apply, smul_eq_mul]
    ring
  case jacobian =>
    intro x
    rw [RootSystem.toMatrix_jacobian_ofProductForm, RootSystem.toMatrix_jacobian_ofProductForm]
    apply Matrix.ext
    intro i j
    rw [Matrix.smul_apply, Matrix.of_apply, Matrix.of_apply, form.derivative_dual x i j inverse,
      smul_eq_mul]
    ring

/-- The two sides of the equations are dual to each other. Exchanging left and right constants
and negating the shifts leads from accepted constants to accepted constants. At the inverse of
a parameter the dual equations and their derivatives are the negated quotients of the original
ones by the parameter, and every correction comes to the same roots with the same iterations
and the same change, or fails for the same cause. -/
theorem dual_equations_have_the_same_corrections
    (config : Config (Complex α))
    (valid : config.check = .ok ⟨⟩)
    (q : Complex α)
    (nonzero : q ≠ 0) :
    config.dual.check = .ok ⟨⟩ ∧
    (∀ (n : Nat) (x : Vector (Complex α) n),
      (RootSystem.ofProductForm config.dual.productForm).residual x q.inverse =
          ((RootSystem.ofProductForm config.productForm).residual x q).map
            (fun value => (-value).divide q) ∧
        (RootSystem.ofProductForm config.dual.productForm).jacobian x q.inverse =
          ((RootSystem.ofProductForm config.productForm).jacobian x q).map
            (Vector.map fun value => (-value).divide q)) ∧
    ∀ (n : Nat) (settings : Settings α) (seed : Vector (Complex α) n),
      (correct (.ofProductForm config.dual.productForm) settings seed q.inverse).outcome =
        (correct (.ofProductForm config.productForm) settings seed q).outcome := by
  have inverse := Complex.mul_inverse_of_ne_zero nonzero
  rw [config.productForm_dual]
  refine ⟨?_, ?_, ?_⟩
  · exact config.dual.check_eq_ok_iff.mpr (config.check_eq_ok_iff.mp valid).symm
  · intro n x
    exact ⟨config.productForm.residual_dual x inverse, config.productForm.jacobian_dual x inverse⟩
  · intro n settings seed
    exact (agreement_dual config.productForm settings.damping inverse).outcome_correct_eq seed

end Scaled

/-- Constants with one shift, one left and one right constant. -/
def oneShift : Config (Complex ℚ) :=
  ⟨⟨1, 0, 0⟩, ⟨[0], [1]⟩⟩

/-- One step from two roots at the parameter two is the step of the dual equations at one
half. -/
theorem dual_of_oneShift_has_the_same_correction :
    (Corrector.correct (.ofProductForm oneShift.dual.productForm) ⟨1, 1, 1, false⟩ #v[0, ⟨3, 0⟩]
        ⟨1 / 2, 0⟩).outcome =
      .ok ⟨#v[⟨10 / 11, 0⟩, ⟨31 / 11, 0⟩], 1, true, 8 / 11⟩ := by
  have valid : oneShift.check = .ok ⟨⟩ := by
    decide +kernel
  have original : (Corrector.correct (.ofProductForm oneShift.productForm) ⟨1, 1, 1, false⟩
      #v[0, ⟨3, 0⟩] ⟨2, 0⟩).outcome =
        .ok ⟨#v[⟨10 / 11, 0⟩, ⟨31 / 11, 0⟩], 1, true, 8 / 11⟩ := by
    decide +kernel
  have half : (⟨2, 0⟩ : Complex ℚ).inverse = ⟨1 / 2, 0⟩ := by
    decide +kernel
  obtain ⟨_, _, same⟩ :=
    dual_equations_have_the_same_corrections oneShift valid ⟨2, 0⟩ (by decide +kernel)
  rw [← half, same]
  exact original

end RootTrace
