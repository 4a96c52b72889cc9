import RootTrace.Proofs.ProductForm.Transfer
import RootTrace.Proofs.Symmetry.Transport

/-!
# The order of the roots

A family of equations in product form has the same constants for every root, so
exchanging roots exchanges their residuals, and the rows and columns of the derivatives.
Over exact arithmetic the solver depends on nothing else. It follows permuted roots to the
permuted values, although the elimination pivots differently on the permuted derivatives.
-/

namespace RootTrace

universe u

open Finset

/-- The entries of a vector in another order. -/
def permute {K : Type u} {n : Nat} (σ : Equiv.Perm (Fin n)) (x : Vector K n) : Vector K n :=
  Vector.ofFn fun i => x.get (σ i)

@[simp] theorem get_permute {K : Type u} {n : Nat} (σ : Equiv.Perm (Fin n)) (x : Vector K n)
    (i : Fin n) : (permute σ x).get i = x.get (σ i) := by
  rw [permute, Vector.get_ofFn]

theorem permute_swap_eq_self
    {K : Type u} {n : Nat}
    {x : Vector K n}
    {i j : Fin n}
    (equal : x.get i = x.get j) :
    permute (Equiv.swap i j) x = x := by
  apply eq_of_get_eq
  funext k
  rw [get_permute]
  by_cases first : k = i
  · rw [first, Equiv.swap_apply_left, equal]
  · by_cases second : k = j
    · rw [second, Equiv.swap_apply_right, equal]
    · rw [Equiv.swap_apply_of_ne_of_ne first second]

/-! ## Equations and derivatives -/

namespace ProductForm

variable {K : Type u} [CommRing K] {n : Nat} (form : ProductForm K) (x : Vector K n) (q : K)
  (σ : Equiv.Perm (Fin n)) (i j k : Fin n)

theorem differenceProduct_permute (kept : Finset (Fin n)) :
    form.differenceProduct (permute σ x) i kept =
      form.differenceProduct x (σ i) (kept.map σ.toEmbedding) := by
  rw [differenceProduct, differenceProduct, prod_map]
  simp

/-- Permuted roots have the permuted residuals. -/
theorem residualAt_permute :
    form.residualAt (permute σ x) q i = form.residualAt x q (σ i) := by
  rw [residualAt_eq, residualAt_eq, differenceProduct_permute, map_univ_erase, get_permute]

theorem pairTerm_permute (pair : Fin form.pairs.length) :
    form.pairTerm (permute σ x) q i pair = form.pairTerm x q (σ i) pair := by
  rw [pairTerm_eq, pairTerm_eq, differenceProduct_permute, map_univ_erase, get_permute]

theorem differenceTerm_permute :
    form.differenceTerm (permute σ x) q i k = form.differenceTerm x q (σ i) (σ k) := by
  rw [differenceTerm_eq, differenceTerm_eq, differenceProduct_permute, map_erase,
    map_univ_erase, get_permute, get_permute]
  rfl

/-- Permuted roots have the derivatives with permuted rows and columns. -/
theorem derivative_permute :
    form.derivative (permute σ x) q i j = form.derivative x q (σ i) (σ j) := by
  apply derivative_of_terms rfl σ (AddMonoidHom.id K) (AddMonoidHom.id K)
  · intro k l same
    obtain rfl := Fin.ext same
    exact form.pairTerm_permute x q σ i l
  · intro k _
    exact form.differenceTerm_permute x q σ i k

end ProductForm

/-! ## Steps -/

section Steps

variable {α : Type u} {n : Nat} (σ : Equiv.Perm (Fin n)) (form : ProductForm (Complex α))
  (x : Vector (Complex α) n) (q : Complex α)

open Matrix Corrector

theorem toMatrix_jacobian_permute [CommRing α] :
    ((RootSystem.ofProductForm form).jacobian (permute σ x) q).toMatrix =
      ((RootSystem.ofProductForm form).jacobian x q).toMatrix.submatrix σ σ := by
  rw [RootSystem.toMatrix_jacobian_ofProductForm, RootSystem.toMatrix_jacobian_ofProductForm]
  apply Matrix.ext
  intro i j
  exact form.derivative_permute x q σ i j

theorem dampedResidual_permute [Field α] (damping : α) :
    dampedResidual (.ofProductForm form) damping q (permute σ x) =
      dampedResidual (.ofProductForm form) damping q x ∘ σ := by
  funext i
  rw [Function.comp_apply, dampedResidual, dampedResidual,
    RootSystem.get_residual_ofProductForm, RootSystem.get_residual_ofProductForm,
    ProductForm.residualAt_permute]

theorem absSum_permute [AddCommMonoid α] [Magnitude α] :
    Complex.absSum (permute σ x).toList = Complex.absSum x.toList := by
  have reordered : List.Perm (permute σ x).toList x.toList := by
    rw [permute, Vector.toList_ofFn, ← Track.map_get_finRange x, ← List.ofFn_eq_map]
    exact Equiv.Perm.ofFn_comp_perm σ x.get
  rw [Complex.absSum, Complex.absSum, foldl_add_eq_add_sum, foldl_add_eq_add_sum,
    (reordered.map Complex.modulus).sum_eq]

/-- Permuting the roots is a symmetry of equations in product form. -/
theorem symmetry_permute
    [Field α] [LinearOrder α] [IsStrictOrderedRing α] [Magnitude α] [ExactMagnitude α]
    (damping : α) :
    Symmetry (.ofProductForm form) (.ofProductForm form) damping (permute σ) id := by
  apply Symmetry.ofNewton
  case invertible =>
    intro q x
    rw [id, toMatrix_jacobian_permute]
    exact isUnit_submatrix_equiv σ σ
  case solves =>
    intro q x y solved
    have moved : (permute σ x).get - (permute σ y).get = (x.get - y.get) ∘ σ := by
      funext i
      rw [Pi.sub_apply, get_permute, get_permute]
      rfl
    rw [id, toMatrix_jacobian_permute, moved, submatrix_mulVec_equiv, Function.comp_assoc,
      Equiv.self_comp_symm, Function.comp_id, dampedResidual_permute, solved]
  case absSum => exact fun x => absSum_permute σ x

end Steps

/-! ## Whole paths -/

/-- A trajectory that holds the roots of another one in another order. -/
structure Trajectory.Permutes {α : Type u} {n : Nat} (σ : Equiv.Perm (Fin n))
    (original permuted : Trajectory α) : Prop where
  dimension : original.dimension = n ∧ permuted.dimension = n
  component? : ∀ i : Fin n, permuted.component? i = original.component? (σ i)
  unconvergedSteps : permuted.unconvergedSteps = original.unconvergedSteps

theorem Track.permutes_trajectory
    {α : Type u} {n : Nat}
    (σ : Equiv.Perm (Fin n))
    (track : Track α n) :
    track.trajectory.Permutes σ (track.map (permute σ)).trajectory := by
  refine ⟨⟨track.dimension_trajectory, Track.dimension_trajectory _⟩, ?_, rfl⟩
  intro i
  rw [component?_trajectory, component?_trajectory, map, List.map_map]
  congr 2
  funext roots
  exact get_permute σ roots i

section Paths

variable {α : Type u} [Field α] [LinearOrder α] [IsStrictOrderedRing α]
  [Magnitude α] [ExactMagnitude α] {n : Nat}
  (form : ProductForm (Complex α)) (settings : Settings α) (seed : Vector (Complex α) n)
  (path : List (Complex α)) (σ : Equiv.Perm (Fin n))

/-- From permuted roots a path leads to the permuted track or to the same failure. -/
theorem outcome_trajectory_permute :
    ((Problem.mk (.ofProductForm form) settings (permute σ seed)).trajectory path).outcome =
      ((Problem.mk (.ofProductForm form) settings seed).trace path).outcome.map
        fun track => (track.map (permute σ)).trajectory := by
  have carried := (symmetry_permute σ form settings.damping).outcome_trajectory
    ⟨.ofProductForm form, settings, seed⟩ path
  rw [List.map_id] at carried
  refine carried.trans ?_
  cases ((Problem.mk (.ofProductForm form) settings seed).trace path).outcome with
  | ok track => rfl
  | error failure => exact congrArg Except.error failure.map_id

/-- If the roots can be followed, then so can the permuted roots, to the permuted components. -/
theorem exists_permutes_of_trajectory
    (original : Trajectory α)
    (followed : ((Problem.mk (.ofProductForm form) settings seed).trajectory path).outcome =
      .ok original) :
    ∃ permuted,
      ((Problem.mk (.ofProductForm form) settings (permute σ seed)).trajectory path).outcome =
          .ok permuted ∧
        original.Permutes σ permuted := by
  rw [outcome_trajectory_permute]
  rw [Problem.trajectory, Run.outcome_map] at followed
  cases traced : ((Problem.mk (.ofProductForm form) settings seed).trace path).outcome with
  | error failure =>
      rw [traced] at followed
      cases followed
  | ok track =>
      rw [traced] at followed
      cases followed
      exact ⟨_, rfl, track.permutes_trajectory σ⟩

theorem trajectory_permute_eq_error_iff (failure : Failure α) :
    ((Problem.mk (.ofProductForm form) settings (permute σ seed)).trajectory path).outcome =
        .error failure ↔
      ((Problem.mk (.ofProductForm form) settings seed).trajectory path).outcome =
        .error failure := by
  rw [outcome_trajectory_permute, Problem.trajectory, Run.outcome_map]
  cases ((Problem.mk (.ofProductForm form) settings seed).trace path).outcome with
  | error other => exact Iff.rfl
  | ok track => simp [Except.map, Functor.map]

/-- The order of the roots plays no part. From permuted roots a path is followed exactly if it is
from the roots themselves, to the same values in the new order and with the same steps that did
not converge; otherwise both fail at the same point for the same cause. Exchanging roots that are
equal at the beginning changes nothing, so they are equal at every point. -/
theorem root_order_is_irrelevant :
    (∀ original,
      ((Problem.mk (.ofProductForm form) settings seed).trajectory path).outcome =
          .ok original →
        ∃ permuted,
          ((Problem.mk (.ofProductForm form) settings (permute σ seed)).trajectory
              path).outcome = .ok permuted ∧
            original.Permutes σ permuted) ∧
    (∀ permuted,
      ((Problem.mk (.ofProductForm form) settings (permute σ seed)).trajectory path).outcome =
          .ok permuted →
        ∃ original,
          ((Problem.mk (.ofProductForm form) settings seed).trajectory path).outcome =
              .ok original ∧
            original.Permutes σ permuted) ∧
    (∀ failure,
      ((Problem.mk (.ofProductForm form) settings (permute σ seed)).trajectory path).outcome =
          .error failure ↔
        ((Problem.mk (.ofProductForm form) settings seed).trajectory path).outcome =
          .error failure) ∧
    ∀ i j, seed.get i = seed.get j → ∀ trajectory,
      ((Problem.mk (.ofProductForm form) settings seed).trajectory path).outcome =
          .ok trajectory →
        trajectory.component? i = trajectory.component? j := by
  have forward := exists_permutes_of_trajectory form settings seed path
  have failures := trajectory_permute_eq_error_iff form settings seed path σ
  refine ⟨forward σ, ?_, failures, ?_⟩
  case refine_1 =>
    intro permuted followed
    cases outcome :
        ((Problem.mk (.ofProductForm form) settings seed).trajectory path).outcome with
    | error failure => cases followed.symm.trans ((failures failure).mpr outcome)
    | ok original =>
        obtain ⟨other, same, permutes⟩ := forward σ original outcome
        cases followed.symm.trans same
        exact ⟨original, rfl, permutes⟩
  case refine_2 =>
    intro i j equal trajectory followed
    obtain ⟨exchanged, same, permutes⟩ := forward (Equiv.swap i j) trajectory followed
    rw [permute_swap_eq_self equal] at same
    cases followed.symm.trans same
    rw [permutes.component? i, Equiv.swap_apply_left]

end Paths

/-- Equations with one shift and one pair of constants. -/
def shiftedPair : ProductForm (Complex ℚ) :=
  ⟨⟨1, 0, 0⟩, [⟨0, 1⟩]⟩

/-- From two roots in the other order, the path leads to the two lists of values in the
other order, and the same step does not converge. -/
theorem root_order_is_irrelevant_to_shiftedPair :
    ∃ permuted,
      ((Problem.mk (.ofProductForm shiftedPair) ⟨1, 1, 1, false⟩
          (permute (Equiv.swap 0 1) #v[0, ⟨3, 0⟩])).trajectory [⟨2, 0⟩, ⟨3, 0⟩]).outcome =
            .ok permuted ∧
        permuted.component? 0 = some [⟨31 / 11, 0⟩, ⟨31455 / 17138, 0⟩] ∧
        permuted.component? 1 = some [⟨10 / 11, 0⟩, ⟨7263 / 17138, 0⟩] ∧
        permuted.unconvergedSteps = [1] := by
  have followed :
      ((Problem.mk (.ofProductForm shiftedPair) ⟨1, 1, 1, false⟩
          #v[0, ⟨3, 0⟩]).trajectory [⟨2, 0⟩, ⟨3, 0⟩]).outcome =
        .ok ⟨[[⟨10 / 11, 0⟩, ⟨7263 / 17138, 0⟩], [⟨31 / 11, 0⟩, ⟨31455 / 17138, 0⟩]],
          [1]⟩ := by
    decide +kernel
  obtain ⟨permuted, followedToo, permutes⟩ :=
    (root_order_is_irrelevant shiftedPair _ _ _ (Equiv.swap 0 1)).1 _ followed
  exact ⟨permuted, followedToo, permutes.component? 0, permutes.component? 1,
    permutes.unconvergedSteps⟩

end RootTrace
