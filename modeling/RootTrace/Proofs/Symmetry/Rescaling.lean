import RootTrace.Proofs.ProductForm.RowSums
import RootTrace.Proofs.ProductForm.Transfer

/-!
# Change of the scale and of the origin

The factors of the equations are differences of roots and constants, with or without a shift. A
new origin moves roots and constants alike and leaves the differences, and a new scale multiplies
every difference and every shift. A residual has one factor for every pair and three for every
other root, so it is multiplied by that power of the scale. A derivative has one factor less,
whether a pair is left out or the three factors of one difference give way to products of two.
-/

namespace RootTrace

universe u

variable {K : Type u} {n : Nat}

/-- A new scale and a new origin for the scalars. The scale may be zero. -/
structure Rescaling (K : Type u) where
  /-- What differences are multiplied by. -/
  factor : K
  /-- Where the origin goes. -/
  offset : K

namespace Rescaling

variable [Add K] [Mul K] (change : Rescaling K)

/-- Where a point goes. -/
def point (value : K) : K :=
  change.factor * value + change.offset

end Rescaling

/-- The equations with constants moved as points and shifts scaled as differences. -/
def ProductForm.rescale [Add K] [Mul K] (change : Rescaling K) (form : ProductForm K) :
    ProductForm K where
  shifts :=
    ⟨change.factor * form.shifts.first, change.factor * form.shifts.second,
      change.factor * form.shifts.third⟩
  pairs := form.pairs.map fun pair => ⟨change.point pair.left, change.point pair.right⟩

/-- Both lists moved as points and the shifts scaled as differences. -/
def Config.rescale [Add K] [Mul K] (change : Rescaling K) (config : Config K) : Config K where
  shifts :=
    ⟨change.factor * config.shifts.first, change.factor * config.shifts.second,
      change.factor * config.shifts.third⟩
  constants :=
    ⟨config.constants.left.map change.point, config.constants.right.map change.point⟩

theorem Config.productForm_rescale
    [Add K] [Mul K]
    (change : Rescaling K)
    (config : Config K) :
    (config.rescale change).productForm = config.productForm.rescale change := by
  rw [productForm, productForm, rescale, ProductForm.rescale, List.map_zipWith, List.zipWith_map]

/-! ## Numbers of factors -/

namespace ProductForm

@[simp] theorem length_pairFactors [Sub K] (form : ProductForm K) (root : K) :
    (form.pairFactors root).length = form.pairs.length := by
  simp [pairFactors]

@[simp] theorem length_pairFactorsExcept
    [Sub K]
    (form : ProductForm K)
    (root : K)
    (k : Fin form.pairs.length) :
    (form.pairFactorsExcept root k).length = form.pairs.length - 1 := by
  simp [pairFactorsExcept, List.length_eraseIdx_of_lt]

@[simp] theorem length_differenceFactors
    [Add K] [Sub K]
    (form : ProductForm K)
    (x : Vector K n)
    (i : Fin n)
    (against : List (Fin n)) :
    (form.differenceFactors x i against).length = 3 * against.length := by
  simp [differenceFactors, shiftFactors, Shifts.toList, List.length_flatMap, Nat.mul_comm]

@[simp] theorem length_others (i : Fin n) : (others i).length = n - 1 := by
  rw [← List.toFinset_card_of_nodup (nodup_others i), toFinset_others]
  simp

theorem length_othersExcept {i j : Fin n} (different : i ≠ j) :
    (othersExcept i j).length = n - 2 := by
  rw [← List.toFinset_card_of_nodup (nodup_othersExcept i j), toFinset_othersExcept,
    Finset.card_erase_of_mem (by simp [different.symm])]
  simp [Nat.sub_sub]

end ProductForm

/-! ## Factors on another scale -/

namespace Rescaling

variable [CommRing K] (change : Rescaling K)

/-- The scale on both sides. -/
def scale : Sides K :=
  Sides.both change.factor

theorem scale_pow (count : Nat) : change.scale ^ count = Sides.both (change.factor ^ count) := by
  induction count with
  | zero =>
      rw [pow_zero, pow_zero]
      rfl
  | succ count inductionHypothesis =>
      rw [pow_succ, pow_succ, inductionHypothesis]
      rfl

theorem point_sub_point (value other : K) :
    change.point value - change.point other = change.factor * (value - other) := by
  simp only [point]
  ring

/-- Scaled factors give the product of the factors times a power of the scale. -/
theorem times_map_scale (start : Sides K) (factors : List (Sides K)) :
    start.times (factors.map fun factor => change.scale * factor) =
      change.scale ^ factors.length * start.times factors := by
  rw [Sides.times_eq_mul_prod, Sides.times_eq_mul_prod, List.prod_map_mul, List.map_const',
    List.prod_replicate, List.map_id', mul_left_comm]

theorem difference_scale_pow_mul (count : Nat) (sides : Sides K) :
    (change.scale ^ count * sides).difference = change.factor ^ count * sides.difference := by
  rw [scale_pow, mul_comm, Sides.difference_mul_both, mul_comm]

/-- Both products are multiplied by the scale as often as there are factors. -/
theorem difference_times_map_scale
    (start : Sides K)
    {factors : List (Sides K)}
    {count : Nat}
    (length : factors.length = count) :
    (start.times (factors.map fun factor => change.scale * factor)).difference =
      change.factor ^ count * (start.times factors).difference := by
  rw [times_map_scale, difference_scale_pow_mul, length]

variable (form : ProductForm K) (x : Vector K n) (i : Fin n)

/-- Every factor is multiplied by the scale. -/
def transfer : form.Transfer (form.rescale change) where
  point := change.point
  pair pair := ⟨change.point pair.left, change.point pair.right⟩
  factor factor := change.scale * factor
  pairs_eq := rfl
  pairFactor_eq _ _ := Sides.ext (change.point_sub_point _ _) (change.point_sub_point _ _)
  shiftFactors_eq root other := by
    rw [point_sub_point]
    simp only [ProductForm.shiftFactors, Shifts.toList, ProductForm.rescale, List.map_cons,
      List.map_nil, ← mul_add, ← mul_sub]
    rfl

/-- Products of two of three terms carry the scale twice. -/
theorem shiftDerivative_rescale (difference : K) :
    (form.rescale change).shiftDerivative (change.factor * difference) =
      change.scale ^ 2 * form.shiftDerivative difference := by
  rw [sq]
  apply Sides.ext
  · simp only [ProductForm.shiftDerivative, ProductForm.pairProducts, ProductForm.rescale, scale,
      Sides.mul_left, Sides.both_left]
    ring
  · simp only [ProductForm.shiftDerivative, ProductForm.pairProducts, ProductForm.rescale, scale,
      Sides.mul_right, Sides.both_right]
    ring

/-! ## Equations and derivatives on another scale -/

variable (q : K)

theorem residualAt_rescale :
    (form.rescale change).residualAt (x.map change.point) q i =
      change.factor ^ (form.pairs.length + 3 * (n - 1)) * form.residualAt x q i := by
  rw [(change.transfer form).residualAt_eq (Vector.get_map x change.point)]
  exact change.difference_times_map_scale _ (by simp)

/-- The term of a pair has one factor less than the residual, since the pair is left out. -/
theorem pairTerm_rescale
    {k : Fin form.pairs.length}
    {l : Fin (form.rescale change).pairs.length}
    (same : l.val = k.val) :
    change.factor * (form.rescale change).pairTerm (x.map change.point) q i l =
      change.factor ^ (form.pairs.length + 3 * (n - 1)) * form.pairTerm x q i k := by
  have factors : form.pairs.length + 3 * (n - 1) = form.pairs.length - 1 + 3 * (n - 1) + 1 := by
    have inside := k.isLt
    omega
  rw [(change.transfer form).pairTerm_eq (Vector.get_map x change.point) q i same, factors,
    pow_succ', mul_assoc]
  congr 1
  exact change.difference_times_map_scale _ (by simp)

/-- The term of another root has one factor less than the residual as well: against another root
there are two roots at least, so its three factors can give way to products of two. -/
theorem differenceTerm_rescale {j : Fin n} (different : i ≠ j) :
    change.factor * (form.rescale change).differenceTerm (x.map change.point) q i j =
      change.factor ^ (form.pairs.length + 3 * (n - 1)) * form.differenceTerm x q i j := by
  have factors : form.pairs.length + 3 * (n - 1) =
      form.pairs.length + 3 * (n - 2) + 2 + 1 := by
    have inside := i.isLt
    have insideOther := j.isLt
    have distinct := Fin.val_ne_of_ne different
    omega
  have length : (form.pairFactors (x.get i) ++
      form.differenceFactors x i (ProductForm.othersExcept i j)).length =
        form.pairs.length + 3 * (n - 2) := by
    simp [ProductForm.length_othersExcept different]
  rw [(change.transfer form).differenceTerm_eq (Vector.get_map x change.point), factors,
    pow_succ', mul_assoc]
  congr 1
  change Sides.difference (Sides.times _
    (List.map (fun factor => change.scale * factor) _ ++
      [(form.rescale change).shiftDerivative (change.point _ - change.point _)])) = _
  rw [point_sub_point, shiftDerivative_rescale, Sides.times_concat, times_map_scale, length,
    mul_mul_mul_comm, ← pow_add, difference_scale_pow_mul, ProductForm.differenceTerm,
    Sides.times_concat]

/-- A derivative is multiplied by one power of the scale less than the residual. -/
theorem derivative_rescale (j : Fin n) :
    change.factor * (form.rescale change).derivative (x.map change.point) q i j =
      change.factor ^ (form.pairs.length + 3 * (n - 1)) * form.derivative x q i j :=
  ProductForm.derivative_of_terms (change.transfer form).length_pairs_eq (Equiv.refl (Fin n))
    (AddMonoidHom.mulLeft (change.factor ^ (form.pairs.length + 3 * (n - 1))))
    (AddMonoidHom.mulLeft change.factor)
    (fun _ _ same => change.pairTerm_rescale form x i q same)
    (fun _ different => change.differenceTerm_rescale form x i q different) j

end Rescaling

/-- The equations follow a change of the scale and of the origin. With `N` pairs and `n` roots
every residual is multiplied by the scale to the power `N + 3 * (n - 1)`, and so is every
derivative up to the one power that belongs to the root it is taken by. -/
theorem equations_follow_rescaling
    [CommRing K]
    (config : Config K)
    (paired : config.constants.left.length = config.constants.right.length)
    (change : Rescaling K)
    (x : Vector K n)
    (q : K) :
    (config.rescale change).constants.left.length =
        (config.rescale change).constants.right.length ∧
    (∀ i, ((config.rescale change).productForm.residual (x.map change.point) q).get i =
      change.factor ^ (config.pairCount + 3 * (n - 1)) * (config.productForm.residual x q).get i) ∧
    ∀ i j,
      change.factor *
          RowMatrix.entry ((config.rescale change).productForm.jacobian (x.map change.point) q) i j =
        change.factor ^ (config.pairCount + 3 * (n - 1)) *
          RowMatrix.entry (config.productForm.jacobian x q) i j := by
  rw [config.productForm_rescale, ← Config.length_pairs_productForm paired]
  refine ⟨?_, ?_, ?_⟩
  · simpa [Config.rescale] using paired
  · intro i
    rw [ProductForm.get_residual, ProductForm.get_residual, change.residualAt_rescale]
  · intro i j
    rw [ProductForm.entry_jacobian, ProductForm.entry_jacobian, change.derivative_rescale]

/-- Doubling, turning by a right angle and moving the origin multiplies the residuals of two
roots with two pairs by the fifth power of the scale. -/
theorem twoPairs_follow_rescaling :
    ((twoPairs.rescale ⟨⟨0, 2⟩, ⟨1, 1⟩⟩).productForm.residual
        #v[⟨1, 11⟩, ⟨1, 9⟩] ⟨2, 0⟩).get 0 =
      ⟨0, 32⟩ * (twoPairs.productForm.residual #v[⟨5, 0⟩, ⟨4, 0⟩] ⟨2, 0⟩).get 0 ∧
    ⟨0, 2⟩ * RowMatrix.entry ((twoPairs.rescale ⟨⟨0, 2⟩, ⟨1, 1⟩⟩).productForm.jacobian
        #v[⟨1, 11⟩, ⟨1, 9⟩] ⟨2, 0⟩) 0 1 =
      ⟨0, 32⟩ *
        RowMatrix.entry (twoPairs.productForm.jacobian #v[⟨5, 0⟩, ⟨4, 0⟩] ⟨2, 0⟩) 0 1 := by
  have power : (⟨0, 2⟩ : Complex ℚ) ^ (twoPairs.pairCount + 3 * (2 - 1)) = ⟨0, 32⟩ := by
    decide +kernel
  have moved : (#v[⟨5, 0⟩, ⟨4, 0⟩] : Vector (Complex ℚ) 2).map
      (Rescaling.point ⟨⟨0, 2⟩, ⟨1, 1⟩⟩) = #v[⟨1, 11⟩, ⟨1, 9⟩] := by
    decide +kernel
  obtain ⟨_, residual, jacobian⟩ := equations_follow_rescaling twoPairs rfl ⟨⟨0, 2⟩, ⟨1, 1⟩⟩
    #v[⟨5, 0⟩, ⟨4, 0⟩] ⟨2, 0⟩
  rw [moved, power] at residual jacobian
  exact ⟨residual 0, jacobian 0 1⟩

end RootTrace
