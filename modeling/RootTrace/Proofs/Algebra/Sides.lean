import RootTrace.ProductForm
import Mathlib

/-!
# The ring of two-sided quantities

Over a commutative ring the pairs of sides form a commutative ring, side by
side. A pair of products is then one product, and its difference is additive,
so statements about the two products of an equation are proved once and not
once per side. Each side on its own is a homomorphism, and so is their exchange.
A derivation of the scalars acts on both sides.
-/

namespace RootTrace

universe u

attribute [ext] Sides

namespace Sides

variable {K : Type u}

/-- The same quantity on both sides. -/
def both (value : K) : Sides K :=
  ⟨value, value⟩

@[simp] theorem both_left (value : K) : (both value).left = value := rfl

@[simp] theorem both_right (value : K) : (both value).right = value := rfl

variable [CommRing K]

instance : Zero (Sides K) where
  zero := ⟨0, 0⟩

instance : One (Sides K) where
  one := ⟨1, 1⟩

instance : Add (Sides K) where
  add a b := ⟨a.left + b.left, a.right + b.right⟩

instance : Neg (Sides K) where
  neg a := ⟨-a.left, -a.right⟩

instance : CommRing (Sides K) where
  nsmul := nsmulRec
  zsmul := zsmulRec
  add_assoc _ _ _ := Sides.ext (add_assoc _ _ _) (add_assoc _ _ _)
  zero_add _ := Sides.ext (zero_add _) (zero_add _)
  add_zero _ := Sides.ext (add_zero _) (add_zero _)
  add_comm _ _ := Sides.ext (add_comm _ _) (add_comm _ _)
  neg_add_cancel _ := Sides.ext (neg_add_cancel _) (neg_add_cancel _)
  mul_assoc _ _ _ := Sides.ext (mul_assoc _ _ _) (mul_assoc _ _ _)
  one_mul _ := Sides.ext (one_mul _) (one_mul _)
  mul_one _ := Sides.ext (mul_one _) (mul_one _)
  zero_mul _ := Sides.ext (zero_mul _) (zero_mul _)
  mul_zero _ := Sides.ext (mul_zero _) (mul_zero _)
  left_distrib _ _ _ := Sides.ext (mul_add _ _ _) (mul_add _ _ _)
  right_distrib _ _ _ := Sides.ext (add_mul _ _ _) (add_mul _ _ _)
  mul_comm _ _ := Sides.ext (mul_comm _ _) (mul_comm _ _)

@[simp] theorem one_left : (1 : Sides K).left = 1 := rfl

@[simp] theorem one_right : (1 : Sides K).right = 1 := rfl

@[simp] theorem add_left (a b : Sides K) : (a + b).left = a.left + b.left := rfl

@[simp] theorem add_right (a b : Sides K) : (a + b).right = a.right + b.right := rfl

@[simp] theorem neg_left (a : Sides K) : (-a).left = -a.left := rfl

@[simp] theorem neg_right (a : Sides K) : (-a).right = -a.right := rfl

/-- Multiplying factors onto a start is multiplying by their product. -/
theorem times_eq_mul_prod
    (start : Sides K)
    (factors : List (Sides K)) :
    start.times factors = start * factors.prod := by
  induction factors generalizing start with
  | nil => rw [times_nil, List.prod_nil, mul_one]
  | cons factor factors inductionHypothesis =>
      rw [times_cons, inductionHypothesis, List.prod_cons, mul_assoc]

theorem times_concat (start : Sides K) (factors : List (Sides K)) (last : Sides K) :
    start.times (factors ++ [last]) = start.times factors * last := by
  rw [times_append, times_cons, times_nil]

/-- The difference of the sides as an additive map. -/
def differenceHom : Sides K →+ K where
  toFun := difference
  map_zero' := sub_zero 0
  map_add' a b := add_sub_add_comm a.left b.left a.right b.right

@[simp] theorem differenceHom_apply (a : Sides K) : differenceHom a = a.difference := rfl

theorem difference_neg (a : Sides K) : (-a).difference = -a.difference :=
  map_neg differenceHom a

theorem difference_sum {ι : Type*} (indices : Finset ι) (terms : ι → Sides K) :
    (∑ k ∈ indices, terms k).difference = ∑ k ∈ indices, (terms k).difference :=
  map_sum differenceHom terms indices

theorem difference_mul_both (a : Sides K) (value : K) :
    (a * both value).difference = a.difference * value :=
  (sub_mul a.left a.right value).symm

/-! ## The two sides on their own -/

/-- The left side as a homomorphism. -/
def leftHom : Sides K →+* K where
  toFun := left
  map_one' := rfl
  map_mul' _ _ := rfl
  map_zero' := rfl
  map_add' _ _ := rfl

/-- The right side as a homomorphism. -/
def rightHom : Sides K →+* K where
  toFun := right
  map_one' := rfl
  map_mul' _ _ := rfl
  map_zero' := rfl
  map_add' _ _ := rfl

theorem prod_eq {ι : Type*} (indices : Finset ι) (factors : ι → Sides K) :
    ∏ k ∈ indices, factors k =
      ⟨∏ k ∈ indices, (factors k).left, ∏ k ∈ indices, (factors k).right⟩ :=
  Sides.ext (map_prod leftHom factors indices) (map_prod rightHom factors indices)

theorem list_prod_eq (factors : List (Sides K)) :
    factors.prod = ⟨(factors.map left).prod, (factors.map right).prod⟩ :=
  Sides.ext (map_list_prod leftHom factors) (map_list_prod rightHom factors)

/-! ## The sides exchanged -/

/-- The two sides exchanged. -/
def swap {K : Type u} (a : Sides K) : Sides K :=
  ⟨a.right, a.left⟩

/-- Exchanging the sides as a homomorphism. -/
def swapHom : Sides K →+* Sides K where
  toFun := swap
  map_one' := rfl
  map_mul' _ _ := rfl
  map_zero' := rfl
  map_add' _ _ := rfl

theorem swap_mul (a b : Sides K) : (a * b).swap = a.swap * b.swap := rfl

theorem swap_list_prod (factors : List (Sides K)) :
    factors.prod.swap = (factors.map swap).prod :=
  map_list_prod swapHom factors

theorem difference_swap (a : Sides K) : a.swap.difference = -a.difference :=
  (neg_sub a.left a.right).symm

/-! ## Scalar maps on both sides -/

/-- Apply a map of the scalars to both sides. -/
def map {L : Type*} (f : K → L) (a : Sides K) : Sides L :=
  ⟨f a.left, f a.right⟩

/-- A homomorphism of the scalars acts on both sides as one. -/
def mapHom {L : Type*} [CommRing L] (f : K →+* L) : Sides K →+* Sides L where
  toFun := map f
  map_one' := Sides.ext (map_one f) (map_one f)
  map_mul' _ _ := Sides.ext (map_mul f _ _) (map_mul f _ _)
  map_zero' := Sides.ext (map_zero f) (map_zero f)
  map_add' _ _ := Sides.ext (map_add f _ _) (map_add f _ _)

@[simp] theorem mapHom_apply {L : Type*} [CommRing L] (f : K →+* L) (a : Sides K) :
    mapHom f a = a.map f := rfl

theorem difference_map {L : Type*} [CommRing L] (f : K →+* L) (a : Sides K) :
    (a.map f).difference = f a.difference :=
  (map_sub f a.left a.right).symm

/-- A derivation of the scalars acts on both sides as one. -/
def derivation (D : Derivation ℤ K K) : Derivation ℤ (Sides K) (Sides K) :=
  Derivation.mk'
    (AddMonoidHom.toIntLinearMap
      { toFun := map D
        map_zero' := Sides.ext D.map_zero D.map_zero
        map_add' := fun _ _ => Sides.ext (D.map_add _ _) (D.map_add _ _) })
    (fun _ _ => Sides.ext (D.leibniz _ _) (D.leibniz _ _))

@[simp] theorem derivation_apply (D : Derivation ℤ K K) (a : Sides K) :
    derivation D a = a.map D := rfl

theorem difference_derivation (D : Derivation ℤ K K) (a : Sides K) :
    (derivation D a).difference = D a.difference :=
  (D.map_sub a.left a.right).symm

end Sides

/-! ## Sums and products -/

/-- A sum that is added up from left to right. -/
theorem foldl_add_eq_add_sum
    {A ι : Type*} [AddMonoid A]
    (indices : List ι)
    (term : ι → A)
    (start : A) :
    indices.foldl (fun sum k => sum + term k) start = start + (indices.map term).sum := by
  induction indices generalizing start with
  | nil => exact (add_zero start).symm
  | cons k indices inductionHypothesis =>
      rw [List.foldl_cons, inductionHypothesis, List.map_cons, List.sum_cons, add_assoc]

/-- The product rule for any finite product. -/
theorem derivation_prod
    {A ι : Type*} [CommRing A] [DecidableEq ι]
    (D : Derivation ℤ A A)
    (indices : Finset ι)
    (factors : ι → A) :
    D (∏ k ∈ indices, factors k) =
      ∑ k ∈ indices, (∏ l ∈ indices.erase k, factors l) * D (factors k) := by
  induction indices using Finset.induction_on with
  | empty => simp
  | insert index indices fresh inductionHypothesis =>
      have withoutIndex : ∀ k ∈ indices,
          (∏ l ∈ (insert index indices).erase k, factors l) =
            factors index * ∏ l ∈ indices.erase k, factors l := by
        intro k member
        have different : index ≠ k := by
          rintro rfl
          exact fresh member
        rw [Finset.erase_insert_of_ne different, Finset.prod_insert]
        exact fun present => fresh (Finset.mem_of_mem_erase present)
      rw [Finset.prod_insert fresh, D.leibniz, inductionHypothesis,
        Finset.sum_insert fresh, Finset.erase_insert fresh, smul_eq_mul,
        smul_eq_mul, Finset.mul_sum, add_comm]
      congr 1
      apply Finset.sum_congr rfl
      intro k member
      rw [withoutIndex k member, mul_assoc]

end RootTrace
