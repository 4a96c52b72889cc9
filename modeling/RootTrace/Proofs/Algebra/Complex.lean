import RootTrace.Complex
import Mathlib

/-!
# Complex numbers over exact scalars

Over a commutative ring the complex numbers are a commutative ring. Over an
ordered field, magnitudes are exact when the absolute value is that of the field
and every scalar counts as a finite number; nothing is asked of the length of a
plane vector.
-/

namespace RootTrace

universe u

attribute [ext] Complex

namespace Complex

variable {α : Type u} [CommRing α]

instance : CommRing (Complex α) where
  sub z w := z - w
  nsmul := nsmulRec
  zsmul := zsmulRec
  add_assoc _ _ _ := Complex.ext (add_assoc _ _ _) (add_assoc _ _ _)
  zero_add _ := Complex.ext (zero_add _) (zero_add _)
  add_zero _ := Complex.ext (add_zero _) (add_zero _)
  add_comm _ _ := Complex.ext (add_comm _ _) (add_comm _ _)
  neg_add_cancel _ := Complex.ext (neg_add_cancel _) (neg_add_cancel _)
  sub_eq_add_neg _ _ := Complex.ext (sub_eq_add_neg _ _) (sub_eq_add_neg _ _)
  mul_assoc _ _ _ := by
    ext
    · simp only [mul_re, mul_im]
      ring
    · simp only [mul_re, mul_im]
      ring
  one_mul _ := by
    ext <;> simp
  mul_one _ := by
    ext <;> simp
  zero_mul _ := by
    ext <;> simp
  mul_zero _ := by
    ext <;> simp
  left_distrib _ _ _ := by
    ext
    · simp only [mul_re, add_re, add_im]
      ring
    · simp only [mul_im, add_re, add_im]
      ring
  right_distrib _ _ _ := by
    ext
    · simp only [mul_re, add_re, add_im]
      ring
    · simp only [mul_im, add_re, add_im]
      ring
  mul_comm _ _ := by
    ext
    · simp only [mul_re]
      ring
    · simp only [mul_im]
      ring

instance [Nontrivial α] : Nontrivial (Complex α) where
  exists_pair_ne := ⟨0, 1, fun equal => zero_ne_one (congrArg re equal)⟩

/-- The real part as an additive map. -/
def reHom : Complex α →+ α where
  toFun := re
  map_zero' := rfl
  map_add' _ _ := rfl

/-- The imaginary part as an additive map. -/
def imHom : Complex α →+ α where
  toFun := im
  map_zero' := rfl
  map_add' _ _ := rfl

theorem re_sum {ι : Type*} (indices : Finset ι) (terms : ι → Complex α) :
    (∑ k ∈ indices, terms k).re = ∑ k ∈ indices, (terms k).re :=
  map_sum reHom terms indices

theorem im_sum {ι : Type*} (indices : Finset ι) (terms : ι → Complex α) :
    (∑ k ∈ indices, terms k).im = ∑ k ∈ indices, (terms k).im :=
  map_sum imHom terms indices

/-- A real scalar acts as the complex number without imaginary part. -/
theorem scale_eq_mul (z : Complex α) (factor : α) : z.scale factor = z * ⟨factor, 0⟩ := by
  ext <;> simp

/-- Over an ordered field every complex number but zero has an inverse. -/
theorem mul_inverse_of_ne_zero
    {α : Type u} [Field α] [LinearOrder α] [IsStrictOrderedRing α]
    {z : Complex α}
    (nonzero : z ≠ 0) :
    z * z.inverse = 1 := by
  have positive : z.re * z.re + z.im * z.im ≠ 0 := by
    intro vanishes
    obtain ⟨re, im⟩ := mul_self_add_mul_self_eq_zero.mp vanishes
    exact nonzero (Complex.ext re im)
  ext
  · simp only [mul_re, inverse, one_re]
    rw [neg_div, mul_neg, sub_neg_eq_add, ← mul_div_assoc, ← mul_div_assoc, ← add_div,
      div_self positive]
  · simp only [mul_im, inverse, one_im]
    ring

end Complex

/-- Magnitudes of an ordered field that are exact. -/
class ExactMagnitude (α : Type u) [Field α] [LinearOrder α] [Magnitude α] : Prop where
  /-- The absolute value is that of the field. -/
  abs_eq : ∀ a : α, Magnitude.abs a = |a|
  /-- Every scalar is a finite number. -/
  isFinite_eq : ∀ a : α, Magnitude.isFinite a = true

noncomputable instance : Magnitude ℝ where
  abs a := |a|
  hypot a b := √(a ^ 2 + b ^ 2)
  isFinite _ := true
  emptySum := 0

instance : ExactMagnitude ℝ where
  abs_eq _ := rfl
  isFinite_eq _ := rfl

/-- Over the rational numbers the sum of the absolute values of the coordinates is a
length that needs no square roots. -/
instance : Magnitude ℚ where
  abs a := |a|
  hypot a b := |a| + |b|
  isFinite _ := true
  emptySum := 0

instance : ExactMagnitude ℚ where
  abs_eq _ := rfl
  isFinite_eq _ := rfl

/-- With exact magnitudes every list of complex numbers is finite. -/
theorem Complex.allFinite_eq_true
    {α : Type u} [Field α] [LinearOrder α] [Magnitude α] [ExactMagnitude α]
    (values : List (Complex α)) :
    Complex.allFinite values = true := by
  rw [Complex.allFinite, List.all_eq_true]
  intro z _
  rw [Complex.isFinite, ExactMagnitude.isFinite_eq, ExactMagnitude.isFinite_eq]
  rfl

end RootTrace
