import RootTrace.Complex
import Mathlib

/-!
# Finite numbers come from finite numbers

Once a double is infinite or indeterminate, no sum, difference or product that it enters
is finite again, and no quotient of which it is the dividend. Only as a divisor can an
infinite double disappear. A finite result therefore vouches for its operands, and so
does a finite result of complex arithmetic.
-/

namespace RootTrace

universe u

/-! ## Doubles -/

namespace Binary64

open Float.Model

variable {x y : UnpackedFloat}

/-- Infinite and indeterminate numbers have bit patterns of their own. Rounding can only
turn a finite number into one of them. -/
theorem isFinite_of_pack (finite : (Float.Model.pack x).isFinite = true) :
    x.isFinite = true := by
  cases x with
  | infinity sign => cases sign <;> revert finite <;> decide
  | notANumber => revert finite; decide
  | zero | finite => rfl

/-- A sum is finite only if both terms are. Opposite infinities do not cancel: their sum is
indeterminate. -/
theorem isFinite_of_add (finite : (UnpackedFloat.add Format.binary64 x y).isFinite = true) :
    x.isFinite = true ∧ y.isFinite = true := by
  cases x with
  | notANumber => cases finite
  | infinity sign =>
      cases y with
      | infinity other => cases sign <;> cases other <;> cases finite
      | notANumber | zero | finite => cases finite
  | zero | finite =>
      cases y with
      | infinity | notANumber => cases finite
      | zero | finite => exact ⟨rfl, rfl⟩

/-- A difference is finite only if both numbers are. Equal infinities do not cancel either. -/
theorem isFinite_of_sub (finite : (UnpackedFloat.sub Format.binary64 x y).isFinite = true) :
    x.isFinite = true ∧ y.isFinite = true := by
  cases x with
  | notANumber => cases finite
  | infinity sign =>
      cases y with
      | infinity other => cases sign <;> cases other <;> cases finite
      | notANumber | zero | finite => cases finite
  | zero | finite =>
      cases y with
      | infinity | notANumber => cases finite
      | zero | finite => exact ⟨rfl, rfl⟩

/-- A product is finite only if both factors are: zero times infinity is indeterminate. -/
theorem isFinite_of_mul (finite : (UnpackedFloat.mul Format.binary64 x y).isFinite = true) :
    x.isFinite = true ∧ y.isFinite = true := by
  cases x with
  | notANumber => cases finite
  | infinity =>
      cases y with
      | infinity | notANumber | zero | finite => cases finite
  | zero | finite =>
      cases y with
      | infinity | notANumber => cases finite
      | zero | finite => exact ⟨rfl, rfl⟩

/-- Nothing is said about the divisor: a finite number over an infinite one is zero. -/
theorem isFinite_of_div (finite : (UnpackedFloat.div Format.binary64 x y).isFinite = true) :
    x.isFinite = true := by
  cases x with
  | notANumber => cases finite
  | infinity =>
      cases y with
      | infinity | notANumber | zero | finite => cases finite
  | zero | finite => rfl

end Binary64

/-! ## Scalars -/

/-- Scalars of which a finite sum, difference or product has finite operands, and a finite
quotient a finite dividend. -/
class ReflectsFinite (α : Type u) [Add α] [Sub α] [Mul α] [Div α] [Magnitude α] : Prop where
  ofAdd : ∀ {a b : α}, Magnitude.isFinite (a + b) = true →
    Magnitude.isFinite a = true ∧ Magnitude.isFinite b = true
  ofSub : ∀ {a b : α}, Magnitude.isFinite (a - b) = true →
    Magnitude.isFinite a = true ∧ Magnitude.isFinite b = true
  ofMul : ∀ {a b : α}, Magnitude.isFinite (a * b) = true →
    Magnitude.isFinite a = true ∧ Magnitude.isFinite b = true
  ofDiv : ∀ {a b : α}, Magnitude.isFinite (a / b) = true → Magnitude.isFinite a = true

instance : ReflectsFinite Float where
  ofAdd finite := Binary64.isFinite_of_add (Binary64.isFinite_of_pack finite)
  ofSub finite := Binary64.isFinite_of_sub (Binary64.isFinite_of_pack finite)
  ofMul finite := Binary64.isFinite_of_mul (Binary64.isFinite_of_pack finite)
  ofDiv finite := Binary64.isFinite_of_div (Binary64.isFinite_of_pack finite)

/-! ## Complex numbers -/

namespace Complex

variable {α : Type u} {z w : Complex α}

theorem isFinite_eq_true_iff [Magnitude α] :
    z.isFinite = true ↔
      Magnitude.isFinite z.re = true ∧ Magnitude.isFinite z.im = true :=
  Bool.and_eq_true_iff

theorem allFinite_toList_iff [Magnitude α] {n : Nat} {v : Vector (Complex α) n} :
    allFinite v.toList = true ↔ ∀ i, (v.get i).isFinite = true := by
  rw [allFinite, List.all_eq_true]
  constructor
  · intro finite i
    exact finite (v.get i) (Vector.mem_toList_iff.mpr (v.getElem_mem i.isLt))
  · intro finite z member
    obtain ⟨i, inside, rfl⟩ := Vector.mem_iff_getElem.mp (Vector.mem_toList_iff.mp member)
    exact finite ⟨i, inside⟩

variable [Add α] [Sub α] [Mul α] [Div α] [Magnitude α] [ReflectsFinite α]

theorem isFinite_of_sub (finite : (z - w).isFinite = true) :
    z.isFinite = true ∧ w.isFinite = true := by
  obtain ⟨re, im⟩ := isFinite_eq_true_iff.mp finite
  obtain ⟨zRe, wRe⟩ := ReflectsFinite.ofSub re
  obtain ⟨zIm, wIm⟩ := ReflectsFinite.ofSub im
  exact ⟨isFinite_eq_true_iff.mpr ⟨zRe, zIm⟩, isFinite_eq_true_iff.mpr ⟨wRe, wIm⟩⟩

/-- The real part of a product already has all four components as factors. -/
theorem isFinite_of_mul (finite : (z * w).isFinite = true) :
    z.isFinite = true ∧ w.isFinite = true := by
  obtain ⟨re, _⟩ := isFinite_eq_true_iff.mp finite
  obtain ⟨first, second⟩ := ReflectsFinite.ofSub re
  obtain ⟨zRe, wRe⟩ := ReflectsFinite.ofMul first
  obtain ⟨zIm, wIm⟩ := ReflectsFinite.ofMul second
  exact ⟨isFinite_eq_true_iff.mpr ⟨zRe, zIm⟩, isFinite_eq_true_iff.mpr ⟨wRe, wIm⟩⟩

theorem isFinite_of_scale {factor : α} (finite : (z.scale factor).isFinite = true) :
    z.isFinite = true := by
  obtain ⟨re, im⟩ := isFinite_eq_true_iff.mp finite
  exact isFinite_eq_true_iff.mpr ⟨(ReflectsFinite.ofMul re).1, (ReflectsFinite.ofMul im).1⟩

end Complex
end RootTrace
