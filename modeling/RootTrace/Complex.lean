import RootTrace.Magnitude

/-!
# Complex numbers over a real scalar

A complex number is a pair of real scalars. Sums, differences and negation act
by component, and a product is formed from the four products of components in
a fixed order, so that on doubles every result is determined to the last bit.
The inverse is the conjugate over the squared length, and a quotient is the
product with an inverse.
-/

namespace RootTrace

universe u

/-- A complex number by its real and imaginary parts. -/
structure Complex (α : Type u) where
  /-- Real part. -/
  re : α
  /-- Imaginary part. -/
  im : α
  deriving DecidableEq

namespace Complex

variable {α : Type u}

instance [Zero α] : Zero (Complex α) where
  zero := ⟨0, 0⟩

instance [Zero α] [One α] : One (Complex α) where
  one := ⟨1, 0⟩

instance [Add α] : Add (Complex α) where
  add z w := ⟨z.re + w.re, z.im + w.im⟩

instance [Sub α] : Sub (Complex α) where
  sub z w := ⟨z.re - w.re, z.im - w.im⟩

instance [Neg α] : Neg (Complex α) where
  neg z := ⟨-z.re, -z.im⟩

instance [Add α] [Sub α] [Mul α] : Mul (Complex α) where
  mul z w := ⟨z.re * w.re - z.im * w.im, z.re * w.im + z.im * w.re⟩

@[simp] theorem zero_re [Zero α] : (0 : Complex α).re = 0 := rfl

@[simp] theorem zero_im [Zero α] : (0 : Complex α).im = 0 := rfl

@[simp] theorem one_re [Zero α] [One α] : (1 : Complex α).re = 1 := rfl

@[simp] theorem one_im [Zero α] [One α] : (1 : Complex α).im = 0 := rfl

@[simp] theorem add_re [Add α] (z w : Complex α) : (z + w).re = z.re + w.re := rfl

@[simp] theorem add_im [Add α] (z w : Complex α) : (z + w).im = z.im + w.im := rfl

@[simp] theorem sub_re [Sub α] (z w : Complex α) : (z - w).re = z.re - w.re := rfl

@[simp] theorem sub_im [Sub α] (z w : Complex α) : (z - w).im = z.im - w.im := rfl

@[simp] theorem neg_re [Neg α] (z : Complex α) : (-z).re = -z.re := rfl

@[simp] theorem neg_im [Neg α] (z : Complex α) : (-z).im = -z.im := rfl

@[simp] theorem mul_re [Add α] [Sub α] [Mul α] (z w : Complex α) :
    (z * w).re = z.re * w.re - z.im * w.im := rfl

@[simp] theorem mul_im [Add α] [Sub α] [Mul α] (z w : Complex α) :
    (z * w).im = z.re * w.im + z.im * w.re := rfl

/-- Both components times a real scalar. -/
def scale [Mul α] (z : Complex α) (factor : α) : Complex α :=
  ⟨z.re * factor, z.im * factor⟩

@[simp] theorem scale_re [Mul α] (z : Complex α) (factor : α) :
    (z.scale factor).re = z.re * factor := rfl

@[simp] theorem scale_im [Mul α] (z : Complex α) (factor : α) :
    (z.scale factor).im = z.im * factor := rfl

/-- The conjugate over the squared length. Zero has no inverse, and on doubles
its components are then no finite numbers. -/
def inverse [Add α] [Mul α] [Neg α] [Div α] (z : Complex α) : Complex α :=
  let squaredLength := z.re * z.re + z.im * z.im
  ⟨z.re / squaredLength, -z.im / squaredLength⟩

/-- The first number times the inverse of the second. -/
def divide [Add α] [Sub α] [Mul α] [Neg α] [Div α] (z w : Complex α) : Complex α :=
  z * w.inverse

/-- Distance from zero. -/
def modulus [Magnitude α] (z : Complex α) : α :=
  Magnitude.hypot z.re z.im

/-- Whether both components are finite numbers. -/
def isFinite [Magnitude α] (z : Complex α) : Bool :=
  Magnitude.isFinite z.re && Magnitude.isFinite z.im

/-- Sum of the moduli of a list, added from left to right. -/
def absSum [Add α] [Magnitude α] (values : List (Complex α)) : α :=
  values.foldl (fun sum z => sum + z.modulus) Magnitude.emptySum

/-- Whether every number of a list is finite. -/
def allFinite [Magnitude α] (values : List (Complex α)) : Bool :=
  values.all isFinite

end Complex
end RootTrace
