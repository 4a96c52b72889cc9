/-!
# Root equations in product form

Every root `x i` of a vector of roots satisfies an equation that compares two
products. The left one is the parameter `q` times the factors `x i - a` over
the left constants and the factors `x i - x k + e` over the other roots and the
three shifts; the right one has the factors `x i - b` over the right constants
and `x i - x k - e`. The residual is the left product minus the right one.

The two products are always built together, factor by factor, so a factor is a
pair of sides. The derivatives are the same products with one factor replaced
by its derivative, summed over the factors that depend on the variable. The
definitions use ring operations only.
-/

namespace RootTrace

universe u

/-- The three shifts of the root differences. -/
structure Shifts (K : Type u) where
  /-- First shift. -/
  first : K
  /-- Second shift. -/
  second : K
  /-- Third shift. -/
  third : K
  deriving DecidableEq

/-- The shifts in order. -/
def Shifts.toList {K : Type u} (shifts : Shifts K) : List K :=
  [shifts.first, shifts.second, shifts.third]

/-- One quantity for the left product and one for the right product. -/
structure Sides (K : Type u) where
  /-- Contribution to the left product. -/
  left : K
  /-- Contribution to the right product. -/
  right : K
  deriving DecidableEq

namespace Sides

variable {K : Type u}

/-- Multiply side by side. -/
instance [Mul K] : Mul (Sides K) where
  mul a b := ⟨a.left * b.left, a.right * b.right⟩

@[simp] theorem mul_left [Mul K] (a b : Sides K) : (a * b).left = a.left * b.left := rfl

@[simp] theorem mul_right [Mul K] (a b : Sides K) : (a * b).right = a.right * b.right := rfl

/-- Left side minus right side. -/
def difference [Sub K] (a : Sides K) : K :=
  a.left - a.right

/-- Multiply factors onto a start, from left to right. -/
def times [Mul K] (start : Sides K) (factors : List (Sides K)) : Sides K :=
  factors.foldl (· * ·) start

@[simp] theorem times_nil [Mul K] (start : Sides K) : start.times [] = start := rfl

@[simp] theorem times_cons [Mul K] (start factor : Sides K) (factors : List (Sides K)) :
    start.times (factor :: factors) = (start * factor).times factors := rfl

theorem times_append [Mul K] (start : Sides K) (first second : List (Sides K)) :
    start.times (first ++ second) = (start.times first).times second :=
  List.foldl_append

end Sides

/-- The constants of a family of root equations: the three shifts, and pairs of
a left and a right constant. -/
structure ProductForm (K : Type u) where
  /-- Shifts of the root differences. -/
  shifts : Shifts K
  /-- Left and right constants, pair by pair. -/
  pairs : List (Sides K)
  deriving DecidableEq

namespace ProductForm

variable {K : Type u} {n : Nat}

/-! ## Factors -/

/-- Factor of a root against one pair of constants. -/
def pairFactor [Sub K] (x : K) (pair : Sides K) : Sides K :=
  ⟨x - pair.left, x - pair.right⟩

/-- Factors of a root against every pair of constants. -/
def pairFactors [Sub K] (form : ProductForm K) (x : K) : List (Sides K) :=
  form.pairs.map (pairFactor x)

/-- Factors of a root against every pair of constants except one. -/
def pairFactorsExcept [Sub K] (form : ProductForm K) (x : K)
    (skipped : Fin form.pairs.length) : List (Sides K) :=
  (form.pairs.eraseIdx skipped).map (pairFactor x)

/-- The three factors of one root difference. -/
def shiftFactors [Add K] [Sub K] (form : ProductForm K) (difference : K) : List (Sides K) :=
  form.shifts.toList.map fun shift => ⟨difference + shift, difference - shift⟩

/-- Factors of root `i` against the roots with the given indices. -/
def differenceFactors [Add K] [Sub K] (form : ProductForm K) (x : Vector K n)
    (i : Fin n) (against : List (Fin n)) : List (Sides K) :=
  against.flatMap fun k => form.shiftFactors (x.get i - x.get k)

/-- Sum of the products of two of three terms, the derivative of the product of
three terms that grow together. -/
def pairProducts [Add K] [Mul K] (a b c : K) : K :=
  a * b + a * c + b * c

/-- Derivative of the three factors of one root difference with respect to that
difference. -/
def shiftDerivative [Add K] [Sub K] [Mul K] (form : ProductForm K)
    (difference : K) : Sides K :=
  let shifts := form.shifts
  ⟨pairProducts (difference + shifts.first) (difference + shifts.second)
      (difference + shifts.third),
    pairProducts (difference - shifts.first) (difference - shifts.second)
      (difference - shifts.third)⟩

/-- Every index except one. -/
def others (i : Fin n) : List (Fin n) :=
  (List.finRange n).filter fun k => k ≠ i

/-- Every index except two. -/
def othersExcept (i j : Fin n) : List (Fin n) :=
  (List.finRange n).filter fun k => k ≠ i ∧ k ≠ j

/-! ## Residual and derivatives -/

variable [One K] [Add K] [Sub K] [Mul K]

/-- The parameter on the left and one on the right, where both products start. -/
def start (q : K) : Sides K :=
  ⟨q, 1⟩

/-- Residual of the equation of root `i`. -/
def residualAt (form : ProductForm K) (x : Vector K n) (q : K) (i : Fin n) : K :=
  ((start q).times (form.pairFactors (x.get i) ++
    form.differenceFactors x i (others i))).difference

/-- Residuals of the equations of all roots. -/
def residual (form : ProductForm K) (x : Vector K n) (q : K) : Vector K n :=
  Vector.ofFn (form.residualAt x q)

/-- The part of the derivative of residual `i` that comes from one pair of
constants. -/
def pairTerm (form : ProductForm K) (x : Vector K n) (q : K) (i : Fin n)
    (k : Fin form.pairs.length) : K :=
  ((start q).times (form.pairFactorsExcept (x.get i) k ++
    form.differenceFactors x i (others i))).difference

/-- The part of the derivative of residual `i` that comes from its difference
to root `k`. -/
def differenceTerm (form : ProductForm K) (x : Vector K n) (q : K) (i k : Fin n) : K :=
  ((start q).times (form.pairFactors (x.get i) ++
    form.differenceFactors x i (othersExcept i k) ++
    [form.shiftDerivative (x.get i - x.get k)])).difference

/-- Derivative of residual `i` with respect to its own root: all contributions
of the pairs, then all contributions of the differences. -/
def diagonal [Zero K] (form : ProductForm K) (x : Vector K n) (q : K) (i : Fin n) : K :=
  (others i).foldl (fun sum k => sum + form.differenceTerm x q i k)
    ((List.finRange form.pairs.length).foldl
      (fun sum k => sum + form.pairTerm x q i k) 0)

/-- Derivative of residual `i` with respect to another root `j`. Both products
start from their negatives, because the difference falls as that root grows. -/
def offDiagonal [Neg K] (form : ProductForm K) (x : Vector K n) (q : K)
    (i j : Fin n) : K :=
  ((Sides.mk (-q) (-1)).times (form.pairFactors (x.get i) ++
    form.differenceFactors x i (othersExcept i j) ++
    [form.shiftDerivative (x.get i - x.get j)])).difference

/-- Derivative of residual `i` with respect to root `j`. -/
def derivative [Zero K] [Neg K] (form : ProductForm K) (x : Vector K n) (q : K)
    (i j : Fin n) : K :=
  if i = j then form.diagonal x q i else form.offDiagonal x q i j

/-- Matrix of the derivatives of all residuals, one row per residual. -/
def jacobian [Zero K] [Neg K] (form : ProductForm K) (x : Vector K n) (q : K) :
    Vector (Vector K n) n :=
  Vector.ofFn fun i => Vector.ofFn fun j => form.derivative x q i j

end ProductForm
end RootTrace
