import RootTrace.Embedding
import RootTrace.ProductForm

/-!
# Systems of root equations

A system assigns to a vector of roots and a parameter as many residuals as there
are roots, and the square matrix of their derivatives. The solver asks for
nothing else. The system that it is made for is a family of equations in
product form; a few elementary systems stand beside it.
-/

namespace RootTrace

universe u

/-- Residuals and their derivatives, for any number of roots. -/
structure RootSystem (α : Type u) where
  /-- One residual per root. -/
  residual : {n : Nat} → Vector (Complex α) n → Complex α → Vector (Complex α) n
  /-- Derivatives of the residuals, one row per residual. -/
  jacobian : {n : Nat} → Vector (Complex α) n → Complex α → RowMatrix (Complex α) n n

/-- A list of roots as a vector. -/
def rootVector {K : Type u} (roots : List K) : Vector K roots.length :=
  ⟨roots.toArray, List.size_toArray⟩

/-- Write values over the front of a buffer. Entries behind them stay, and a
buffer that is too short cannot be written. -/
def overwrite? {K : Type u} (values buffer : List K) : Option (List K) :=
  if values.length ≤ buffer.length then
    some (values ++ buffer.drop values.length)
  else
    none

namespace RootSystem

variable {α : Type u} {n : Nat}

/-- The residuals written over the front of a buffer. -/
def residualInto? (system : RootSystem α) (x : Vector (Complex α) n) (q : Complex α)
    (buffer : List (Complex α)) : Option (List (Complex α)) :=
  overwrite? (system.residual x q).toList buffer

/-- Sum of the moduli of the residuals. -/
def residualAbsSum [Add α] [Magnitude α]
    (system : RootSystem α) (x : Vector (Complex α) n) (q : Complex α) : α :=
  Complex.absSum (system.residual x q).toList

/-- The system of a family of equations in product form. -/
def ofProductForm [Zero α] [One α] [Add α] [Sub α] [Mul α] [Neg α]
    (form : ProductForm (Complex α)) : RootSystem α where
  residual := form.residual
  jacobian := form.jacobian

/-! ## Elementary systems -/

/-- Every root is a square root of the parameter. -/
def squares [Zero α] [One α] [Add α] [Sub α] [Mul α] : RootSystem α where
  residual x q := x.map fun root => root * root - q
  jacobian x _ := Vector.ofFn fun i => Vector.ofFn fun j =>
    if i = j then (x.get i).scale (1 + 1) else 0

/-- Entry of a table of rows, zero where the table has none. -/
def entryOf [Zero α] (table : List (List (Complex α))) (i j : Nat) : Complex α :=
  (table.getD i []).getD j 0

/-- Residuals and derivatives that depend on nothing. -/
def constant [Zero α] (values : List (Complex α)) (table : List (List (Complex α))) :
    RootSystem α where
  residual {n} _ _ := Vector.ofFn fun i : Fin n => values.getD i 0
  jacobian {n} _ _ := Vector.ofFn fun i : Fin n => Vector.ofFn fun j : Fin n =>
    entryOf table i j

/-- A linear map of the roots minus the parameter times a vector. Each sum
starts from zero and runs from left to right. -/
def affine [Zero α] [Add α] [Sub α] [Mul α]
    (table : List (List (Complex α))) (values : List (Complex α)) : RootSystem α where
  residual {n} x q := Vector.ofFn fun i : Fin n =>
    (List.finRange n).foldl (fun sum (j : Fin n) => sum + entryOf table i j * x.get j) 0 -
      q * values.getD i 0
  jacobian {n} _ _ := Vector.ofFn fun i : Fin n => Vector.ofFn fun j : Fin n =>
    entryOf table i j

end RootSystem
end RootTrace
