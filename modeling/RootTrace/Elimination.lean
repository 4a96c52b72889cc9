import RootTrace.Embedding

/-!
# Linear systems by elimination with row exchanges

A square system is solved in three passes. Elimination brings into the pivot
position of each column the entry of largest absolute value at or below it and
clears the entries below; a column without a nonzero entry there is left as it
is. The multipliers are kept in the cleared positions, so one matrix holds both
triangular factors, and the row exchanges are kept as a list. The right side is
then carried through the exchanges, through the lower factor from the first row
down, and through the upper factor from the last row up. A zero on the diagonal
of the upper factor means that the system has no unique solution.
-/

namespace RootTrace
namespace Elimination

universe u

variable {α : Type u} {n : Nat}

/-! ## Triangular factors -/

/-- The two triangular factors in one matrix, and the row exchanges that were
made on the way, oldest first. -/
structure Factors (α : Type u) (n : Nat) where
  /-- Multipliers below the diagonal, the upper factor on and above it. -/
  entries : RowMatrix α n n
  /-- Pairs of rows that were exchanged. -/
  exchanges : List (Fin n × Fin n)

/-- The first row, at or below the diagonal, whose entry in the column is of
largest absolute value. A later row is preferred only if its entry is strictly
larger, so an entry that compares with nothing keeps the diagonal position and
is never chosen elsewhere. -/
def pivotRow [LT α] [DecidableLT α] [Magnitude α]
    (a : RowMatrix α n n) (column : Fin n) : Fin n :=
  ((List.finRange n).filter fun row => column < row).foldl
    (fun best row =>
      if Magnitude.abs (a.entry best column) < Magnitude.abs (a.entry row column) then row
      else best)
    column

/-- Clear one row by a multiple of the pivot row. The multiplier is stored in
the cleared position. -/
def clearRow [Add α] [Mul α] [Neg α]
    (pivot : Vector α n) (reciprocal : α) (column : Fin n)
    (row : Vector α n) : Vector α n :=
  let multiplier := row.get column * reciprocal
  Vector.ofFn fun k =>
    if k < column then row.get k
    else if k = column then multiplier
    else (-pivot.get k) * multiplier + row.get k

/-- Clear a column below its diagonal position. -/
def clearBelow [One α] [Add α] [Mul α] [Neg α] [Div α]
    (a : RowMatrix α n n) (column : Fin n) : RowMatrix α n n :=
  let reciprocal := 1 / a.entry column column
  Vector.ofFn fun row =>
    if column < row then clearRow (a.get column) reciprocal column (a.get row)
    else a.get row

/-- Exchange the pivot row with the diagonal row and clear the column, unless
the pivot is zero. -/
def Factors.eliminate
    [Zero α] [One α] [Add α] [Mul α] [Neg α] [Div α] [BEq α]
    [LT α] [DecidableLT α] [Magnitude α]
    (factors : Factors α n) (column : Fin n) : Factors α n :=
  let pivot := pivotRow factors.entries column
  if factors.entries.entry pivot column == 0 then
    factors
  else
    ⟨clearBelow (factors.entries.swap column pivot) column,
      factors.exchanges ++ [(column, pivot)]⟩

/-- Eliminate every column, from the first to the last. -/
def factor
    [Zero α] [One α] [Add α] [Mul α] [Neg α] [Div α] [BEq α]
    [LT α] [DecidableLT α] [Magnitude α]
    (a : RowMatrix α n n) : Factors α n :=
  (List.finRange n).foldl Factors.eliminate ⟨a, []⟩

/-! ## Substitution -/

/-- Carry out row exchanges on a right side, oldest first. -/
def exchangeRows (exchanges : List (Fin n × Fin n)) (b : Vector α n) : Vector α n :=
  exchanges.foldl (fun b exchange => b.swap exchange.1 exchange.2) b

/-- Subtract the multiples of one entry from the entries below it. -/
def substituteBelow [Add α] [Mul α] [Neg α]
    (a : RowMatrix α n n) (b : Vector α n) (i : Fin n) : Vector α n :=
  Vector.ofFn fun row =>
    if i < row then (-b.get i) * a.entry row i + b.get row else b.get row

/-- Substitution through the lower factor, whose diagonal is one. -/
def forward [Add α] [Mul α] [Neg α]
    (a : RowMatrix α n n) (b : Vector α n) : Vector α n :=
  (List.finRange n).foldl (substituteBelow a) b

/-- Divide one entry by its diagonal coefficient and subtract its multiples from
the entries above it. There is no answer for a zero coefficient. -/
def substituteAbove? [Zero α] [Add α] [Mul α] [Neg α] [Div α] [BEq α]
    (a : RowMatrix α n n) (b : Vector α n) (i : Fin n) : Option (Vector α n) :=
  if a.entry i i == 0 then
    none
  else
    let value := b.get i / a.entry i i
    some <| Vector.ofFn fun row =>
      if row < i then (-value) * a.entry row i + b.get row
      else if row = i then value
      else b.get row

/-- Substitution through the upper factor, from the last entry to the first. -/
def backward? [Zero α] [Add α] [Mul α] [Neg α] [Div α] [BEq α]
    (a : RowMatrix α n n) (b : Vector α n) : Option (Vector α n) :=
  (List.finRange n).reverse.foldlM (substituteAbove? a) b

/-- The solution of a square linear system, if elimination finds a unique one. -/
def solve?
    [Zero α] [One α] [Add α] [Mul α] [Neg α] [Div α] [BEq α]
    [LT α] [DecidableLT α] [Magnitude α]
    (a : RowMatrix α n n) (b : Vector α n) : Option (Vector α n) :=
  let factors := factor a
  backward? factors.entries (forward factors.entries (exchangeRows factors.exchanges b))

end Elimination
end RootTrace
