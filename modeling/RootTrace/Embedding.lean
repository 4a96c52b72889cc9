import RootTrace.Fault

/-!
# Real embedding of complex linear algebra

A complex matrix `A` becomes the real block matrix

    Re A   -Im A
    Im A    Re A

and a complex vector `v` becomes the real vector of its real parts followed by
its imaginary parts, so that the real product embeds the complex one. A real
vector of even length is read back by pairing its two halves.
-/

namespace RootTrace

universe u

/-- A matrix stored by rows. -/
abbrev RowMatrix (α : Type u) (rows cols : Nat) : Type u :=
  Vector (Vector α cols) rows

/-- Entry of a matrix. -/
def RowMatrix.entry {α : Type u} {rows cols : Nat} (a : RowMatrix α rows cols)
    (i : Fin rows) (j : Fin cols) : α :=
  (a.get i).get j

namespace Embedding

variable {α : Type u} {n rows cols : Nat}

/-- Real parts, then imaginary parts. -/
def embedVector (v : Vector (Complex α) n) : Vector α (n + n) :=
  v.map Complex.re ++ v.map Complex.im

/-- Entry `i` of the first half is the real part of entry `i`, and entry `i` of
the second half its imaginary part. -/
def unembedVector (w : Vector α (n + n)) : Vector (Complex α) n :=
  Vector.ofFn fun i => ⟨w.get (i.castAdd n), w.get (i.natAdd n)⟩

/-- Upper half of the rows of an embedded matrix: real parts beside negated
imaginary parts. -/
def upperRow [Neg α] (row : Vector (Complex α) cols) : Vector α (cols + cols) :=
  row.map Complex.re ++ row.map fun z => -z.im

/-- Lower half of the rows of an embedded matrix: imaginary parts beside real
parts. -/
def lowerRow (row : Vector (Complex α) cols) : Vector α (cols + cols) :=
  row.map Complex.im ++ row.map Complex.re

/-- The real block matrix of a complex matrix. -/
def embedMatrix [Neg α] (a : RowMatrix (Complex α) rows cols) :
    RowMatrix α (rows + rows) (cols + cols) :=
  a.map upperRow ++ a.map lowerRow

/-- Pair the two halves of a list of reals. A list of odd length has no two
halves. -/
def pairHalves (w : List α) : Except (Fault α) (List (Complex α)) :=
  if w.length % 2 = 0 then
    .ok (List.zipWith Complex.mk (w.take (w.length / 2)) (w.drop (w.length / 2)))
  else
    .error (.oddLength w.length)

end Embedding
end RootTrace
