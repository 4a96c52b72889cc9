import RootTrace.Proofs.Algebra.Complex
import RootTrace.Proofs.Algebra.Matrix

/-!
# The real embedding keeps linear systems

A real vector of even length and the complex vector read back from it solve the
embedded and the complex system together. Since every complex vector embeds and
every real one is read back, the block matrix is invertible exactly if the
complex matrix is.
-/

namespace RootTrace
namespace Embedding

universe u

open Matrix

variable {α : Type u} {n rows cols : Nat}

/-! ## Entries -/

theorem get_append_castAdd
    {β : Type u} {first second : Nat}
    (v : Vector β first)
    (w : Vector β second)
    (i : Fin first) :
    (v ++ w).get (i.castAdd second) = v.get i := by
  rw [Vector.get_eq_getElem, Vector.get_eq_getElem]
  exact Vector.getElem_append_left i.isLt

theorem get_append_natAdd
    {β : Type u} {first second : Nat}
    (v : Vector β first)
    (w : Vector β second)
    (i : Fin second) :
    (v ++ w).get (i.natAdd first) = w.get i := by
  rw [Vector.get_eq_getElem, Vector.get_eq_getElem]
  have later : first ≤ (i.natAdd first).val := Nat.le_add_right first i.val
  rw [Vector.getElem_append_right (i.natAdd first).isLt later]
  congr 1
  exact Nat.add_sub_cancel_left first i.val

theorem get_embedVector_castAdd (v : Vector (Complex α) n) (i : Fin n) :
    (embedVector v).get (i.castAdd n) = (v.get i).re := by
  unfold embedVector
  rw [get_append_castAdd, Vector.get_map]

theorem get_embedVector_natAdd (v : Vector (Complex α) n) (i : Fin n) :
    (embedVector v).get (i.natAdd n) = (v.get i).im := by
  unfold embedVector
  rw [get_append_natAdd, Vector.get_map]

/-- Embedding a vector that was read back gives the real vector again. -/
theorem embedVector_unembedVector (w : Vector α (n + n)) :
    (embedVector (unembedVector w)).get = w.get := by
  funext i
  cases i using Fin.addCases with
  | left i => rw [get_embedVector_castAdd, unembedVector, Vector.get_ofFn]
  | right i => rw [get_embedVector_natAdd, unembedVector, Vector.get_ofFn]

/-- An embedded vector is read back as it was. -/
theorem unembedVector_embedVector (v : Vector (Complex α) n) :
    (unembedVector (embedVector v)).get = v.get := by
  funext i
  rw [unembedVector, Vector.get_ofFn, get_embedVector_castAdd, get_embedVector_natAdd]

theorem get_embedVector_inj {v w : Vector (Complex α) n} :
    (embedVector v).get = (embedVector w).get ↔ v.get = w.get := by
  constructor
  · intro embedded
    rw [← unembedVector_embedVector v, ← unembedVector_embedVector w, unembedVector,
      unembedVector, embedded]
  · intro same
    funext i
    cases i using Fin.addCases with
    | left i => rw [get_embedVector_castAdd, get_embedVector_castAdd, same]
    | right i => rw [get_embedVector_natAdd, get_embedVector_natAdd, same]

section Matrix

variable [Neg α] (a : RowMatrix (Complex α) rows cols) (i : Fin rows)

theorem get_embedMatrix_castAdd :
    (embedMatrix a).get (i.castAdd rows) = upperRow (a.get i) := by
  unfold embedMatrix
  rw [get_append_castAdd, Vector.get_map]

theorem get_embedMatrix_natAdd :
    (embedMatrix a).get (i.natAdd rows) = lowerRow (a.get i) := by
  unfold embedMatrix
  rw [get_append_natAdd, Vector.get_map]

variable (j : Fin cols)

theorem entry_embedMatrix_left_left :
    (embedMatrix a).entry (i.castAdd rows) (j.castAdd cols) = (a.entry i j).re := by
  rw [RowMatrix.entry, get_embedMatrix_castAdd, upperRow, get_append_castAdd,
    Vector.get_map, RowMatrix.entry]

theorem entry_embedMatrix_left_right :
    (embedMatrix a).entry (i.castAdd rows) (j.natAdd cols) = -(a.entry i j).im := by
  rw [RowMatrix.entry, get_embedMatrix_castAdd, upperRow, get_append_natAdd,
    Vector.get_map, RowMatrix.entry]

theorem entry_embedMatrix_right_left :
    (embedMatrix a).entry (i.natAdd rows) (j.castAdd cols) = (a.entry i j).im := by
  rw [RowMatrix.entry, get_embedMatrix_natAdd, lowerRow, get_append_castAdd,
    Vector.get_map, RowMatrix.entry]

theorem entry_embedMatrix_right_right :
    (embedMatrix a).entry (i.natAdd rows) (j.natAdd cols) = (a.entry i j).re := by
  rw [RowMatrix.entry, get_embedMatrix_natAdd, lowerRow, get_append_natAdd,
    Vector.get_map, RowMatrix.entry]

end Matrix

/-! ## Products -/

section Products

variable [CommRing α]

/-- The block matrix acts on an embedded vector as the complex matrix does. -/
theorem embedMatrix_mulVec
    (a : RowMatrix (Complex α) rows cols)
    (v : Vector (Complex α) cols) :
    (embedMatrix a).toMatrix *ᵥ (embedVector v).get =
      (embedVector (Vector.ofFn (a.toMatrix *ᵥ v.get))).get := by
  funext i
  rw [mulVec, dotProduct, Fin.sum_univ_add]
  cases i using Fin.addCases with
  | left i =>
      rw [get_embedVector_castAdd, Vector.get_ofFn, mulVec, dotProduct, Complex.re_sum,
        ← Finset.sum_add_distrib]
      apply Finset.sum_congr rfl
      intro j _
      rw [RowMatrix.toMatrix_apply, RowMatrix.toMatrix_apply, RowMatrix.toMatrix_apply,
        entry_embedMatrix_left_left, entry_embedMatrix_left_right,
        get_embedVector_castAdd, get_embedVector_natAdd, Complex.mul_re, neg_mul,
        sub_eq_add_neg]
  | right i =>
      rw [get_embedVector_natAdd, Vector.get_ofFn, mulVec, dotProduct, Complex.im_sum,
        ← Finset.sum_add_distrib]
      apply Finset.sum_congr rfl
      intro j _
      rw [RowMatrix.toMatrix_apply, RowMatrix.toMatrix_apply, RowMatrix.toMatrix_apply,
        entry_embedMatrix_right_left, entry_embedMatrix_right_right,
        get_embedVector_castAdd, get_embedVector_natAdd, Complex.mul_im, add_comm]

/-- A real vector solves an embedded system exactly if the vector read back from
it solves the complex system. -/
theorem embedMatrix_mulVec_eq_iff
    (a : RowMatrix (Complex α) n n)
    (b : Vector (Complex α) n)
    (w : Vector α (n + n)) :
    (embedMatrix a).toMatrix *ᵥ w.get = (embedVector b).get ↔
      a.toMatrix *ᵥ (unembedVector w).get = b.get := by
  rw [← embedVector_unembedVector w, embedMatrix_mulVec, get_embedVector_inj, get_ofFn_eq]

/-- Embedding keeps invertibility, and reflects it. -/
theorem isUnit_embedMatrix_iff (a : RowMatrix (Complex α) n n) :
    IsUnit (embedMatrix a).toMatrix ↔ IsUnit a.toMatrix := by
  rw [← mulVec_surjective_iff_isUnit, ← mulVec_surjective_iff_isUnit]
  constructor
  · intro solvable rightSide
    obtain ⟨solution, solves⟩ := solvable (embedVector (Vector.ofFn rightSide)).get
    refine ⟨(unembedVector (Vector.ofFn solution)).get, ?_⟩
    rw [← get_ofFn_eq solution, embedMatrix_mulVec_eq_iff, get_ofFn_eq] at solves
    exact solves
  · intro solvable rightSide
    obtain ⟨solution, solves⟩ := solvable (unembedVector (Vector.ofFn rightSide)).get
    refine ⟨(embedVector (Vector.ofFn solution)).get, ?_⟩
    rw [← get_ofFn_eq rightSide, ← embedVector_unembedVector (Vector.ofFn rightSide),
      embedMatrix_mulVec_eq_iff, unembedVector_embedVector, get_ofFn_eq]
    exact solves

end Products
end Embedding
end RootTrace
