import RootTrace.Proofs.LinearSystem.Embedding

/-!
# The real embedding represents complex matrices

The real block matrix of a complex matrix has four blocks of the same shape. Products of
rectangular matrices are split at the index where the columns of the one and the rows of the
other have their halves, and then multiply block by block, as complex numbers do by real and
imaginary parts. So products embed to products, sums to sums and the identity to the identity,
and a matrix is read back from the left half of its embedding.
-/

namespace RootTrace

universe u

open Matrix

variable {α : Type u} {rows inner cols n : Nat}

/-! ## Real and imaginary parts -/

namespace Complex

variable [CommRing α] {ι κ μ : Type*}

theorem map_re_mul [Fintype κ] (a : Matrix ι κ (Complex α)) (b : Matrix κ μ (Complex α)) :
    (a * b).map re = a.map re * b.map re - a.map im * b.map im := by
  ext i j
  simp [Matrix.mul_apply, re_sum]

theorem map_im_mul [Fintype κ] (a : Matrix ι κ (Complex α)) (b : Matrix κ μ (Complex α)) :
    (a * b).map im = a.map re * b.map im + a.map im * b.map re := by
  ext i j
  simp [Matrix.mul_apply, im_sum, Finset.sum_add_distrib]

theorem map_im_one [DecidableEq ι] : (1 : Matrix ι ι (Complex α)).map im = 0 := by
  ext i j
  by_cases same : i = j
  · simp [same]
  · simp [same]

end Complex

namespace Embedding

/-! ## Blocks -/

/-- Real parts on the diagonal, imaginary parts below and their negatives above. -/
def blocks [Neg α] (a : Matrix (Fin rows) (Fin cols) (Complex α)) :
    Matrix (Fin rows ⊕ Fin rows) (Fin cols ⊕ Fin cols) α :=
  fromBlocks (a.map Complex.re) (-a.map Complex.im) (a.map Complex.im) (a.map Complex.re)

/-- The embedded matrix is the block matrix, with both halves of the rows and of the columns
numbered one after the other. -/
theorem toMatrix_embedMatrix [Neg α] (a : RowMatrix (Complex α) rows cols) :
    (embedMatrix a).toMatrix =
      (blocks a.toMatrix).submatrix finSumFinEquiv.symm finSumFinEquiv.symm := by
  apply Matrix.ext
  intro i j
  rw [RowMatrix.toMatrix_apply, submatrix_apply]
  cases i using Fin.addCases with
  | left i =>
      rw [finSumFinEquiv_symm_apply_castAdd]
      cases j using Fin.addCases with
      | left j =>
          rw [finSumFinEquiv_symm_apply_castAdd, entry_embedMatrix_left_left]
          rfl
      | right j =>
          rw [finSumFinEquiv_symm_apply_natAdd, entry_embedMatrix_left_right]
          rfl
  | right i =>
      rw [finSumFinEquiv_symm_apply_natAdd]
      cases j using Fin.addCases with
      | left j =>
          rw [finSumFinEquiv_symm_apply_castAdd, entry_embedMatrix_right_left]
          rfl
      | right j =>
          rw [finSumFinEquiv_symm_apply_natAdd, entry_embedMatrix_right_right]
          rfl

section Ring

variable [CommRing α]

/-- The four blocks of a product are those of the product of the blocks. -/
theorem blocks_mul
    (a : Matrix (Fin rows) (Fin inner) (Complex α))
    (b : Matrix (Fin inner) (Fin cols) (Complex α)) :
    blocks (a * b) = blocks a * blocks b := by
  rw [blocks, blocks, blocks, fromBlocks_multiply, Complex.map_re_mul, Complex.map_im_mul]
  congr 1
  · rw [Matrix.neg_mul, sub_eq_add_neg]
  · rw [Matrix.mul_neg, Matrix.neg_mul, ← neg_add]
  · rw [add_comm]
  · rw [Matrix.mul_neg, sub_eq_add_neg, add_comm]

theorem blocks_add (a b : Matrix (Fin rows) (Fin cols) (Complex α)) :
    blocks (a + b) = blocks a + blocks b := by
  rw [blocks, blocks, blocks, fromBlocks_add]
  congr 1
  · ext i j
    simp [add_comm]

theorem blocks_one : blocks (1 : Matrix (Fin n) (Fin n) (Complex α)) = 1 := by
  rw [blocks, Complex.map_im_one, Matrix.map_one Complex.re rfl rfl, neg_zero, fromBlocks_one]

end Ring

/-! ## Reading back -/

/-- Pair the upper half of the left columns with their lower half. -/
def unembedMatrix (w : RowMatrix α (rows + rows) (cols + cols)) :
    RowMatrix (Complex α) rows cols :=
  Vector.ofFn fun i => Vector.ofFn fun j =>
    ⟨w.entry (i.castAdd rows) (j.castAdd cols), w.entry (i.natAdd rows) (j.castAdd cols)⟩

theorem unembedMatrix_embedMatrix [Neg α] (a : RowMatrix (Complex α) rows cols) :
    unembedMatrix (embedMatrix a) = a := by
  apply RowMatrix.eq_of_entry_eq
  intro i j
  rw [unembedMatrix, RowMatrix.entry_ofFn, Vector.get_ofFn, entry_embedMatrix_left_left,
    entry_embedMatrix_right_left]

/-! ## Representation -/

/-- The real embedding represents complex linear algebra over every commutative ring and for
matrices of any shape. Products of matrices, products with vectors, sums and the identity embed
to the same of what they are made of, and a matrix is read back from its embedding as it was. -/
theorem embedding_represents_matrices
    [CommRing α]
    {rows inner : Nat}
    (a : RowMatrix (Complex α) rows inner) :
    (∀ (cols : Nat) (b : RowMatrix (Complex α) inner cols),
      (embedMatrix a).toMatrix * (embedMatrix b).toMatrix =
        (embedMatrix (.ofMatrix (a.toMatrix * b.toMatrix))).toMatrix) ∧
    (∀ v : Vector (Complex α) inner,
      (embedMatrix a).toMatrix *ᵥ (embedVector v).get =
        (embedVector (Vector.ofFn (a.toMatrix *ᵥ v.get))).get) ∧
    (∀ b : RowMatrix (Complex α) rows inner,
      (embedMatrix a).toMatrix + (embedMatrix b).toMatrix =
        (embedMatrix (.ofMatrix (a.toMatrix + b.toMatrix))).toMatrix) ∧
    (∀ n : Nat,
      (embedMatrix (.ofMatrix (1 : Matrix (Fin n) (Fin n) (Complex α)))).toMatrix = 1) ∧
    unembedMatrix (embedMatrix a) = a := by
  refine ⟨?_, embedMatrix_mulVec a, ?_, ?_, unembedMatrix_embedMatrix a⟩
  · intro cols b
    rw [toMatrix_embedMatrix, toMatrix_embedMatrix, toMatrix_embedMatrix, submatrix_mul_equiv,
      RowMatrix.toMatrix_ofMatrix, blocks_mul]
  · intro b
    rw [toMatrix_embedMatrix, toMatrix_embedMatrix, toMatrix_embedMatrix,
      RowMatrix.toMatrix_ofMatrix, blocks_add, submatrix_add]
    rfl
  · intro n
    rw [toMatrix_embedMatrix, RowMatrix.toMatrix_ofMatrix, blocks_one, submatrix_one_equiv]

end Embedding
end RootTrace
