import RootTrace.Proofs.ProductForm.Products

/-!
# Corresponding families of equations

A homomorphism of the scalars, the exchange of the two sides and a change of the scale have in
common that they change constants and roots, and with them every factor of the equations in the
same way. The changed equations are then made of the changed factors, in the same order. A
derivative is a sum of terms, so derivatives correspond once their terms do, also if the roots
are numbered in another way.
-/

namespace RootTrace
namespace ProductForm

universe u v w

variable {K : Type u} {L : Type v} {n : Nat} [CommRing K] [CommRing L]

/-! ## Factors -/

/-- How the factors of one family of equations become those of another. -/
structure Transfer (form : ProductForm K) (image : ProductForm L) where
  /-- What becomes of a root. -/
  point : K → L
  /-- What becomes of a pair of constants. -/
  pair : Sides K → Sides L
  /-- What becomes of a factor. -/
  factor : Sides K → Sides L
  /-- The pairs correspond one by one. -/
  pairs_eq : image.pairs = form.pairs.map pair
  /-- The factors against corresponding pairs correspond. -/
  pairFactor_eq : ∀ root constants,
    pairFactor (point root) (pair constants) = factor (pairFactor root constants)
  /-- The factors of corresponding root differences correspond. -/
  shiftFactors_eq : ∀ root other,
    image.shiftFactors (point root - point other) =
      (form.shiftFactors (root - other)).map factor

namespace Transfer

variable {form : ProductForm K} {image : ProductForm L} (transfer : Transfer form image)

include transfer in
theorem length_pairs_eq : form.pairs.length = image.pairs.length := by
  rw [transfer.pairs_eq, List.length_map]

theorem pairFactors_eq (root : K) :
    image.pairFactors (transfer.point root) = (form.pairFactors root).map transfer.factor := by
  simp [pairFactors, transfer.pairs_eq, transfer.pairFactor_eq]

theorem pairFactorsExcept_eq
    (root : K)
    {k : Fin form.pairs.length}
    {l : Fin image.pairs.length}
    (same : l.val = k.val) :
    image.pairFactorsExcept (transfer.point root) l =
      (form.pairFactorsExcept root k).map transfer.factor := by
  simp [pairFactorsExcept, same, transfer.pairs_eq, List.eraseIdx_map, transfer.pairFactor_eq]

variable {x : Vector K n} {y : Vector L n}
  (roots : ∀ k, y.get k = transfer.point (x.get k))

include roots

theorem differenceFactors_eq (i : Fin n) (against : List (Fin n)) :
    image.differenceFactors y i against =
      (form.differenceFactors x i against).map transfer.factor := by
  simp [differenceFactors, List.map_flatMap, roots, transfer.shiftFactors_eq]

/-! ## Equations and terms of their derivatives -/

theorem residualAt_eq (p : L) (i : Fin n) :
    image.residualAt y p i =
      ((start p).times ((form.pairFactors (x.get i) ++
        form.differenceFactors x i (others i)).map transfer.factor)).difference := by
  rw [residualAt, roots, transfer.pairFactors_eq, transfer.differenceFactors_eq roots,
    List.map_append]

theorem pairTerm_eq
    (p : L)
    (i : Fin n)
    {k : Fin form.pairs.length}
    {l : Fin image.pairs.length}
    (same : l.val = k.val) :
    image.pairTerm y p i l =
      ((start p).times ((form.pairFactorsExcept (x.get i) k ++
        form.differenceFactors x i (others i)).map transfer.factor)).difference := by
  rw [pairTerm, roots, transfer.pairFactorsExcept_eq _ same,
    transfer.differenceFactors_eq roots, List.map_append]

/-- The term of a root difference in the image is made of the images of its factors and of the
derivative of the image. -/
theorem differenceTerm_eq (p : L) (i k : Fin n) :
    image.differenceTerm y p i k =
      ((start p).times ((form.pairFactors (x.get i) ++
          form.differenceFactors x i (othersExcept i k)).map transfer.factor ++
        [image.shiftDerivative
          (transfer.point (x.get i) - transfer.point (x.get k))])).difference := by
  rw [differenceTerm, roots, roots, transfer.pairFactors_eq,
    transfer.differenceFactors_eq roots, List.map_append]

end Transfer

/-! ## Derivatives -/

theorem map_univ_erase (σ : Equiv.Perm (Fin n)) (i : Fin n) :
    (Finset.univ.erase i).map σ.toEmbedding = Finset.univ.erase (σ i) := by
  rw [Finset.map_erase, Finset.map_univ_equiv]
  rfl

/-- Derivatives correspond if the terms that they are sums of do. -/
theorem derivative_of_terms
    {M : Type w} [AddCommGroup M]
    {form : ProductForm K}
    {image : ProductForm L}
    (samePairs : form.pairs.length = image.pairs.length)
    (σ : Equiv.Perm (Fin n))
    (ofForm : K →+ M)
    (ofImage : L →+ M)
    {x : Vector K n}
    {y : Vector L n}
    {q : K}
    {p : L}
    {i : Fin n}
    (pairTerms : ∀ k l, l.val = k.val →
      ofImage (image.pairTerm y p i l) = ofForm (form.pairTerm x q (σ i) k))
    (differenceTerms : ∀ k, i ≠ k →
      ofImage (image.differenceTerm y p i k) = ofForm (form.differenceTerm x q (σ i) (σ k)))
    (j : Fin n) :
    ofImage (image.derivative y p i j) = ofForm (form.derivative x q (σ i) (σ j)) := by
  by_cases equal : i = j
  · rw [← equal, derivative_self, derivative_self, map_add, map_add, map_sum, map_sum, map_sum,
      map_sum, ← map_univ_erase, Finset.sum_map]
    congr 1
    · exact (Fintype.sum_equiv (finCongr samePairs) _ _ fun k => (pairTerms k _ rfl).symm).symm
    · apply Finset.sum_congr rfl
      intro k member
      exact differenceTerms k (Finset.ne_of_mem_erase member).symm
  · rw [derivative_of_ne _ _ _ equal, derivative_of_ne _ _ _ (σ.injective.ne equal), map_neg,
      map_neg, differenceTerms j equal]

end ProductForm
end RootTrace
