import RootTrace.Config
import RootTrace.Proofs.Algebra.Complex
import RootTrace.Proofs.Algebra.Sides

/-!
# Closed forms of the equations and their derivatives

The equations and their derivatives are built factor by factor, over lists that
leave out one index or another. Over a commutative ring the order does not
matter, and each of them is a product over a finite set of pairs times a product
over a finite set of other roots. The set that is left out is then visible as an
erased element.

Constants give such equations if they are accepted. Over exact arithmetic every constant is
finite, so all that is asked of them is that the two lists pair up.
-/

namespace RootTrace
namespace ProductForm

universe u

variable {K : Type u} [CommRing K] {n : Nat}

open Finset

/-! ## Products over sets of indices -/

/-- Product of the factors of a root against some of the pairs. -/
def pairProduct (form : ProductForm K) (x : K)
    (kept : Finset (Fin form.pairs.length)) : Sides K :=
  ∏ k ∈ kept, pairFactor x (form.pairs.get k)

/-- Product of the three factors of one root difference. -/
def shiftProduct (form : ProductForm K) (difference : K) : Sides K :=
  (form.shiftFactors difference).prod

/-- Product of the factors of root `i` against some of the roots. -/
def differenceProduct (form : ProductForm K) (x : Vector K n) (i : Fin n)
    (kept : Finset (Fin n)) : Sides K :=
  ∏ k ∈ kept, form.shiftProduct (x.get i - x.get k)

theorem prod_pairFactors (form : ProductForm K) (x : K) :
    (form.pairFactors x).prod = form.pairProduct x univ := by
  rw [pairFactors, pairProduct, ← List.prod_ofFn]
  congr 1
  exact List.ext_getElem (by simp) (by simp)

/-- The factors of all pairs but one are the product over the set without this pair, since no
index is listed twice. -/
theorem prod_pairFactorsExcept
    (form : ProductForm K)
    (x : K)
    (k : Fin form.pairs.length) :
    (form.pairFactorsExcept x k).prod = form.pairProduct x (univ.erase k) := by
  have erased : (List.finRange form.pairs.length).eraseIdx k =
      (List.finRange form.pairs.length).erase k := by
    have atIndex := (List.nodup_finRange form.pairs.length).erase_getElem k.val
      (by simp)
    simpa using atIndex.symm
  calc
    (form.pairFactorsExcept x k).prod =
        (((List.finRange form.pairs.length).map form.pairs.get).eraseIdx k
          |>.map (pairFactor x)).prod := by
      rw [List.map_get_finRange, pairFactorsExcept]
    _ = (((List.finRange form.pairs.length).erase k).map fun l =>
          pairFactor x (form.pairs.get l)).prod := by
      rw [List.eraseIdx_map, erased, List.map_map]
      rfl
    _ = form.pairProduct x (univ.erase k) := by
      rw [← List.prod_toFinset _ ((List.nodup_finRange _).erase k), pairProduct]
      congr 1
      ext l
      simp [(List.nodup_finRange _).mem_erase_iff]

theorem mem_others (i k : Fin n) : k ∈ others i ↔ k ≠ i := by
  simp [others]

theorem nodup_others (i : Fin n) : (others i).Nodup :=
  (List.nodup_finRange n).filter _

theorem toFinset_others (i : Fin n) : (others i).toFinset = univ.erase i := by
  ext k
  simp [mem_others]

theorem nodup_othersExcept (i j : Fin n) : (othersExcept i j).Nodup :=
  (List.nodup_finRange n).filter _

theorem toFinset_othersExcept (i j : Fin n) :
    (othersExcept i j).toFinset = (univ.erase i).erase j := by
  ext k
  simp [othersExcept, and_comm]

/-- The factors against listed roots are the product over the set of these roots, if none is
listed twice. -/
theorem prod_differenceFactors
    (form : ProductForm K)
    (x : Vector K n)
    (i : Fin n)
    {against : List (Fin n)}
    (nodup : against.Nodup) :
    (form.differenceFactors x i against).prod =
      form.differenceProduct x i against.toFinset := by
  rw [differenceFactors, differenceProduct, List.prod_toFinset _ nodup]
  induction against with
  | nil => rfl
  | cons k against inductionHypothesis =>
      rw [List.flatMap_cons, List.prod_append, List.map_cons, List.prod_cons,
        inductionHypothesis (List.nodup_cons.mp nodup).2, shiftProduct]

/-! ## The equations and their derivatives -/

/-- A residual is the difference of two products, over all pairs and over all other roots. -/
theorem residualAt_eq
    (form : ProductForm K)
    (x : Vector K n)
    (q : K)
    (i : Fin n) :
    form.residualAt x q i =
      (start q * form.pairProduct (x.get i) univ *
        form.differenceProduct x i (univ.erase i)).difference := by
  rw [residualAt, Sides.times_eq_mul_prod, List.prod_append, prod_pairFactors,
    form.prod_differenceFactors x i (nodup_others i), toFinset_others, mul_assoc]

/-- The term of a pair leaves the pair out of the products. -/
theorem pairTerm_eq
    (form : ProductForm K)
    (x : Vector K n)
    (q : K)
    (i : Fin n)
    (k : Fin form.pairs.length) :
    form.pairTerm x q i k =
      (start q * form.pairProduct (x.get i) (univ.erase k) *
        form.differenceProduct x i (univ.erase i)).difference := by
  rw [pairTerm, Sides.times_eq_mul_prod, List.prod_append, prod_pairFactorsExcept,
    form.prod_differenceFactors x i (nodup_others i), toFinset_others, mul_assoc]

/-- What a start and a choice of the other root leave of the derivative with
respect to one root difference. -/
theorem times_differenceTerm
    (form : ProductForm K)
    (x : Vector K n)
    (first : Sides K)
    (i k : Fin n) :
    first.times (form.pairFactors (x.get i) ++
        form.differenceFactors x i (othersExcept i k) ++
        [form.shiftDerivative (x.get i - x.get k)]) =
      first * form.pairProduct (x.get i) univ *
        (form.differenceProduct x i ((univ.erase i).erase k) *
          form.shiftDerivative (x.get i - x.get k)) := by
  rw [Sides.times_eq_mul_prod, List.prod_append, List.prod_append, prod_pairFactors,
    form.prod_differenceFactors x i (nodup_othersExcept i k), toFinset_othersExcept,
    List.prod_singleton]
  ring

/-- The term of another root puts the derivative of its three factors in the place of their
product. -/
theorem differenceTerm_eq
    (form : ProductForm K)
    (x : Vector K n)
    (q : K)
    (i k : Fin n) :
    form.differenceTerm x q i k =
      (start q * form.pairProduct (x.get i) univ *
        (form.differenceProduct x i ((univ.erase i).erase k) *
          form.shiftDerivative (x.get i - x.get k))).difference := by
  rw [differenceTerm, times_differenceTerm]

/-- The two negated starts negate the whole term. -/
theorem offDiagonal_eq_neg_differenceTerm
    (form : ProductForm K)
    (x : Vector K n)
    (q : K)
    (i j : Fin n) :
    form.offDiagonal x q i j = -form.differenceTerm x q i j := by
  have negated : (Sides.mk (-q) (-1) : Sides K) = -start q := rfl
  rw [offDiagonal, times_differenceTerm, differenceTerm_eq, negated, neg_mul, neg_mul,
    Sides.difference_neg]

/-- A derivative with respect to the own root adds up the terms of all pairs and of all other
roots. -/
theorem diagonal_eq
    (form : ProductForm K)
    (x : Vector K n)
    (q : K)
    (i : Fin n) :
    form.diagonal x q i =
      ∑ k, form.pairTerm x q i k + ∑ k ∈ univ.erase i, form.differenceTerm x q i k := by
  rw [diagonal, foldl_add_eq_add_sum, foldl_add_eq_add_sum, zero_add,
    ← List.sum_toFinset _ (List.nodup_finRange _), List.toFinset_finRange,
    ← List.sum_toFinset _ (nodup_others i), toFinset_others]

theorem derivative_self
    (form : ProductForm K)
    (x : Vector K n)
    (q : K)
    (i : Fin n) :
    form.derivative x q i i =
      ∑ k, form.pairTerm x q i k + ∑ k ∈ univ.erase i, form.differenceTerm x q i k := by
  rw [derivative, if_pos rfl, diagonal_eq]

theorem derivative_of_ne
    (form : ProductForm K)
    (x : Vector K n)
    (q : K)
    {i j : Fin n}
    (different : i ≠ j) :
    form.derivative x q i j = -form.differenceTerm x q i j := by
  rw [derivative, if_neg different, offDiagonal_eq_neg_differenceTerm]

end ProductForm

/-! ## Accepted constants -/

namespace Config

universe v

variable {α : Type v} [Field α] [LinearOrder α] [Magnitude α] [ExactMagnitude α]
  (config : Config (Complex α))

theorem isFinite_eq_true : config.isFinite = true := by
  rw [isFinite, Complex.allFinite_eq_true, Complex.allFinite_eq_true, Complex.allFinite_eq_true]
  rfl

/-- Over exact arithmetic constants are accepted exactly if the two lists pair up. -/
theorem check_eq_ok_iff :
    config.check = .ok ⟨⟩ ↔ config.constants.left.length = config.constants.right.length := by
  rw [check, isFinite_eq_true]
  by_cases paired : config.constants.left.length = config.constants.right.length
  · simp [paired]
  · simp [paired]

end Config
end RootTrace
