import RootTrace.Proofs.LinearSystem.Factorization

/-!
# Substitution solves the triangular systems

Both substitutions keep an account of the right side that they started from.
Going forward, it is what the finished entries contribute to a row together with
what is left in that row. Going backward, the finished entries contribute their
diagonal terms as well, and a zero on the diagonal is the only reason to stop.
-/

namespace RootTrace
namespace Elimination

universe u v

open Finset Matrix

/-! ## Loops over all indices -/

/-- A loop whose steps fail for reasons that do not depend on its state fails
exactly if it meets such a reason. -/
theorem foldlM_eq_none_iff
    {β : Type u} {ι : Type v}
    {step : β → ι → Option β}
    {stuck : ι → Prop}
    (fails : ∀ state i, step state i = none ↔ stuck i)
    (items : List ι)
    (start : β) :
    items.foldlM step start = none ↔ ∃ i ∈ items, stuck i := by
  induction items generalizing start with
  | nil => simp
  | cons item items inductionHypothesis =>
      rw [List.foldlM_cons]
      by_cases stops : stuck item
      · rw [(fails start item).mpr stops]
        exact ⟨fun _ => ⟨item, List.mem_cons_self, stops⟩, fun _ => rfl⟩
      · obtain ⟨next, stepped⟩ :=
          Option.ne_none_iff_exists'.mp (mt (fails start item).mp stops)
        rw [stepped, Option.bind_eq_bind, Option.bind_some, inductionHypothesis next]
        constructor
        · rintro ⟨i, member, stops⟩
          exact ⟨i, List.mem_cons_of_mem item member, stops⟩
        · rintro ⟨i, member, stopsAt⟩
          rcases List.mem_cons.mp member with rfl | member
          · exact absurd stopsAt stops
          · exact ⟨i, member, stopsAt⟩

/-- What holds at the start of a loop over all indices from the last to the
first, and is carried from each index to the one below it, holds at its end. -/
theorem foldlM_reverse_finRange_induction
    {β : Type u} {n : Nat}
    (holds : Nat → β → Prop)
    (step : β → Fin n → Option β)
    {start result : β}
    (atStart : holds n start)
    (carried : ∀ (i : Fin n) (state next : β),
      holds (i + 1) state → step state i = some next → holds i next)
    (ended : (List.finRange n).reverse.foldlM step start = some result) :
    holds 0 result := by
  rw [List.foldlM_reverse] at ended
  have throughSuffix : ∀ count ≤ n, ∀ state,
      ((List.finRange n).drop (n - count)).foldrM (fun i state => step state i) start =
        some state →
      holds (n - count) state := by
    intro count
    induction count with
    | zero =>
        intro _ state reached
        rw [Nat.sub_zero, List.drop_of_length_le (by rw [List.length_finRange])] at reached
        cases reached
        exact atStart
    | succ count inductionHypothesis =>
        intro bounded state reached
        have inside : n - (count + 1) < (List.finRange n).length := by
          rw [List.length_finRange]
          omega
        have above : n - (count + 1) + 1 = n - count := by
          omega
        rw [List.drop_eq_getElem_cons inside, List.foldrM_cons, above, List.getElem_finRange]
          at reached
        obtain ⟨before, reachedBefore, stepped⟩ := Option.bind_eq_some_iff.mp reached
        have heldBefore :=
          inductionHypothesis (Nat.le_of_succ_le bounded) before reachedBefore
        rw [← above] at heldBefore
        exact carried ⟨n - (count + 1), by omega⟩ before state heldBefore stepped
  have whole := throughSuffix n le_rfl result
  rw [Nat.sub_self, List.drop_zero] at whole
  exact whole ended

variable {α : Type u} {n : Nat}

/-! ## Entries of the steps -/

theorem get_substituteBelow
    [Add α] [Mul α] [Neg α]
    (a : RowMatrix α n n)
    (b : Vector α n)
    (i row : Fin n) :
    (substituteBelow a b i).get row =
      if i < row then -b.get i * a.entry row i + b.get row else b.get row := by
  unfold substituteBelow
  rw [Vector.get_ofFn]

/-- A step divides by the pivot and takes multiples of the quotient off the components above. -/
theorem get_of_substituteAbove?
    [Zero α] [Add α] [Mul α] [Neg α] [Div α] [BEq α]
    {a : RowMatrix α n n}
    {b next : Vector α n}
    {i : Fin n}
    (stepped : substituteAbove? a b i = some next)
    (row : Fin n) :
    next.get row =
      if row < i then -(b.get i / a.entry i i) * a.entry row i + b.get row
      else if row = i then b.get i / a.entry i i
      else b.get row := by
  unfold substituteAbove? at stepped
  split at stepped
  · cases stepped
  · cases stepped
    rw [Vector.get_ofFn]

variable [Field α]

/-! ## Downwards through the lower factor -/

/-- The right side, accounted for by finished entries and what is left. -/
def AccountedBelow (a : RowMatrix α n n) (b : Vector α n) (done : Nat)
    (rest : Vector α n) : Prop :=
  ∀ row, b.get row =
    ∑ j with j.val < done ∧ j < row, a.entry row j * rest.get j + rest.get row

/-- One more step of the forward substitution accounts for one more component. -/
theorem substituteBelow_accounted
    {a : RowMatrix α n n}
    {b rest : Vector α n}
    {i : Fin n}
    (accounted : AccountedBelow a b i rest) :
    AccountedBelow a b (i + 1) (substituteBelow a rest i) := by
  intro row
  have finishedStay : ∀ j : Fin n, j.val < i.val + 1 →
      (substituteBelow a rest i).get j = rest.get j := by
    intro j finished
    rw [get_substituteBelow, if_neg (by omega)]
  have sameTerms :
      ∑ j with j.val < i.val + 1 ∧ j < row, a.entry row j * (substituteBelow a rest i).get j =
        ∑ j with j.val < i.val + 1 ∧ j < row, a.entry row j * rest.get j := by
    apply sum_congr rfl
    intro j member
    rw [finishedStay j (mem_filter.mp member).2.1]
  have notBefore : ¬ (i.val < i.val ∧ i < row) :=
    fun inside => lt_irrefl i.val inside.1
  have others : ∀ j : Fin n, j ≠ i →
      (j.val < i.val + 1 ∧ j < row ↔ j.val < i.val ∧ j < row) := by
    intro j different
    omega
  rw [sameTerms, sum_filter_one_more notBefore others, accounted row, get_substituteBelow]
  by_cases below : i < row
  · rw [if_pos below, if_pos ⟨Nat.lt_succ_self i, below⟩]
    ring
  · rw [if_neg below, if_neg fun inside => below inside.2, add_zero]

/-- Forward substitution solves the system of the lower factor. -/
theorem lowerFactor_mulVec_forward (a : RowMatrix α n n) (b : Vector α n) :
    lowerFactor a *ᵥ (forward a b).get = b.get := by
  have accounted : AccountedBelow a b n (forward a b) := by
    refine foldl_finRange_induction (AccountedBelow a b) (substituteBelow a) ?_ ?_
    · intro row
      simp
    · intro i rest accounted
      exact substituteBelow_accounted accounted
  funext row
  have finished := accounted row
  simp only [Fin.is_lt, true_and] at finished
  rw [Matrix.mulVec, dotProduct, sum_lowerFactor_mul, finished]

/-! ## Upwards through the upper factor -/

/-- A step of the backward substitution fails at a zero pivot only. -/
theorem substituteAbove?_eq_none_iff
    [DecidableEq α]
    (a : RowMatrix α n n)
    (b : Vector α n)
    (i : Fin n) :
    substituteAbove? a b i = none ↔ a.entry i i = 0 := by
  unfold substituteAbove?
  by_cases zeroDiagonal : a.entry i i = 0
  · rw [if_pos (beq_iff_eq.mpr zeroDiagonal)]
    exact ⟨fun _ => zeroDiagonal, fun _ => rfl⟩
  · rw [if_neg (mt beq_iff_eq.mp zeroDiagonal)]
    constructor
    · intro impossible
      cases impossible
    · intro isZero
      exact absurd isZero zeroDiagonal

/-- Backward substitution fails exactly if there is a zero on the diagonal. -/
theorem backward?_eq_none_iff
    [DecidableEq α]
    (a : RowMatrix α n n)
    (b : Vector α n) :
    backward? a b = none ↔ ∃ i, a.entry i i = 0 := by
  unfold backward?
  rw [foldlM_eq_none_iff fun rest i => substituteAbove?_eq_none_iff a rest i]
  constructor
  · rintro ⟨i, _, zeroDiagonal⟩
    exact ⟨i, zeroDiagonal⟩
  · rintro ⟨i, zeroDiagonal⟩
    exact ⟨i, List.mem_reverse.mpr (List.mem_finRange i), zeroDiagonal⟩

/-- A step that succeeds has a pivot that is not zero, and divides by it. -/
theorem get_substituteAbove
    [DecidableEq α]
    {a : RowMatrix α n n}
    {b next : Vector α n}
    {i : Fin n}
    (stepped : substituteAbove? a b i = some next) :
    a.entry i i ≠ 0 ∧ ∀ row, next.get row =
      if row < i then -(b.get i / a.entry i i) * a.entry row i + b.get row
      else if row = i then b.get i / a.entry i i
      else b.get row := by
  have diagonalNonzero : a.entry i i ≠ 0 := by
    intro zeroDiagonal
    rw [(substituteAbove?_eq_none_iff a b i).mpr zeroDiagonal] at stepped
    cases stepped
  exact ⟨diagonalNonzero, get_of_substituteAbove? stepped⟩

/-- The right side, accounted for by the entries finished from the last one up,
their diagonal terms, and what is left above them. -/
def AccountedAbove (a : RowMatrix α n n) (b : Vector α n) (first : Nat)
    (rest : Vector α n) : Prop :=
  ∀ row, b.get row =
    ∑ j with first ≤ j.val ∧ row < j, a.entry row j * rest.get j +
      if first ≤ row.val then a.entry row row * rest.get row else rest.get row

/-- One more step of the backward substitution accounts for one more component. -/
theorem substituteAbove_accounted
    [DecidableEq α]
    {a : RowMatrix α n n}
    {b rest next : Vector α n}
    {i : Fin n}
    (accounted : AccountedAbove a b (i + 1) rest)
    (stepped : substituteAbove? a rest i = some next) :
    AccountedAbove a b i next := by
  obtain ⟨diagonalNonzero, nextGet⟩ := get_substituteAbove stepped
  have finishedStay : ∀ j : Fin n, i < j → next.get j = rest.get j := by
    intro j finished
    rw [nextGet, if_neg finished.not_gt, if_neg finished.ne']
  have solvedHere : next.get i = rest.get i / a.entry i i := by
    rw [nextGet, if_neg (lt_irrefl i), if_pos rfl]
  intro row
  have sameTerms :
      ∑ j with i.val + 1 ≤ j.val ∧ row < j, a.entry row j * next.get j =
        ∑ j with i.val + 1 ≤ j.val ∧ row < j, a.entry row j * rest.get j := by
    apply sum_congr rfl
    intro j member
    rw [finishedStay j (Nat.lt_of_succ_le (mem_filter.mp member).2.1)]
  have notBefore : ¬ (i.val + 1 ≤ i.val ∧ row < i) :=
    fun inside => Nat.not_succ_le_self i inside.1
  have others : ∀ j : Fin n, j ≠ i →
      (i.val ≤ j.val ∧ row < j ↔ i.val + 1 ≤ j.val ∧ row < j) := by
    intro j different
    omega
  rw [accounted row, ← sameTerms, sum_filter_one_more notBefore others]
  rcases lt_trichotomy row i with above | rfl | below
  · rw [if_neg (by omega), if_pos ⟨le_rfl, above⟩, if_neg (by omega), solvedHere,
      nextGet row, if_pos above]
    ring
  · rw [if_neg (by omega), if_neg fun inside => lt_irrefl row inside.2, if_pos le_rfl,
      solvedHere, mul_div_cancel₀ _ diagonalNonzero, add_zero]
  · rw [if_pos (Nat.succ_le_of_lt below), if_neg fun inside => below.not_gt inside.2,
      if_pos (Fin.lt_def.mp below).le, finishedStay row below, add_zero]

/-- Backward substitution solves the system of the upper factor. -/
theorem upperFactor_mulVec_backward
    [DecidableEq α]
    {a : RowMatrix α n n}
    {b solution : Vector α n}
    (solved : backward? a b = some solution) :
    upperFactor a *ᵥ solution.get = b.get := by
  have accounted : AccountedAbove a b 0 solution := by
    refine foldlM_reverse_finRange_induction (AccountedAbove a b) (substituteAbove? a)
      ?_ ?_ solved
    · intro row
      have noTerms : (univ.filter fun j : Fin n => n ≤ j.val ∧ row < j) = ∅ := by
        ext j
        simp only [mem_filter, mem_univ, true_and, notMem_empty, iff_false]
        omega
      rw [noTerms, sum_empty, zero_add, if_neg (by omega)]
    · intro i rest next accounted stepped
      exact substituteAbove_accounted accounted stepped
  funext row
  have finished := accounted row
  simp only [Nat.zero_le, true_and, if_true] at finished
  rw [Matrix.mulVec, dotProduct, sum_upperFactor_mul, finished]

end Elimination
end RootTrace
