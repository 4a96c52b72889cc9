import RootTrace.Elimination
import RootTrace.Proofs.Algebra.Complex
import RootTrace.Proofs.Algebra.Matrix

/-!
# Elimination factors the matrix

While columns are eliminated, one stored matrix holds the multipliers of the
columns that are done and the rows that are left. The product that it stands for
is the given matrix up to the row exchanges, and no step changes it: an exchange
moves whole rows below the finished ones, clearing a column subtracts what its
multipliers add back, and a column is only skipped when nothing is left in it.
At the end the product is that of a lower factor with unit diagonal and an upper
factor.
-/

namespace RootTrace

universe u v

open Finset

/-- What holds at the start of a loop over all indices, and is carried from each
index to the next, holds at its end. -/
theorem foldl_finRange_induction
    {β : Type v} {n : Nat}
    (holds : Nat → β → Prop)
    (step : β → Fin n → β)
    {start : β}
    (atStart : holds 0 start)
    (carried : ∀ (i : Fin n) (state : β), holds i state → holds (i + 1) (step state i)) :
    holds n ((List.finRange n).foldl step start) := by
  have throughPrefix : ∀ count, count ≤ n →
      holds count (((List.finRange n).take count).foldl step start) := by
    intro count
    induction count with
    | zero => exact fun _ => atStart
    | succ count inductionHypothesis =>
        intro bounded
        have inside : count < (List.finRange n).length := by
          rw [List.length_finRange]
          omega
        rw [List.take_succ_eq_append_getElem inside, List.foldl_append,
          List.getElem_finRange]
        exact carried ⟨count, bounded⟩ _ (inductionHypothesis (Nat.le_of_succ_le bounded))
  have whole := throughPrefix n le_rfl
  rwa [List.take_of_length_le (by rw [List.length_finRange])] at whole

/-- When one index more is summed over, its term is added. -/
theorem sum_filter_one_more
    {M : Type v} [AddCommMonoid M] {n : Nat}
    {before after : Fin n → Prop} [DecidablePred before] [DecidablePred after]
    {i : Fin n}
    (notBefore : ¬ before i)
    (others : ∀ j, j ≠ i → (after j ↔ before j))
    (term : Fin n → M) :
    ∑ j with after j, term j = (∑ j with before j, term j) + if after i then term i else 0 := by
  have eachTerm : ∀ j, (if after j then term j else 0) =
      (if before j then term j else 0) +
        if j = i then (if after i then term i else 0) else 0 := by
    intro j
    by_cases same : j = i
    · rw [same, if_neg notBefore, if_pos rfl, zero_add]
    · rw [if_neg same, add_zero, if_congr (others j same) rfl rfl]
  rw [sum_filter, sum_congr rfl fun j _ => eachTerm j, sum_add_distrib, ← sum_filter,
    sum_ite_eq' univ i, if_pos (mem_univ i)]

namespace Elimination

variable {α : Type u} {n : Nat}

/-! ## Pivots -/

/-- Among the entries that a search keeps the largest of, none is larger than
the one that it ends with, and the search ends with one of them. -/
theorem foldl_larger_spec
    {ι : Type v} [LinearOrder α]
    (size : ι → α)
    (rows : List ι)
    (start : ι) :
    let best := rows.foldl
      (fun best row => if size best < size row then row else best) start
    best ∈ start :: rows ∧ ∀ row ∈ start :: rows, size row ≤ size best := by
  induction rows generalizing start with
  | nil => simp
  | cons row rows inductionHypothesis =>
      obtain ⟨found, largest⟩ :=
        inductionHypothesis (if size start < size row then row else start)
      rw [List.foldl_cons]
      by_cases larger : size start < size row
      · rw [if_pos larger] at found largest ⊢
        refine ⟨List.mem_cons_of_mem start found, ?_⟩
        intro other member
        rcases List.mem_cons.mp member with rfl | member
        · exact larger.le.trans (largest row List.mem_cons_self)
        · exact largest other member
      · rw [if_neg larger] at found largest ⊢
        constructor
        · rcases List.mem_cons.mp found with same | member
          · exact List.mem_cons.mpr (Or.inl same)
          · exact List.mem_cons_of_mem _ (List.mem_cons_of_mem _ member)
        · intro other member
          rcases List.mem_cons.mp member with rfl | member
          · exact largest other List.mem_cons_self
          · rcases List.mem_cons.mp member with rfl | member
            · exact (not_lt.mp larger).trans (largest start List.mem_cons_self)
            · exact largest other (List.mem_cons_of_mem _ member)

/-- A pivot is looked for in the rows that are left. -/
theorem le_pivotRow
    [LinearOrder α] [Magnitude α]
    (a : RowMatrix α n n)
    (column : Fin n) :
    column ≤ pivotRow a column := by
  have found := (foldl_larger_spec (fun row => Magnitude.abs (a.entry row column))
    ((List.finRange n).filter fun row => column < row) column).1
  rcases List.mem_cons.mp found with same | member
  · exact le_of_eq same.symm
  · exact (of_decide_eq_true (List.mem_filter.mp member).2).le

/-- If the pivot is zero, nothing is left in its column. -/
theorem entry_eq_zero_of_pivot_eq_zero
    [Field α] [LinearOrder α] [IsStrictOrderedRing α]
    [Magnitude α] [ExactMagnitude α]
    {a : RowMatrix α n n}
    {column : Fin n}
    (zeroPivot : a.entry (pivotRow a column) column = 0)
    {row : Fin n}
    (below : column ≤ row) :
    a.entry row column = 0 := by
  have largest := (foldl_larger_spec (fun row => Magnitude.abs (a.entry row column))
    ((List.finRange n).filter fun row => column < row) column).2
  have member : row ∈ column :: (List.finRange n).filter fun row => column < row := by
    rcases below.eq_or_lt with same | later
    · exact same ▸ List.mem_cons_self
    · exact List.mem_cons_of_mem _ (List.mem_filter.mpr
        ⟨List.mem_finRange row, decide_eq_true later⟩)
  have bounded := largest row member
  change Magnitude.abs (a.entry row column) ≤
    Magnitude.abs (a.entry (pivotRow a column) column) at bounded
  rw [ExactMagnitude.abs_eq, ExactMagnitude.abs_eq, zeroPivot, abs_zero] at bounded
  exact abs_nonpos_iff.mp bounded

/-! ## Entries of the steps -/

@[simp] theorem entry_swap
    (a : RowMatrix α n n)
    (first second i k : Fin n) :
    RowMatrix.entry (a.swap first second first.isLt second.isLt) i k =
      a.entry (Equiv.swap first second i) k := by
  rw [RowMatrix.entry, get_swap, RowMatrix.entry]

section Entries

variable [Field α]

/-- Clearing a column leaves the pivot row and those above it as they are. -/
theorem entry_clearBelow_of_le
    (a : RowMatrix α n n)
    {column i : Fin n}
    (above : i ≤ column)
    (k : Fin n) :
    (clearBelow a column).entry i k = a.entry i k := by
  unfold clearBelow
  rw [RowMatrix.entry_ofFn, if_neg (not_lt.mpr above), RowMatrix.entry]

/-- Below the pivot row, the quotient takes the place of the entry that is cleared, and multiples
of the pivot row are taken off behind it. -/
theorem entry_clearBelow_of_lt
    (a : RowMatrix α n n)
    {column i : Fin n}
    (below : column < i)
    (k : Fin n) :
    (clearBelow a column).entry i k =
      if k < column then a.entry i k
      else if k = column then a.entry i column * (1 / a.entry column column)
      else -a.entry column k * (a.entry i column * (1 / a.entry column column)) +
        a.entry i k := by
  unfold clearBelow
  rw [RowMatrix.entry_ofFn, if_pos below, clearRow, Vector.get_ofFn]
  rfl

end Entries

/-! ## The product that is kept -/

section Recombined

variable [Field α]

/-- What the finished columns took off an entry: multipliers of its row times
entries of finished rows. -/
def takenOff (e : RowMatrix α n n) (done : Nat) (i k : Fin n) : α :=
  ∑ j with j.val < done ∧ j < i ∧ j ≤ k, e.entry i j * e.entry j k

/-- Entry of the product that a stored matrix stands for when its first columns
are done. A multiplier is stored where an entry was cleared. -/
def recombined (e : RowMatrix α n n) (done : Nat) (i k : Fin n) : α :=
  takenOff e done i k + if k.val < done ∧ k < i then 0 else e.entry i k

theorem recombined_zero (e : RowMatrix α n n) (i k : Fin n) :
    recombined e 0 i k = e.entry i k := by
  simp [recombined, takenOff]

theorem takenOff_succ
    (e : RowMatrix α n n)
    (column i k : Fin n) :
    takenOff e (column + 1) i k = takenOff e column i k +
      if column < i ∧ column ≤ k then e.entry i column * e.entry column k else 0 := by
  have notBefore : ¬ (column.val < column.val ∧ column < i ∧ column ≤ k) :=
    fun inside => lt_irrefl column.val inside.1
  have others : ∀ j : Fin n, j ≠ column →
      (j.val < column.val + 1 ∧ j < i ∧ j ≤ k ↔ j.val < column.val ∧ j < i ∧ j ≤ k) := by
    intro j different
    omega
  rw [takenOff, sum_filter_one_more notBefore others, takenOff]
  simp only [Nat.lt_succ_self, true_and]

/-- Only the multipliers of the row and the finished rows matter. -/
theorem takenOff_congr
    {e e' : RowMatrix α n n}
    {done : Nat}
    {i i' k : Fin n}
    (sameOrder : ∀ j : Fin n, j.val < done → (j < i ↔ j < i'))
    (sameMultipliers : ∀ j : Fin n, j.val < done → j < i → e.entry i j = e'.entry i' j)
    (sameRows : ∀ j : Fin n, j.val < done → j < i → e.entry j k = e'.entry j k) :
    takenOff e done i k = takenOff e' done i' k := by
  rw [takenOff, takenOff]
  apply sum_congr
  · ext j
    simp only [mem_filter, mem_univ, true_and]
    constructor
    · rintro ⟨finished, above, reached⟩
      exact ⟨finished, (sameOrder j finished).mp above, reached⟩
    · rintro ⟨finished, above, reached⟩
      exact ⟨finished, (sameOrder j finished).mpr above, reached⟩
  · intro j member
    obtain ⟨finished, above, _⟩ := (mem_filter.mp member).2
    have aboveFirst := (sameOrder j finished).mpr above
    rw [sameMultipliers j finished aboveFirst, sameRows j finished aboveFirst]

/-- An exchange of unfinished rows exchanges the rows of the product. -/
theorem recombined_swap
    (e : RowMatrix α n n)
    {column pivot : Fin n}
    (below : column ≤ pivot)
    (i k : Fin n) :
    recombined (e.swap column pivot column.isLt pivot.isLt) column i k =
      recombined e column (Equiv.swap column pivot i) k := by
  have finishedStay : ∀ j : Fin n, j < column → Equiv.swap column pivot j = j :=
    fun j finished =>
      Equiv.swap_apply_of_ne_of_ne finished.ne (finished.trans_le below).ne
  have sameOrder : ∀ j : Fin n, j.val < column →
      (j < i ↔ j < Equiv.swap column pivot i) := by
    intro j finished
    by_cases finishedRow : i < column
    · rw [finishedStay i finishedRow]
    · have unfinished : column ≤ Equiv.swap column pivot i := by
        rw [Equiv.swap_apply_def]
        split_ifs <;> omega
      omega
  rw [recombined, recombined, entry_swap]
  congr 1
  · apply takenOff_congr sameOrder
    · intro j _ _
      rw [entry_swap]
    · intro j finished _
      rw [entry_swap, finishedStay j finished]
  · by_cases finished : k.val < column
    · simp only [finished, true_and, sameOrder k finished]
    · simp only [finished, false_and]

/-- Clearing a column below a nonzero pivot keeps the product. -/
theorem recombined_clearBelow
    (e : RowMatrix α n n)
    {column : Fin n}
    (pivotNonzero : e.entry column column ≠ 0)
    (i k : Fin n) :
    recombined (clearBelow e column) (column + 1) i k = recombined e column i k := by
  have finishedRows : ∀ j : Fin n, j.val < column → j < i →
      (clearBelow e column).entry j k = e.entry j k :=
    fun j finished _ => entry_clearBelow_of_le e (Fin.le_of_lt finished) k
  rcases le_or_gt i column with above | below
  · have sameTakenOff :
        takenOff (clearBelow e column) column i k = takenOff e column i k := by
      apply takenOff_congr (fun _ _ => Iff.rfl) _ finishedRows
      intro j _ _
      exact entry_clearBelow_of_le e above j
    rw [recombined, takenOff_succ, if_neg (by omega), add_zero, sameTakenOff,
      entry_clearBelow_of_le e above, recombined]
    congr 1
    have sameCondition : (k.val < column + 1 ∧ k < i) ↔ (k.val < column ∧ k < i) := by
      omega
    simp only [sameCondition]
  · have sameTakenOff :
        takenOff (clearBelow e column) column i k = takenOff e column i k := by
      apply takenOff_congr (fun _ _ => Iff.rfl) _ finishedRows
      intro j finished _
      rw [entry_clearBelow_of_lt e below, if_pos (Fin.lt_def.mpr finished)]
    rcases lt_trichotomy k column with finished | rfl | later
    · rw [recombined, takenOff_succ, if_neg (by omega), add_zero, sameTakenOff, recombined,
        if_pos (by omega), if_pos (by omega)]
    · rw [recombined, takenOff_succ, if_pos ⟨below, le_rfl⟩, sameTakenOff, recombined,
        if_pos (by omega), if_neg (by omega), entry_clearBelow_of_lt e below,
        if_neg (lt_irrefl k), if_pos rfl, entry_clearBelow_of_le e le_rfl]
      field_simp
      ring
    · rw [recombined, takenOff_succ, if_pos ⟨below, later.le⟩, sameTakenOff, recombined,
        if_neg (by omega), if_neg (by omega), entry_clearBelow_of_lt e below,
        entry_clearBelow_of_lt e below, entry_clearBelow_of_le e le_rfl,
        if_neg (lt_irrefl column), if_pos rfl, if_neg (not_lt.mpr later.le),
        if_neg later.ne']
      ring

/-- Skipping a column in which nothing is left keeps the product. -/
theorem recombined_skip
    (e : RowMatrix α n n)
    {column : Fin n}
    (nothingLeft : ∀ i, column ≤ i → e.entry i column = 0)
    (i k : Fin n) :
    recombined e (column + 1) i k = recombined e column i k := by
  have sameTakenOff : takenOff e (column + 1) i k = takenOff e column i k := by
    by_cases inside : column < i ∧ column ≤ k
    · rw [takenOff_succ, if_pos inside, nothingLeft i inside.1.le, zero_mul, add_zero]
    · rw [takenOff_succ, if_neg inside, add_zero]
  rw [recombined, recombined, sameTakenOff]
  congr 1
  by_cases cleared : k = column ∧ k < i
  · obtain ⟨rfl, below⟩ := cleared
    rw [if_pos (by omega), if_neg (by omega), nothingLeft i below.le]
  · have sameCondition : (k.val < column + 1 ∧ k < i) ↔ (k.val < column ∧ k < i) := by
      omega
    simp only [sameCondition]

end Recombined

/-! ## Row exchanges -/

/-- The place that each row was brought from by a list of exchanges. -/
def broughtFrom (exchanges : List (Fin n × Fin n)) : Equiv.Perm (Fin n) :=
  (exchanges.map fun exchange => Equiv.swap exchange.1 exchange.2).prod

/-- An exchange that comes last is carried out first on the indices. -/
theorem broughtFrom_append
    (exchanges : List (Fin n × Fin n))
    (first second : Fin n) :
    broughtFrom (exchanges ++ [(first, second)]) =
      broughtFrom exchanges * Equiv.swap first second := by
  unfold broughtFrom
  rw [List.map_append, List.prod_append, List.map_singleton,
    List.prod_singleton]

theorem get_exchangeRows
    (exchanges : List (Fin n × Fin n))
    (b : Vector α n)
    (i : Fin n) :
    (exchangeRows exchanges b).get i = b.get (broughtFrom exchanges i) := by
  induction exchanges generalizing b with
  | nil => rfl
  | cons exchange exchanges inductionHypothesis =>
      rw [exchangeRows, List.foldl_cons, ← exchangeRows, inductionHypothesis, get_swap]
      rfl

/-! ## The run of the elimination -/

section Run

variable [Field α] [LinearOrder α] [IsStrictOrderedRing α] [Magnitude α]
  [ExactMagnitude α]

/-- With the first columns done, the factors stand for a matrix whose rows were
exchanged. -/
def Factors.Represents (factors : Factors α n) (done : Nat) (a : RowMatrix α n n) :
    Prop :=
  ∀ i k, recombined factors.entries done i k =
    a.entry (broughtFrom factors.exchanges i) k

/-- Clearing one more column keeps the factors those of the same matrix, with its rows exchanged.
-/
theorem Factors.eliminate_represents
    {factors : Factors α n}
    {column : Fin n}
    {a : RowMatrix α n n}
    (represents : factors.Represents column a) :
    (factors.eliminate column).Represents (column + 1) a := by
  unfold Factors.eliminate
  by_cases zeroPivot :
      factors.entries.entry (pivotRow factors.entries column) column = 0
  · rw [if_pos (beq_iff_eq.mpr zeroPivot)]
    intro i k
    rw [recombined_skip factors.entries fun row below =>
      entry_eq_zero_of_pivot_eq_zero zeroPivot below]
    exact represents i k
  · rw [if_neg (mt beq_iff_eq.mp zeroPivot)]
    intro i k
    have pivotNonzero :
        RowMatrix.entry
          (factors.entries.swap column (pivotRow factors.entries column))
          column column ≠ 0 := by
      rwa [entry_swap, Equiv.swap_apply_left]
    rw [recombined_clearBelow _ pivotNonzero,
      recombined_swap _ (le_pivotRow factors.entries column), represents,
      broughtFrom_append, Equiv.Perm.mul_apply]

/-- Elimination ends with factors of the given matrix. -/
theorem factor_represents (a : RowMatrix α n n) : (factor a).Represents n a := by
  refine foldl_finRange_induction
    (fun done factors => Factors.Represents factors done a) Factors.eliminate ?_ ?_
  · intro i k
    exact recombined_zero a i k
  · intro column factors represents
    exact Factors.eliminate_represents represents

end Run

/-! ## The two factors -/

section Matrices

variable [Field α]

/-- Multipliers below a diagonal of ones. -/
def lowerFactor (e : RowMatrix α n n) : Matrix (Fin n) (Fin n) α :=
  Matrix.of fun i j => if j < i then e.entry i j else if j = i then 1 else 0

/-- The entries on the diagonal and above it. -/
def upperFactor (e : RowMatrix α n n) : Matrix (Fin n) (Fin n) α :=
  Matrix.of fun i j => if i ≤ j then e.entry i j else 0

/-- A row of the lower factor gives its multipliers and the diagonal one. -/
theorem sum_lowerFactor_mul
    (e : RowMatrix α n n)
    (i : Fin n)
    (f : Fin n → α) :
    ∑ j, lowerFactor e i j * f j = (∑ j with j < i, e.entry i j * f j) + f i := by
  have eachTerm : ∀ j, lowerFactor e i j * f j =
      (if j < i then e.entry i j * f j else 0) + if j = i then f j else 0 := by
    intro j
    unfold lowerFactor
    rw [Matrix.of_apply]
    rcases lt_trichotomy j i with above | rfl | below
    · rw [if_pos above, if_pos above, if_neg above.ne, add_zero]
    · rw [if_neg (lt_irrefl j), if_neg (lt_irrefl j), if_pos rfl, if_pos rfl, one_mul,
        zero_add]
    · rw [if_neg below.not_gt, if_neg below.not_gt, if_neg below.ne', if_neg below.ne',
        zero_mul, add_zero]
  rw [sum_congr rfl fun j _ => eachTerm j, sum_add_distrib, ← sum_filter,
    sum_ite_eq' univ i, if_pos (mem_univ i)]

/-- A row of the upper factor gives its diagonal entry and what is right of it. -/
theorem sum_upperFactor_mul
    (e : RowMatrix α n n)
    (i : Fin n)
    (f : Fin n → α) :
    ∑ j, upperFactor e i j * f j =
      (∑ j with i < j, e.entry i j * f j) + e.entry i i * f i := by
  have eachTerm : ∀ j, upperFactor e i j * f j =
      (if i < j then e.entry i j * f j else 0) +
        if j = i then e.entry i j * f j else 0 := by
    intro j
    unfold upperFactor
    rw [Matrix.of_apply]
    rcases lt_trichotomy i j with above | rfl | below
    · rw [if_pos above.le, if_pos above, if_neg above.ne', add_zero]
    · rw [if_pos le_rfl, if_neg (lt_irrefl i), if_pos rfl, zero_add]
    · rw [if_neg below.not_ge, if_neg below.not_gt, if_neg below.ne, zero_mul, add_zero]
  rw [sum_congr rfl fun j _ => eachTerm j, sum_add_distrib, ← sum_filter,
    sum_ite_eq' univ i, if_pos (mem_univ i)]

/-- When all columns are done, the product that is kept is that of the two
factors. -/
theorem lowerFactor_mul_upperFactor_apply (e : RowMatrix α n n) (i k : Fin n) :
    (lowerFactor e * upperFactor e) i k = recombined e n i k := by
  have multipliers :
      ∑ j with j < i, e.entry i j * upperFactor e j k = takenOff e n i k := by
    unfold upperFactor takenOff
    rw [sum_filter, sum_filter]
    apply sum_congr rfl
    intro j _
    rw [Matrix.of_apply]
    by_cases above : j < i
    · by_cases reached : j ≤ k
      · rw [if_pos above, if_pos reached, if_pos ⟨j.isLt, above, reached⟩]
      · rw [if_pos above, if_neg reached, mul_zero, if_neg fun inside => reached inside.2.2]
    · rw [if_neg above, if_neg fun inside => above inside.2.1]
  rw [Matrix.mul_apply, sum_lowerFactor_mul, multipliers, recombined]
  congr 1
  unfold upperFactor
  rw [Matrix.of_apply]
  by_cases below : k < i
  · rw [if_neg below.not_ge, if_pos ⟨k.isLt, below⟩]
  · rw [if_pos (not_lt.mp below), if_neg fun inside => below inside.2]

end Matrices

/-- The product of the factors is the given matrix with its rows exchanged. -/
theorem lowerFactor_mul_upperFactor
    [Field α] [LinearOrder α] [IsStrictOrderedRing α] [Magnitude α] [ExactMagnitude α]
    (a : RowMatrix α n n) :
    lowerFactor (factor a).entries * upperFactor (factor a).entries =
      a.toMatrix.submatrix (broughtFrom (factor a).exchanges) id := by
  ext i k
  rw [lowerFactor_mul_upperFactor_apply, factor_represents a i k, Matrix.submatrix_apply,
    RowMatrix.toMatrix_apply, id]

end Elimination
end RootTrace
