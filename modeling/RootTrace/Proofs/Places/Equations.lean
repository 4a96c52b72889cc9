import RootTrace.Proofs.Places.Loops
import RootTrace.Proofs.ProductForm.RowSums

/-!
# The equations by places

The loops of the equations run over the roots and over the pairs of constants. Each loop
leaves out a place or two, and reads the roots by place. Constants that pair up leave no
constant without its partner, so the loop over the pairs counts them right.
-/

namespace RootTrace
namespace Places

universe u v

variable {α : Type u} {K : Type v}

/-! ## Loops over roots and pairs -/

section Loops

/-- Multiply in the factors of a root against one pair of constants. -/
def timesPair [Sub K] [Mul K] (root : K) (sides : Sides K) (pair : K × K) : Sides K :=
  sides * ⟨root - pair.1, root - pair.2⟩

/-- Multiply in the factors of a root against all pairs of constants, except the one at a
place that is to be left out. -/
def timesPairs [Sub K] [Mul K] (config : Config K) (root : K) (skipped : Option Nat)
    (sides : Sides K) : Sides K :=
  (config.constants.left.zip config.constants.right).zipIdx.foldl
    (fun sides pair => if some pair.2 = skipped then sides else timesPair root sides pair.1)
    sides

/-- Multiply in the shifted differences of the root at a place to all others, except the one
at a place that is to be left out. -/
def timesShifts [Add K] [Sub K] [Mul K] (config : Config K) (roots : List K) (place : Nat)
    (skipped : Option Nat) (sides : Sides K) : Except (Stop α) (Sides K) :=
  roots.zipIdx.foldlM
    (fun sides other =>
      if other.2 = place ∨ some other.2 = skipped then pure sides
      else do
        let root ← readAt roots place
        pure (sides.times (config.productForm.shiftFactors (root - other.1))))
    sides

end Loops

/-! ## Residuals and derivatives -/

section Equations

variable [One K] [Add K] [Sub K] [Mul K]

/-- Residual of the equation of the root at a place. -/
def residualAt (config : Config K) (roots : List K) (q : K) (place : Nat) :
    Except (Stop α) K := do
  let root ← readAt roots place
  let sides ← timesShifts config roots place none
    (timesPairs config root none (ProductForm.start q))
  pure sides.difference

/-- Residuals written over the front of a buffer, one by one. -/
def residualInto (config : Config K) (roots : List K) (q : K) (buffer : List K) :
    Except (Stop α) (List K) :=
  (List.range roots.length).foldlM
    (fun buffer place => do
      let residual ← residualAt config roots q place
      writeAt buffer place residual)
    buffer

/-- What the pair at a place contributes to the derivative of a residual. -/
def pairTerm (config : Config K) (roots : List K) (q : K) (place pair : Nat) :
    Except (Stop α) K := do
  let root ← readAt roots place
  let sides ← timesShifts config roots place none
    (timesPairs config root (some pair) (ProductForm.start q))
  pure sides.difference

/-- What the difference to the root at another place contributes to the derivative of a
residual, from a given start. -/
def differenceTerm (config : Config K) (roots : List K) (start : Sides K)
    (place other : Nat) : Except (Stop α) K := do
  let root ← readAt roots place
  let sides ← timesShifts config roots place (some other) (timesPairs config root none start)
  let against ← readAt roots other
  pure (sides * config.productForm.shiftDerivative (root - against)).difference

/-- Derivative of the residual at a place with respect to its own root. -/
def diagonal [Zero K] (config : Config K) (roots : List K) (q : K) (place : Nat) :
    Except (Stop α) K := do
  let pairs ← (List.range config.constants.left.length).foldlM
    (fun sum pair => do
      let term ← pairTerm config roots q place pair
      pure (sum + term))
    0
  ((List.range roots.length).filter fun other => other ≠ place).foldlM
    (fun sum other => do
      let term ← differenceTerm config roots (ProductForm.start q) place other
      pure (sum + term))
    pairs

/-- Derivative of the residual at a place with respect to the root at another place. -/
def derivative [Zero K] [Neg K] (config : Config K) (roots : List K) (q : K)
    (place other : Nat) : Except (Stop α) K :=
  if place = other then diagonal config roots q place
  else differenceTerm config roots ⟨-q, -1⟩ place other

/-- The table of all derivatives. -/
def jacobian [Zero K] [Neg K] (config : Config K) (roots : List K) (q : K) :
    Except (Stop α) (Table K) :=
  Table.fill roots.length roots.length (derivative config roots q)

end Equations

/-! ## Agreement -/

/-- A loop that leaves out no place is the loop over all items. -/
theorem foldl_zipIdx_of_ne
    {σ β : Type*}
    (step : σ → β → σ)
    (items : List β)
    (first : Nat)
    {skipped : Option Nat}
    (kept : ∀ place, first ≤ place → some place ≠ skipped)
    (start : σ) :
    (items.zipIdx first).foldl
        (fun state item => if some item.2 = skipped then state else step state item.1) start =
      items.foldl step start := by
  induction items generalizing first start with
  | nil => rfl
  | cons item items inductionHypothesis =>
      rw [List.zipIdx_cons, List.foldl_cons, List.foldl_cons,
        if_neg (kept first (Nat.le_refl first))]
      apply inductionHypothesis
      intro place behind
      exact kept place (by omega)

/-- A loop that leaves out one place is the loop over the other items. Places count from the start
of the whole list, so the loop over the rest starts one further. -/
theorem foldl_zipIdx_skip
    {σ β : Type*}
    (step : σ → β → σ)
    (items : List β)
    (first skipped : Nat)
    (start : σ) :
    (items.zipIdx first).foldl
        (fun state item =>
          if some item.2 = some (first + skipped) then state else step state item.1) start =
      (items.eraseIdx skipped).foldl step start := by
  induction items generalizing first skipped start with
  | nil => rfl
  | cons item items inductionHypothesis =>
      rw [List.zipIdx_cons, List.foldl_cons]
      cases skipped with
      | zero =>
          rw [Nat.add_zero, if_pos rfl, List.eraseIdx_cons_zero]
          apply foldl_zipIdx_of_ne
          intro place behind same
          cases same
          omega
      | succ skipped =>
          have kept : some first ≠ some (first + (skipped + 1)) := by
            simp
          rw [if_neg kept, List.eraseIdx_cons_succ, List.foldl_cons,
            ← inductionHypothesis (first + 1)]
          congr 1
          funext state item
          rw [Nat.add_right_comm, Nat.add_assoc]

/-- Factors that come in groups are multiplied in group by group. -/
theorem times_flatMap
    {ι : Type*}
    [Mul K]
    (items : List ι)
    (group : ι → List (Sides K))
    (sides : Sides K) :
    sides.times (items.flatMap group) =
      items.foldl (fun sides item => sides.times (group item)) sides := by
  induction items generalizing sides with
  | nil => rfl
  | cons item items inductionHypothesis =>
      rw [List.flatMap_cons, Sides.times_append, inductionHypothesis, List.foldl_cons]

theorem map_zip_eq_pairs (config : Config K) :
    (config.constants.left.zip config.constants.right).map (fun pair => ⟨pair.1, pair.2⟩) =
      config.productForm.pairs := by
  rw [List.map_zip_eq_zipWith]
  rfl

section Pairs

variable [Sub K] [Mul K] (config : Config K)

/-- The factors against the pairs are those against the constants that stand together. -/
theorem foldl_timesPair (root : K) (pairs : List (K × K)) (sides : Sides K) :
    pairs.foldl (timesPair root) sides =
      sides.times ((pairs.map fun pair => ⟨pair.1, pair.2⟩).map
        (ProductForm.pairFactor root)) := by
  rw [Sides.times, List.map_map, List.foldl_map]
  rfl

theorem timesPairs_none (root : K) (sides : Sides K) :
    timesPairs config root none sides =
      sides.times (config.productForm.pairFactors root) := by
  rw [timesPairs, foldl_zipIdx_of_ne (timesPair root), foldl_timesPair, map_zip_eq_pairs,
    ProductForm.pairFactors]
  intro place _ impossible
  cases impossible

/-- The loop over the pairs that skips one of them multiplies with the factors of all others. -/
theorem timesPairs_some
    (root : K)
    (k : Fin config.productForm.pairs.length)
    (sides : Sides K) :
    timesPairs config root (some k) sides =
      sides.times (config.productForm.pairFactorsExcept root k) := by
  have skips := foldl_zipIdx_skip (timesPair root)
    (config.constants.left.zip config.constants.right) 0 k sides
  rw [Nat.zero_add] at skips
  rw [timesPairs, skips, foldl_timesPair, ← List.eraseIdx_map, map_zip_eq_pairs,
    ProductForm.pairFactorsExcept]

end Pairs

section Shifts

variable {n : Nat} [Add K] [Sub K] [Mul K] (config : Config K)

/-- The loop over the roots finds every one of them and multiplies with the factors of those that
it does not skip. -/
theorem timesShifts_eq_ok
    (x : Vector K n)
    (i : Fin n)
    {skipped : Option Nat}
    (sides : Sides K) :
    (timesShifts config x.toList i skipped sides : Except (Stop α) (Sides K)) =
      .ok (sides.times (config.productForm.differenceFactors x i
        ((List.finRange n).filter fun k => ¬ (k.val = i ∨ some k.val = skipped)))) := by
  rw [timesShifts, zipIdx_toList, List.foldlM_map,
    foldlM_eq_ok (fun sides k =>
      if k.val = i.val ∨ some k.val = skipped then sides
      else sides.times (config.productForm.shiftFactors (x.get i - x.get k)))]
  · rw [ProductForm.differenceFactors, times_flatMap, List.foldl_filter]
    congr 2
    funext sides k
    by_cases leftOut : k.val = i.val ∨ some k.val = skipped
    · simp [leftOut]
    · simp [leftOut]
  · intro sides k _
    by_cases leftOut : k.val = i.val ∨ some k.val = skipped
    · rw [if_pos leftOut, if_pos leftOut]
      rfl
    · rw [if_neg leftOut, if_neg leftOut, readAt_toList]
      rfl

theorem timesShifts_none
    (x : Vector K n)
    (i : Fin n)
    (sides : Sides K) :
    (timesShifts config x.toList i none sides : Except (Stop α) (Sides K)) =
      .ok (sides.times (config.productForm.differenceFactors x i (ProductForm.others i))) := by
  rw [timesShifts_eq_ok, ProductForm.others]
  simp [Fin.ext_iff]

theorem timesShifts_some
    (x : Vector K n)
    (i j : Fin n)
    (sides : Sides K) :
    (timesShifts config x.toList i (some j.val) sides : Except (Stop α) (Sides K)) =
      .ok (sides.times
        (config.productForm.differenceFactors x i (ProductForm.othersExcept i j))) := by
  rw [timesShifts_eq_ok, ProductForm.othersExcept]
  simp [Fin.ext_iff]

/-- The term of one root difference is built from its places. -/
theorem differenceTerm_eq_ok (x : Vector K n) (start : Sides K) (i j : Fin n) :
    (differenceTerm config x.toList start i j : Except (Stop α) K) =
      .ok (start.times (config.productForm.pairFactors (x.get i) ++
        config.productForm.differenceFactors x i (ProductForm.othersExcept i j) ++
        [config.productForm.shiftDerivative (x.get i - x.get j)])).difference := by
  rw [differenceTerm, readAt_toList]
  change (timesShifts config x.toList i (some j.val) _ >>= _) = _
  rw [timesShifts_some, timesPairs_none]
  change (readAt x.toList j >>= _) = _
  rw [readAt_toList, Sides.times_append, Sides.times_append]
  rfl

end Shifts

section Entries

variable {n : Nat} [One K] [Add K] [Sub K] [Mul K] (config : Config K) (x : Vector K n) (q : K)
  (i : Fin n)

theorem residualAt_eq_ok :
    (residualAt config x.toList q i : Except (Stop α) K) =
      .ok (config.productForm.residualAt x q i) := by
  rw [residualAt, readAt_toList]
  change (timesShifts config x.toList i none _ >>= _) = _
  rw [timesShifts_none, timesPairs_none, ← Sides.times_append]
  rfl

theorem pairTerm_eq_ok (k : Fin config.productForm.pairs.length) :
    (pairTerm config x.toList q i k : Except (Stop α) K) =
      .ok (config.productForm.pairTerm x q i k) := by
  rw [pairTerm, readAt_toList]
  change (timesShifts config x.toList i none _ >>= _) = _
  rw [timesShifts_none, timesPairs_some, ← Sides.times_append]
  rfl

theorem residualAt_eq_get :
    (residualAt config x.toList q i : Except (Stop α) K) =
      .ok ((config.productForm.residual x q).get i) := by
  rw [residualAt_eq_ok, ProductForm.get_residual]

/-- The loop writes a buffer that is long enough, as far as there are roots. -/
theorem residualInto_eq_ok
    {buffer written : List K}
    (overwritten : overwrite? (config.productForm.residual x q).toList buffer = some written) :
    (residualInto config x.toList q buffer : Except (Stop α) (List K)) = .ok written := by
  rw [residualInto, Vector.length_toList]
  exact foldlM_writeAt_eq_ok (residualAt_eq_get config x q) overwritten

/-- The loop asks for a place that a shorter buffer does not have. -/
theorem residualInto_eq_outOfRange
    {buffer : List K}
    (short : buffer.length < n) :
    (residualInto config x.toList q buffer : Except (Stop α) (List K)) =
      .error .outOfRange := by
  rw [residualInto, Vector.length_toList]
  exact foldlM_writeAt_eq_outOfRange (residualAt_eq_get config x q) short

variable [Zero K]

/-- Constants that pair up are as many as their pairs, so no pair is left out. -/
theorem diagonal_eq_ok
    (paired : config.constants.left.length = config.constants.right.length) :
    (diagonal config x.toList q i : Except (Stop α) K) =
      .ok (config.productForm.diagonal x q i) := by
  have others : (List.range x.toList.length).filter (fun other => other ≠ i.val) =
      (ProductForm.others i).map Fin.val := by
    rw [Vector.length_toList, range_eq_map_finRange, List.filter_map, ProductForm.others]
    simp [Function.comp_def, Fin.ext_iff]
  rw [diagonal, ← Config.pairCount, ← Config.length_pairs_productForm paired,
    range_eq_map_finRange, List.foldlM_map,
    foldlM_eq_ok (fun sum k => sum + config.productForm.pairTerm x q i k)]
  · change List.foldlM _ _ _ = _
    rw [others, List.foldlM_map,
      foldlM_eq_ok (fun sum k => sum + config.productForm.differenceTerm x q i k)]
    · rfl
    · intro sum k _
      rw [differenceTerm_eq_ok]
      rfl
  · intro sum k _
    rw [pairTerm_eq_ok]
    rfl

variable [Neg K]

theorem derivative_eq_ok
    (paired : config.constants.left.length = config.constants.right.length)
    (j : Fin n) :
    (derivative config x.toList q i j : Except (Stop α) K) =
      .ok (config.productForm.derivative x q i j) := by
  rw [derivative, ProductForm.derivative]
  by_cases same : i = j
  · rw [if_pos (congrArg Fin.val same), if_pos same, diagonal_eq_ok config x q i paired]
  · rw [if_neg (Fin.val_ne_of_ne same), if_neg same, differenceTerm_eq_ok]
    rfl

theorem jacobian_eq_ok
    (paired : config.constants.left.length = config.constants.right.length) :
    (jacobian config x.toList q : Except (Stop α) (Table K)) =
      .ok (Table.ofRows (config.productForm.jacobian x q)) := by
  rw [jacobian, Vector.length_toList]
  apply Table.fill_eq_ok
  intro i j
  rw [derivative_eq_ok config x q i paired j, ProductForm.entry_jacobian]

end Entries

end Places
end RootTrace
