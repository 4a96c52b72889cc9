import RootTrace.Proofs.Places.Equations
import RootTrace.Solver

/-!
# Residuals in a buffer

The residuals are written over the front of a buffer, one after the other. What they are does
not depend on what stood in the buffer, what stands behind them stays, and a buffer with fewer
places than roots has none for the first residual that does not fit. Over a commutative ring
each residual is the difference of two products whose factors have no order, so the left
constants can be permuted, the right ones on their own, and the shifts.
-/

namespace RootTrace

universe u v

variable {K : Type u} {n : Nat}

/-! ## Overwriting the front of a buffer -/

/-- What a buffer holds once values have been written over its front. -/
structure Overwritten (values : Fin n → K) (buffer written : List K) : Prop where
  /-- There are as many places as before. -/
  length : written.length = buffer.length
  /-- The values stand in front. -/
  front : ∀ i : Fin n, written[i.val]? = some (values i)
  /-- Every place behind them holds what it held. -/
  behind : ∀ place, n ≤ place → written[place]? = buffer[place]?

theorem overwrite?_of_length_le
    {values buffer : List K}
    (fits : values.length ≤ buffer.length) :
    overwrite? values buffer = some (values ++ buffer.drop values.length) :=
  if_pos fits

theorem overwrite?_of_length_lt
    {values buffer : List K}
    (short : buffer.length < values.length) :
    overwrite? values buffer = none :=
  if_neg (Nat.not_le.mpr short)

theorem overwritten_append_drop
    (values : Vector K n)
    {buffer : List K}
    (fits : n ≤ buffer.length) :
    Overwritten values.get buffer (values.toList ++ buffer.drop n) where
  length := by
    simp [fits]
  front := by
    intro i
    rw [List.getElem?_append_left (by simp)]
    simp [Vector.get_eq_getElem]
  behind := by
    intro place later
    rw [List.getElem?_append_right (by simpa using later)]
    simp [later]

/-! ## Constants in another order -/

namespace Config

/-- The same constants in another order: left and right ones and shifts each on their own. -/
structure Permutes (config other : Config K) : Prop where
  left : config.constants.left.Perm other.constants.left
  right : config.constants.right.Perm other.constants.right
  shifts : config.shifts.toList.Perm other.shifts.toList

theorem Permutes.paired
    {config other : Config K}
    (permutes : config.Permutes other)
    (paired : config.constants.left.length = config.constants.right.length) :
    other.constants.left.length = other.constants.right.length := by
  rw [← permutes.left.length_eq, ← permutes.right.length_eq, paired]

variable [CommRing K]

/-- The parameter times the factors of a root against the left constants and against the other
roots with the shifts added, minus the factors against the right constants and against the
other roots with the shifts taken away. -/
def productDifference (config : Config K) (x : Vector K n) (q : K) (i : Fin n) : K :=
  q * (config.constants.left.map fun constant => x.get i - constant).prod *
      ∏ k ∈ Finset.univ.erase i,
        (config.shifts.toList.map fun shift => x.get i - x.get k + shift).prod -
    (config.constants.right.map fun constant => x.get i - constant).prod *
      ∏ k ∈ Finset.univ.erase i,
        (config.shifts.toList.map fun shift => x.get i - x.get k - shift).prod

theorem Permutes.productDifference_eq
    {config other : Config K}
    (permutes : config.Permutes other)
    (x : Vector K n)
    (q : K)
    (i : Fin n) :
    other.productDifference x q i = config.productDifference x q i := by
  have leftProduct := (permutes.left.map fun constant => x.get i - constant).prod_eq
  have rightProduct := (permutes.right.map fun constant => x.get i - constant).prod_eq
  have added (difference : K) := (permutes.shifts.map fun shift => difference + shift).prod_eq
  have taken (difference : K) := (permutes.shifts.map fun shift => difference - shift).prod_eq
  simp only [productDifference, leftProduct, rightProduct, added, taken]

section Paired

variable {config : Config K}
  (paired : config.constants.left.length = config.constants.right.length)
  (x : Vector K n) (q : K)

include paired

theorem residualAt_productForm (i : Fin n) :
    config.productForm.residualAt x q i = config.productDifference x q i := by
  obtain ⟨left, right⟩ := map_pairs_productForm paired
  rw [ProductForm.residualAt_eq, ← ProductForm.prod_pairFactors, ProductForm.pairFactors,
    ProductForm.prod_map_pairFactor, left, right, ProductForm.difference_start_mul]
  rfl

theorem get_residual_productForm :
    (config.productForm.residual x q).get = config.productDifference x q := by
  funext i
  rw [ProductForm.get_residual, residualAt_productForm paired]

theorem residual_eq_of_permutes
    {other : Config K}
    (permutes : config.Permutes other) :
    other.productForm.residual x q = config.productForm.residual x q := by
  apply eq_of_get_eq
  funext i
  rw [get_residual_productForm paired, get_residual_productForm (permutes.paired paired),
    permutes.productDifference_eq]

end Paired

end Config

/-! ## Residuals of a configuration -/

/-- The residuals of a configuration are those of its equations, if it is accepted. -/
theorem Solver.residual_eq
    (config : Config (Complex Float))
    (x : Vector (Complex Float) n)
    (q : Complex Float) :
    Solver.residual config x q = config.check.map fun _ => config.productForm.residual x q := by
  unfold residual system Config.equations
  cases config.check with
  | ok accepted => rfl
  | error fault => rfl

namespace Places

section Buffers

variable [One K] [Add K] [Sub K] [Mul K]
  (config : Config K) (x : Vector K n) (q : K) {buffer : List K}

/-- A buffer with a place for every root is overwritten, in one piece and by the loop. -/
theorem exists_overwritten {α : Type v} (fits : n ≤ buffer.length) :
    ∃ written,
      overwrite? (config.productForm.residual x q).toList buffer = some written ∧
      (residualInto config x.toList q buffer : Except (Stop α) (List K)) = .ok written ∧
      Overwritten (config.productForm.residual x q).get buffer written := by
  have overwritten : overwrite? (config.productForm.residual x q).toList buffer =
      some ((config.productForm.residual x q).toList ++ buffer.drop n) := by
    rw [overwrite?_of_length_le (by simpa using fits), Vector.length_toList]
  exact ⟨_, overwritten, residualInto_eq_ok config x q overwritten,
    overwritten_append_drop _ fits⟩

theorem overwrite?_residual_of_short (short : buffer.length < n) :
    overwrite? (config.productForm.residual x q).toList buffer = none :=
  overwrite?_of_length_lt (by simpa using short)

/-- A buffer of zeros that has as many places as there are roots holds the residuals and
nothing else afterwards. -/
theorem residualInto_zeros [Zero K] {α : Type v} :
    overwrite? (config.productForm.residual x q).toList (List.replicate n 0) =
        some (config.productForm.residual x q).toList ∧
      (residualInto config x.toList q (List.replicate n 0) : Except (Stop α) (List K)) =
        .ok (config.productForm.residual x q).toList := by
  have whole : overwrite? (config.productForm.residual x q).toList (List.replicate n 0) =
      some (config.productForm.residual x q).toList := by
    rw [overwrite?_of_length_le (by simp)]
    simp
  exact ⟨whole, residualInto_eq_ok config x q whole⟩

end Buffers

/-- Over the doubles, the residuals of accepted constants are what stands in a buffer that held
zeros, and constants that are turned down have none. -/
theorem residual_of_doubles
    (config : Config (Complex Float))
    (x : Vector (Complex Float) n)
    (q : Complex Float) :
    (∀ fault, config.check = .error fault → Solver.residual config x q = .error fault) ∧
    (config.check = .ok ⟨⟩ → ∃ values : Vector (Complex Float) n,
      Solver.residual config x q = .ok values ∧
      (RootSystem.ofProductForm config.productForm).residualInto? x q (List.replicate n 0) =
        some values.toList ∧
      (residualInto config x.toList q (List.replicate n 0) :
          Except (Stop Float) (List (Complex Float))) = .ok values.toList) := by
  constructor
  · intro fault refused
    rw [Solver.residual_eq, refused]
    rfl
  · intro accepted
    refine ⟨config.productForm.residual x q, ?_, residualInto_zeros config x q⟩
    rw [Solver.residual_eq, accepted]
    rfl

/-- Constants that pair up have the residuals that the two products say. Written over the front
of a buffer they replace whatever stood there and leave the rest, and a buffer with fewer places
than roots cannot be written. The order in which the left constants, the right constants and the
shifts are given does not matter. Over the doubles, the residuals of accepted constants are what
stands in a buffer that held zeros, and constants that are turned down have none. -/
theorem residuals_are_product_differences
    {α : Type v} [CommRing K]
    (config : Config K)
    (paired : config.constants.left.length = config.constants.right.length)
    (x : Vector K n)
    (q : K) :
    (∀ buffer : List K, n ≤ buffer.length → ∃ written,
      overwrite? (config.productForm.residual x q).toList buffer = some written ∧
      (residualInto config x.toList q buffer : Except (Stop α) (List K)) = .ok written ∧
      Overwritten (config.productDifference x q) buffer written) ∧
    (∀ buffer : List K, buffer.length < n →
      overwrite? (config.productForm.residual x q).toList buffer = none ∧
      (residualInto config x.toList q buffer : Except (Stop α) (List K)) =
        .error .outOfRange) ∧
    (∀ other : Config K, config.Permutes other →
      other.productForm.residual x q = config.productForm.residual x q) ∧
    ∀ (m : Nat) (doubles : Config (Complex Float)) (y : Vector (Complex Float) m)
      (p : Complex Float),
      (∀ fault, doubles.check = .error fault → Solver.residual doubles y p = .error fault) ∧
      (doubles.check = .ok ⟨⟩ → ∃ values : Vector (Complex Float) m,
        Solver.residual doubles y p = .ok values ∧
        (RootSystem.ofProductForm doubles.productForm).residualInto? y p (List.replicate m 0) =
          some values.toList ∧
        (residualInto doubles y.toList p (List.replicate m 0) :
            Except (Stop Float) (List (Complex Float))) = .ok values.toList) := by
  refine ⟨?_, ?_, ?_, fun _ => residual_of_doubles⟩
  · intro buffer fits
    rw [← Config.get_residual_productForm paired]
    exact exists_overwritten config x q fits
  · intro buffer short
    exact ⟨overwrite?_residual_of_short config x q short,
      residualInto_eq_outOfRange config x q short⟩
  · intro other permutes
    exact Config.residual_eq_of_permutes paired x q permutes

/-- Constants with three shifts and two pairs. -/
def threeShifts : Config Int :=
  ⟨⟨1, 2, 3⟩, ⟨[6, 5], [3, 2]⟩⟩

/-- The same constants with the left ones and the shifts in another order. -/
def threeShiftsReordered : Config Int :=
  ⟨⟨3, 1, 2⟩, ⟨[5, 6], [3, 2]⟩⟩

/-- Two residuals stand in front of what a buffer of three places held in its last one, and one
place is not enough for them. On the doubles a pair is accepted and a single left constant is
turned down. -/
theorem residuals_of_threeShifts :
    (∃ written,
      overwrite? (threeShifts.productForm.residual #v[0, 1] 2).toList [7, 7, 7] = some written ∧
      (residualInto threeShifts [0, 1] 2 [7, 7, 7] : Except (Stop Float) (List Int)) =
        .ok written ∧
      written[0]? = some 144 ∧ written[1]? = some 960 ∧ written[2]? = some 7) ∧
    (residualInto threeShifts [0, 1] 2 [7] : Except (Stop Float) (List Int)) =
      .error .outOfRange ∧
    threeShiftsReordered.productForm.residual #v[0, 1] 2 =
      threeShifts.productForm.residual #v[0, 1] 2 ∧
    Solver.residual ⟨⟨0, 0, 0⟩, ⟨[1], []⟩⟩ #v[⟨3, 0⟩] ⟨2, 0⟩ = .error (.lengthMismatch 1 0) ∧
    ∃ values : Vector (Complex Float) 1,
      Solver.residual ⟨⟨0, 0, 0⟩, ⟨[1], [1]⟩⟩ #v[⟨3, 0⟩] ⟨2, 0⟩ = .ok values ∧
      (residualInto ⟨⟨0, 0, 0⟩, ⟨[1], [1]⟩⟩ [⟨3, 0⟩] ⟨2, 0⟩ [0] :
        Except (Stop Float) (List (Complex Float))) = .ok values.toList := by
  obtain ⟨covers, refuses, reorders, zeros⟩ :=
    residuals_are_product_differences (α := Float) threeShifts rfl #v[0, 1] 2
  have permutes : threeShifts.Permutes threeShiftsReordered :=
    ⟨by decide, by decide, by decide⟩
  obtain ⟨written, overwritten, loop, whole⟩ := covers [7, 7, 7] (by decide)
  refine ⟨⟨written, overwritten, loop, ?_, ?_, ?_⟩, (refuses [7] (by decide)).2,
    reorders threeShiftsReordered permutes, ?_, ?_⟩
  · exact (whole.front 0).trans (congrArg some (by decide))
  · exact (whole.front 1).trans (congrArg some (by decide))
  · exact whole.behind 2 (by decide)
  · exact (zeros 1 ⟨⟨0, 0, 0⟩, ⟨[1], []⟩⟩ #v[⟨3, 0⟩] ⟨2, 0⟩).1 _ rfl
  · obtain ⟨values, residual, _, filled⟩ :=
      (zeros 1 ⟨⟨0, 0, 0⟩, ⟨[1], [1]⟩⟩ #v[⟨3, 0⟩] ⟨2, 0⟩).2 (by decide +kernel)
    exact ⟨values, residual, filled⟩

end Places
end RootTrace
