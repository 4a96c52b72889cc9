import RootTrace.Proofs.Path.Transpose
import RootTrace.RootSystem
import Mathlib

/-!
# Computing by places

The solver keeps roots, residuals and matrices in vectors whose length is known, and its
indices cannot lie outside of them. Here computations run on lists of any length. A list is
read and written by place, and a place that it does not have ends the computation. That this
never happens is what is to be shown, so loops are brought back to loops over the indices of
a vector.
-/

namespace RootTrace

universe u v

/-- Why a computation by places ends without a result. -/
inductive Stop (α : Type u) where
  /-- A place was asked for that is not there. -/
  | outOfRange
  /-- The computation failed. -/
  | failed (failure : Failure α)
  deriving DecidableEq

/-- Add an outermost circumstance to a failure. -/
def Stop.within {α : Type u} (context : Context α) : Stop α → Stop α
  | .outOfRange => .outOfRange
  | .failed failure => .failed (failure.within context)

namespace Places

variable {α : Type u} {K : Type v} {n : Nat}

/-! ## Reading and writing -/

/-- The value at a place. -/
def readAt (values : List K) (place : Nat) : Except (Stop α) K :=
  match values[place]? with
  | some value => .ok value
  | none => .error .outOfRange

/-- Put a value at a place. -/
def writeAt (values : List K) (place : Nat) (value : K) : Except (Stop α) (List K) :=
  if place < values.length then
    .ok (values.set place value)
  else
    .error .outOfRange

theorem readAt_of_getElem?
    {values : List K}
    {place : Nat}
    {value : K}
    (found : values[place]? = some value) :
    (readAt values place : Except (Stop α) K) = .ok value := by
  rw [readAt, found]

theorem readAt_toList (values : Vector K n) (i : Fin n) :
    (readAt values.toList i : Except (Stop α) K) = .ok (values.get i) := by
  apply readAt_of_getElem?
  rw [List.getElem?_eq_getElem (by simp), Vector.getElem_toList]
  rfl

theorem writeAt_of_lt
    {values : List K}
    {place : Nat}
    (inside : place < values.length)
    (value : K) :
    (writeAt values place value : Except (Stop α) (List K)) =
      .ok (values.set place value) :=
  if_pos inside

/-! ## Tables -/

/-- Values in rows and columns. -/
structure Table (K : Type v) where
  /-- Number of rows. -/
  rows : Nat
  /-- Number of columns. -/
  cols : Nat
  /-- The values, row by row. -/
  entries : List (List K)

namespace Table

/-- The table of a matrix. -/
def ofRows {rows cols : Nat} (a : RowMatrix K rows cols) : Table K :=
  ⟨rows, cols, a.toList.map Vector.toList⟩

/-- The value at a place of a row. -/
def readAt (table : Table K) (row col : Nat) : Except (Stop α) K := do
  let values ← Places.readAt table.entries row
  Places.readAt values col

/-- Put a value at a place of a row. -/
def writeAt (table : Table K) (row col : Nat) (value : K) : Except (Stop α) (Table K) := do
  let values ← Places.readAt table.entries row
  let values ← Places.writeAt values col value
  let entries ← Places.writeAt table.entries row values
  pure { table with entries }

theorem readAt_entries_ofRows
    {rows cols : Nat}
    (a : RowMatrix K rows cols)
    (i : Fin rows) :
    (Places.readAt (ofRows a).entries i : Except (Stop α) (List K)) =
      .ok (a.get i).toList := by
  rw [ofRows, ← Vector.toList_map, readAt_toList, Vector.get_map]

theorem readAt_ofRows
    {rows cols : Nat}
    (a : RowMatrix K rows cols)
    (i : Fin rows)
    (j : Fin cols) :
    ((ofRows a).readAt i j : Except (Stop α) K) = .ok (a.entry i j) := by
  rw [readAt, readAt_entries_ofRows]
  exact readAt_toList (a.get i) j

end Table

/-! ## Loops -/

theorem range_eq_map_finRange (n : Nat) :
    List.range n = (List.finRange n).map Fin.val := by
  rw [List.map_coe_finRange_eq_range]

theorem zipIdx_toList (values : Vector K n) :
    values.toList.zipIdx = (List.finRange n).map fun i => (values.get i, i.val) := by
  refine List.ext_getElem (by simp) ?_
  intro place insideLeft insideRight
  simp [Vector.get_eq_getElem]

/-- A loop that succeeds at every item is a loop that cannot fail. -/
theorem foldlM_eq_ok
    {σ : Type*} {ι : Type*}
    {step : σ → ι → Except (Stop α) σ}
    (next : σ → ι → σ)
    {items : List ι}
    (succeeds : ∀ state, ∀ item ∈ items, step state item = .ok (next state item))
    (start : σ) :
    items.foldlM step start = .ok (items.foldl next start) := by
  induction items generalizing start with
  | nil => rfl
  | cons item items inductionHypothesis =>
      rw [List.foldlM_cons, succeeds start item List.mem_cons_self]
      apply inductionHypothesis
      intro state other member
      exact succeeds state other (List.mem_cons_of_mem item member)

/-- What every step of a counted loop keeps, the loop keeps. -/
theorem foldlM_range_keeps
    {σ : Type*}
    {step : σ → Nat → Except (Stop α) σ}
    (holds : Nat → σ → Prop)
    {start : σ}
    {count : Nat}
    (begins : holds 0 start)
    (keeps : ∀ place < count, ∀ state, holds place state →
      ∃ next, step state place = .ok next ∧ holds (place + 1) next) :
    ∃ reached, (List.range count).foldlM step start = .ok reached ∧ holds count reached := by
  induction count with
  | zero => exact ⟨start, rfl, begins⟩
  | succ count inductionHypothesis =>
      obtain ⟨before, ran, held⟩ := inductionHypothesis fun place inside =>
        keeps place (Nat.lt_succ_of_lt inside)
      obtain ⟨next, stepped, holdsNext⟩ := keeps count (Nat.lt_succ_self count) before held
      refine ⟨next, ?_, holdsNext⟩
      rw [List.range_succ, List.foldlM_append, ran]
      change ([count].foldlM step before) = _
      rw [List.foldlM_cons, stepped]
      rfl

/-- Writing one more value behind the front of a buffer makes the front longer. -/
theorem set_append_drop
    {values buffer : List K}
    {place : Nat}
    (inside : place < values.length)
    (long : values.length ≤ buffer.length) :
    (values.take place ++ buffer.drop place).set place values[place] =
      values.take (place + 1) ++ buffer.drop (place + 1) := by
  have front : (values.take place).length = place := List.length_take_of_le inside.le
  have behind : place < buffer.length := inside.trans_le long
  rw [List.set_append_right place _ front.le, front, Nat.sub_self,
    List.drop_eq_getElem_cons behind, List.set_cons_zero,
    ← List.take_concat_get' values place inside, List.append_assoc]
  rfl

/-- A loop that writes every value it computes overwrites the front of the buffer. Behind any
number of steps, that many values stand in front of what was there before. -/
theorem foldlM_writeAt_eq_ok
    {compute : Nat → Except (Stop α) K}
    {values : Vector K n}
    (computes : ∀ i : Fin n, compute i = .ok (values.get i))
    {buffer written : List K}
    (overwritten : overwrite? values.toList buffer = some written) :
    (List.range n).foldlM
        (fun buffer place => do
          let value ← compute place
          writeAt buffer place value)
        buffer =
      .ok written := by
  have length : values.toList.length = n := Vector.length_toList
  have long : n ≤ buffer.length := by
    by_contra short
    rw [overwrite?, length, if_neg short] at overwritten
    cases overwritten
  rw [overwrite?, length, if_pos long] at overwritten
  obtain rfl := Option.some.inj overwritten
  have keeps : ∀ place < n, ∀ state,
      state = values.toList.take place ++ buffer.drop place →
      ∃ next,
        (do
          let value ← compute place
          writeAt state place value) = .ok next ∧
        next = values.toList.take (place + 1) ++ buffer.drop (place + 1) := by
    rintro place inside _ rfl
    have insideValues : place < values.toList.length := by
      rwa [length]
    refine ⟨_, ?_, set_append_drop insideValues (by rwa [length])⟩
    rw [computes ⟨place, inside⟩]
    apply writeAt_of_lt
    rw [List.length_append, List.length_take_of_le insideValues.le, List.length_drop]
    omega
  have begins : buffer = values.toList.take 0 ++ buffer.drop 0 := rfl
  obtain ⟨reached, ran, whole⟩ := foldlM_range_keeps
    (fun place state => state = values.toList.take place ++ buffer.drop place) begins keeps
  rw [ran, whole, List.take_of_length_le length.le]

/-- A loop that writes more values than the buffer has places fails at the first one behind. -/
theorem foldlM_writeAt_eq_outOfRange
    {compute : Nat → Except (Stop α) K}
    {values : Vector K n}
    (computes : ∀ i : Fin n, compute i = .ok (values.get i))
    {buffer : List K}
    (short : buffer.length < n) :
    (List.range n).foldlM
        (fun buffer place => do
          let value ← compute place
          writeAt buffer place value)
        buffer =
      .error .outOfRange := by
  have keeps : ∀ place < buffer.length, ∀ state : List K, state.length = buffer.length →
      ∃ next,
        (do
          let value ← compute place
          writeAt state place value) = .ok next ∧
        next.length = buffer.length := by
    intro place inside state length
    refine ⟨state.set place (values.get ⟨place, inside.trans short⟩), ?_, by simpa using length⟩
    rw [computes ⟨place, inside.trans short⟩]
    exact writeAt_of_lt (by rwa [length]) _
  obtain ⟨full, ran, length⟩ := foldlM_range_keeps
    (fun _ (state : List K) => state.length = buffer.length) rfl keeps
  obtain ⟨behind, rfl⟩ := Nat.exists_eq_add_of_lt short
  have stops : (do
      let value ← compute buffer.length
      writeAt full buffer.length value) = .error .outOfRange := by
    rw [computes ⟨buffer.length, short⟩]
    exact if_neg (by omega)
  rw [Nat.add_assoc, List.range_add, List.foldlM_append, ran, List.range_succ_eq_map,
    List.map_cons]
  change List.foldlM _ full _ = _
  rw [List.foldlM_cons, Nat.add_zero, stops]
  rfl

/-- What can be read at every place is a vector. -/
theorem mapM_range_eq_ok
    {read : Nat → Except (Stop α) K}
    {values : Vector K n}
    (reads : ∀ i : Fin n, read i = .ok (values.get i)) :
    (List.range n).mapM read = .ok values.toList := by
  have everywhere : (fun i : Fin n => read i) =
      fun i => (pure (values.get i) : Except (Stop α) K) := by
    funext i
    exact reads i
  rw [range_eq_map_finRange, List.mapM_map, Function.comp_def, everywhere, List.mapM_pure,
    Track.map_get_finRange]
  rfl

/-- A table of some rows and columns, filled place by place. -/
def Table.fill (rows cols : Nat) (value : Nat → Nat → Except (Stop α) K) :
    Except (Stop α) (Table K) := do
  let entries ← (List.range rows).mapM fun row => (List.range cols).mapM (value row)
  pure ⟨rows, cols, entries⟩

/-- A table whose every entry can be computed is filled with these entries. -/
theorem Table.fill_eq_ok
    {rows cols : Nat}
    {value : Nat → Nat → Except (Stop α) K}
    {a : RowMatrix K rows cols}
    (fills : ∀ (i : Fin rows) (j : Fin cols), value i j = .ok (a.entry i j)) :
    fill rows cols value = .ok (ofRows a) := by
  have row : ∀ i : Fin rows, (List.range cols).mapM (value i) =
      .ok ((a.map Vector.toList).get i) := by
    intro i
    rw [mapM_range_eq_ok (fills i), Vector.get_map]
  rw [fill, mapM_range_eq_ok row, Vector.toList_map]
  rfl

end Places
end RootTrace
