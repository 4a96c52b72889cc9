import RootTrace.Elimination
import RootTrace.Proofs.LinearSystem.Embedding
import RootTrace.Proofs.Places.Loops

/-!
# The linear system by places

A complex table is embedded into a real one of twice its rows and columns, which starts out
with zeros and is written in four places for every complex entry. These places lie inside,
and together they are all places. A solver takes square tables and right sides of the same
length only, and what it hands out has an even length, so it can be read back in two halves.
-/

namespace RootTrace
namespace Places

universe u

variable {α : Type u} {n rows cols : Nat}

/-! ## Embedding -/

/-- A table of zeros. -/
def Table.zeros [Zero α] (rows cols : Nat) : Table α :=
  ⟨rows, cols, List.replicate rows (List.replicate cols 0)⟩

/-- Write one complex entry at its four places. -/
def writeEntry [Neg α] (table : Table (Complex α)) (row : Nat) (real : Table α) (col : Nat) :
    Except (Stop α) (Table α) := do
  let z ← table.readAt row col
  let real ← real.writeAt row col z.re
  let real ← real.writeAt row (table.cols + col) (-z.im)
  let real ← real.writeAt (table.rows + row) col z.im
  real.writeAt (table.rows + row) (table.cols + col) z.re

/-- The real table of a complex table. -/
def embedTable [Zero α] [Neg α] (table : Table (Complex α)) : Except (Stop α) (Table α) :=
  (List.range table.rows).foldlM
    (fun real row => (List.range table.cols).foldlM (writeEntry table row) real)
    (Table.zeros (2 * table.rows) (2 * table.cols))

/-- Real parts, then imaginary parts. -/
def embedList (values : List (Complex α)) : Except (Stop α) (List α) :=
  (List.range (2 * values.length)).mapM fun place =>
    if place < values.length then do
      let z ← readAt values place
      pure z.re
    else do
      let z ← readAt values (place - values.length)
      pure z.im

/-- Pair the entries of the first half with those of the second. -/
def unembedList (values : List α) : Except (Stop α) (List (Complex α)) :=
  if values.length % 2 ≠ 0 then
    .error (.failed (.ofFault (.oddLength values.length)))
  else
    (List.range (values.length / 2)).mapM fun place => do
      let re ← readAt values place
      let im ← readAt values (values.length / 2 + place)
      pure ⟨re, im⟩

/-! ## Writing into a table -/

/-- The matrix with another value at a place. -/
def put (c : RowMatrix α rows cols) (i : Fin rows) (j : Fin cols) (value : α) :
    RowMatrix α rows cols :=
  c.set i ((c.get i).set j value j.isLt) i.isLt

theorem get_set
    {K : Type u}
    (values : Vector K n)
    (i j : Fin n)
    (value : K) :
    (values.set i value i.isLt).get j = if j = i then value else values.get j := by
  rw [Vector.get_eq_getElem, Vector.getElem_set]
  by_cases same : j = i
  · rw [if_pos (congrArg Fin.val same.symm), if_pos same]
  · rw [if_neg (Fin.val_ne_of_ne fun other => same other.symm), if_neg same]
    rfl

theorem entry_put
    (c : RowMatrix α rows cols)
    (i i' : Fin rows)
    (j j' : Fin cols)
    (value : α) :
    (put c i j value).entry i' j' = if i' = i ∧ j' = j then value else c.entry i' j' := by
  rw [RowMatrix.entry, put, get_set]
  by_cases sameRow : i' = i
  · rw [if_pos sameRow, get_set, sameRow]
    simp [RowMatrix.entry]
  · simp [sameRow, RowMatrix.entry]

theorem Table.writeAt_ofRows
    (c : RowMatrix α rows cols)
    (i : Fin rows)
    (j : Fin cols)
    (value : α) :
    ((Table.ofRows c).writeAt i j value : Except (Stop α) (Table α)) =
      .ok (.ofRows (put c i j value)) := by
  rw [Table.writeAt, Table.readAt_entries_ofRows]
  change (Places.writeAt (c.get i).toList j value >>= _) = _
  rw [writeAt_of_lt (by simp)]
  change (Places.writeAt (Table.ofRows c).entries i _ >>= _) = _
  rw [writeAt_of_lt (by simp [Table.ofRows])]
  simp [Table.ofRows, put, pure, Except.pure, bind, Except.bind, List.map_set, Vector.toList_set]

/-- A table that holds the entries of a matrix wherever it has been written. -/
def Holds (b : RowMatrix α rows cols) (written : Fin rows → Fin cols → Prop)
    (table : Table α) : Prop :=
  ∃ c : RowMatrix α rows cols, table = .ofRows c ∧
    ∀ i j, written i j → c.entry i j = b.entry i j

variable {b : RowMatrix α rows cols} {written : Fin rows → Fin cols → Prop} {table : Table α}

/-- Writing an entry where it belongs makes its place one of those that are written. -/
theorem Holds.writeAt
    (holds : Holds b written table)
    {i : Fin rows}
    {j : Fin cols}
    {value : α}
    (belongs : value = b.entry i j) :
    ∃ next, table.writeAt i j value = (.ok next : Except (Stop α) (Table α)) ∧
      Holds b (fun i' j' => written i' j' ∨ i' = i ∧ j' = j) next := by
  obtain ⟨c, rfl, agrees⟩ := holds
  refine ⟨_, Table.writeAt_ofRows c i j value, _, rfl, ?_⟩
  intro i' j' before
  rw [entry_put]
  by_cases here : i' = i ∧ j' = j
  · rw [if_pos here, belongs, here.1, here.2]
  · rw [if_neg here]
    exact agrees i' j' (before.resolve_right here)

theorem Holds.mono
    (holds : Holds b written table)
    {fewer : Fin rows → Fin cols → Prop}
    (subset : ∀ i j, fewer i j → written i j) :
    Holds b fewer table := by
  obtain ⟨c, rfl, agrees⟩ := holds
  exact ⟨c, rfl, fun i j chosen => agrees i j (subset i j chosen)⟩

theorem Holds.eq_ofRows (holds : Holds b written table) (whole : ∀ i j, written i j) :
    table = .ofRows b := by
  obtain ⟨c, rfl, agrees⟩ := holds
  congr 1
  exact RowMatrix.eq_of_entry_eq fun i j => agrees i j (whole i j)

/-! ## All blocks -/

theorem zeros_eq_ofRows [Zero α] (rows cols : Nat) :
    (Table.zeros rows cols : Table α) =
      .ofRows (Vector.replicate rows (Vector.replicate cols 0)) := by
  rw [Table.zeros, Table.ofRows, Vector.toList_replicate, List.map_replicate,
    Vector.toList_replicate]

/-- The index in its own half. -/
def ownIndex (n : Nat) (i : Fin (n + n)) : Nat :=
  if i.val < n then i else i - n

theorem ownIndex_lt (i : Fin (n + n)) : ownIndex n i < n := by
  rw [ownIndex]
  split
  · assumption
  · omega

/-- A place with the index of an entry in its half is the one of this entry in the first half or
in the second. -/
theorem eq_of_ownIndex_eq {i : Fin (n + n)} {k : Fin n} (own : ownIndex n i = k) :
    i = k.castAdd n ∨ i = k.natAdd n := by
  rw [ownIndex] at own
  split at own
  · exact .inl (Fin.ext own)
  · right
    apply Fin.ext
    change i.val = n + k.val
    omega

/-- The places of the first rows, and of the first columns of the next one, in all blocks. -/
def WrittenUpTo (row col : Nat) (i : Fin (rows + rows)) (j : Fin (cols + cols)) : Prop :=
  ownIndex rows i < row ∨ ownIndex rows i = row ∧ ownIndex cols j < col

section Blocks

variable [Neg α] (a : RowMatrix (Complex α) rows cols)

/-- Writing one entry of the embedding keeps what is written. A place that is new has the indices
of the entry in its halves, so it is one of the four that are written. -/
theorem exists_writeEntry
    (row : Fin rows)
    (col : Fin cols)
    {real : Table α}
    (holds : Holds (Embedding.embedMatrix a) (WrittenUpTo row col) real) :
    ∃ next, writeEntry (.ofRows a) row real col = (.ok next : Except (Stop α) (Table α)) ∧
      Holds (Embedding.embedMatrix a) (WrittenUpTo row (col + 1)) next := by
  obtain ⟨first, wroteFirst, holdsFirst⟩ :=
    holds.writeAt (Embedding.entry_embedMatrix_left_left a row col).symm
  obtain ⟨second, wroteSecond, holdsSecond⟩ :=
    holdsFirst.writeAt (Embedding.entry_embedMatrix_left_right a row col).symm
  obtain ⟨third, wroteThird, holdsThird⟩ :=
    holdsSecond.writeAt (Embedding.entry_embedMatrix_right_left a row col).symm
  obtain ⟨fourth, wroteFourth, holdsFourth⟩ :=
    holdsThird.writeAt (Embedding.entry_embedMatrix_right_right a row col).symm
  refine ⟨fourth, ?_, holdsFourth.mono ?_⟩
  · rw [writeEntry, Table.readAt_ofRows]
    change (real.writeAt (row.castAdd rows) (col.castAdd cols) _ >>= _) = _
    rw [wroteFirst]
    change (first.writeAt (row.castAdd rows) (col.natAdd cols) _ >>= _) = _
    rw [wroteSecond]
    change (second.writeAt (row.natAdd rows) (col.castAdd cols) _ >>= _) = _
    rw [wroteThird]
    exact wroteFourth
  · rintro i j (above | ⟨sameRow, before⟩)
    · exact .inl (.inl (.inl (.inl (.inl above))))
    · rcases Nat.lt_succ_iff_lt_or_eq.mp before with left | sameCol
      · exact .inl (.inl (.inl (.inl (.inr ⟨sameRow, left⟩))))
      · rcases eq_of_ownIndex_eq sameRow with rfl | rfl <;>
          rcases eq_of_ownIndex_eq sameCol with rfl | rfl
        · exact .inl (.inl (.inl (.inr ⟨rfl, rfl⟩)))
        · exact .inl (.inl (.inr ⟨rfl, rfl⟩))
        · exact .inl (.inr ⟨rfl, rfl⟩)
        · exact .inr ⟨rfl, rfl⟩

/-- One row of the loop writes that row in both halves. -/
theorem exists_writeRow
    (row : Fin rows)
    {real : Table α}
    (holds : Holds (Embedding.embedMatrix a) (WrittenUpTo row 0) real) :
    ∃ next, (List.range cols).foldlM (writeEntry (.ofRows a) row) real =
        (.ok next : Except (Stop α) (Table α)) ∧
      Holds (Embedding.embedMatrix a) (WrittenUpTo (row + 1) 0) next := by
  obtain ⟨next, ran, written⟩ := foldlM_range_keeps
    (fun col => Holds (Embedding.embedMatrix a) (WrittenUpTo row col)) holds
    fun col inside real holds => exists_writeEntry a row ⟨col, inside⟩ holds
  refine ⟨next, ran, written.mono ?_⟩
  rintro i j (above | ⟨_, impossible⟩)
  · rcases Nat.lt_succ_iff_lt_or_eq.mp above with above | sameRow
    · exact .inl above
    · exact .inr ⟨sameRow, ownIndex_lt j⟩
  · cases impossible

variable [Zero α]

/-- The loops that write the embedding entry by entry write the embedded matrix. -/
theorem embedTable_eq_ok :
    (embedTable (.ofRows a) : Except (Stop α) (Table α)) =
      .ok (.ofRows (Embedding.embedMatrix a)) := by
  have blank : Holds (Embedding.embedMatrix a) (WrittenUpTo 0 0)
      (Table.zeros (rows + rows) (cols + cols)) := by
    refine ⟨_, zeros_eq_ofRows _ _, ?_⟩
    rintro i j (impossible | ⟨_, impossible⟩)
    · cases impossible
    · cases impossible
  have keeps : ∀ row < rows, ∀ real,
      Holds (Embedding.embedMatrix a) (WrittenUpTo row 0) real →
      ∃ next, (List.range cols).foldlM (writeEntry (.ofRows a) row) real =
          (.ok next : Except (Stop α) (Table α)) ∧
        Holds (Embedding.embedMatrix a) (WrittenUpTo (row + 1) 0) next :=
    fun row inside _ holds => exists_writeRow a ⟨row, inside⟩ holds
  obtain ⟨real, ran, holds⟩ := foldlM_range_keeps
    (fun row => Holds (Embedding.embedMatrix a) (WrittenUpTo row 0)) blank keeps
  rw [embedTable]
  change (List.range rows).foldlM _ (Table.zeros (2 * rows) (2 * cols)) = _
  rw [Nat.two_mul, Nat.two_mul]
  exact ran.trans (congrArg Except.ok
    (holds.eq_ofRows fun i _ => .inl (ownIndex_lt i)))

end Blocks

/-! ## Vectors -/

theorem embedList_eq_ok (v : Vector (Complex α) n) :
    (embedList v.toList : Except (Stop α) (List α)) =
      .ok (Embedding.embedVector v).toList := by
  rw [embedList, Vector.length_toList, Nat.two_mul]
  apply mapM_range_eq_ok
  intro i
  cases i using Fin.addCases with
  | left i =>
      rw [Embedding.get_embedVector_castAdd, Fin.val_castAdd, if_pos i.isLt, readAt_toList]
      rfl
  | right i =>
      rw [Embedding.get_embedVector_natAdd, Fin.val_natAdd, if_neg (by omega),
        Nat.add_sub_cancel_left, readAt_toList]
      rfl

/-- A vector of two halves has no odd length, and both entries of every pair are there. -/
theorem unembedList_eq_ok (w : Vector α (n + n)) :
    unembedList w.toList = .ok (Embedding.unembedVector w).toList := by
  have half : (n + n) / 2 = n := by
    omega
  rw [unembedList, Vector.length_toList, if_neg (by omega), half]
  apply mapM_range_eq_ok
  intro i
  have re := readAt_toList (α := α) w (i.castAdd n)
  have im := readAt_toList (α := α) w (i.natAdd n)
  rw [Fin.val_castAdd] at re
  rw [Fin.val_natAdd] at im
  rw [re]
  change (readAt w.toList (n + i) >>= _) = _
  rw [im, Embedding.unembedVector, Vector.get_ofFn]
  rfl

/-! ## Solving -/

/-- A list of a given length as a vector. -/
def vectorOf? {K : Type u} (n : Nat) (values : List K) : Option (Vector K n) :=
  if fits : values.length = n then
    some ⟨values.toArray, List.size_toArray.trans fits⟩
  else
    none

/-- A table with equally many rows and columns of a given number as a matrix. -/
def matrixOf? {K : Type u} (n : Nat) (table : Table K) : Option (RowMatrix K n n) :=
  (table.entries.mapM (vectorOf? n)).bind (vectorOf? n)

/-- Solve a system if it has a unique solution. The table has to be square, and the right
side as long. -/
def solveTable [Zero α] [One α] [Add α] [Mul α] [Neg α] [Div α] [BEq α] [LT α] [DecidableLT α]
    [Magnitude α]
    (table : Table α) (right : List α) : Except (Stop α) (Option (List α)) :=
  match matrixOf? table.rows table, vectorOf? table.rows right with
  | some a, some b => .ok ((Elimination.solve? a b).map Vector.toList)
  | _, _ => .error .outOfRange

theorem vectorOf?_toList {K : Type u} (v : Vector K n) : vectorOf? n v.toList = some v := by
  rw [vectorOf?, dif_pos Vector.length_toList]
  rfl

theorem matrixOf?_ofRows {K : Type u} (a : RowMatrix K n n) :
    matrixOf? n (.ofRows a) = some a := by
  have rows : (Table.ofRows a).entries.mapM (vectorOf? n) = some a.toList := by
    rw [Table.ofRows, List.mapM_map]
    have everywhere : (vectorOf? n ∘ Vector.toList : Vector K n → Option (Vector K n)) = pure := by
      funext v
      exact vectorOf?_toList v
    rw [everywhere, List.mapM_pure, List.map_id']
    rfl
  rw [matrixOf?, rows]
  exact vectorOf?_toList a

theorem solveTable_eq_ok
    [Zero α] [One α] [Add α] [Mul α] [Neg α] [Div α] [BEq α] [LT α] [DecidableLT α]
    [Magnitude α]
    (a : RowMatrix α n n)
    (b : Vector α n) :
    solveTable (.ofRows a) b.toList = .ok ((Elimination.solve? a b).map Vector.toList) := by
  have square : matrixOf? (Table.ofRows a).rows (.ofRows a) = some a := matrixOf?_ofRows a
  have right : vectorOf? (Table.ofRows a).rows b.toList = some b := vectorOf?_toList b
  rw [solveTable, square, right]
  rfl

end Places
end RootTrace
