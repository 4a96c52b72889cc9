import RootTrace.Proofs.Finiteness.Scalars
import RootTrace.Proofs.LinearSystem.Embedding
import RootTrace.Proofs.LinearSystem.Substitution
import RootTrace.Proofs.Newton.Iteration

/-!
# A finite step comes from finite residuals

Elimination moves the entries of a right side about and takes multiples of other entries
away from them, but every entry goes into one of the answer. So an answer that
is finite comes from a finite right side, whatever the matrix was: a pivot that is
infinite or indeterminate cannot repair an entry. The damped step then takes a finite
multiple of the answer away from the roots, which vouches for them in the same way.
-/

namespace RootTrace

universe u v

/-! ## Loops that reflect a property -/

/-- What every step of a loop reflects, the whole loop reflects. -/
theorem foldl_reflects
    {β : Type u} {ι : Type v}
    (holds : β → Prop)
    {step : β → ι → β}
    (reflects : ∀ state item, holds (step state item) → holds state)
    {items : List ι}
    {start : β}
    (ended : holds (items.foldl step start)) :
    holds start := by
  induction items generalizing start with
  | nil => exact ended
  | cons item items inductionHypothesis =>
      exact reflects start item (inductionHypothesis ended)

/-- What every step of a loop reflects from its result to its start, the whole loop does. -/
theorem foldlM_reflects
    {β : Type u} {ι : Type v}
    (holds : β → Prop)
    {step : β → ι → Option β}
    (reflects : ∀ state item next, step state item = some next → holds next → holds state)
    {items : List ι}
    {start result : β}
    (ended : items.foldlM step start = some result)
    (held : holds result) :
    holds start := by
  induction items generalizing start with
  | nil =>
      cases ended
      exact held
  | cons item items inductionHypothesis =>
      rw [List.foldlM_cons] at ended
      obtain ⟨next, stepped, rest⟩ := Option.bind_eq_some_iff.mp ended
      exact reflects start item next stepped (inductionHypothesis rest)

/-! ## Right sides -/

namespace Elimination

variable {α : Type u} {n : Nat}

/-- A real vector without infinite or indeterminate entries. -/
def FiniteEntries [Magnitude α] (b : Vector α n) : Prop :=
  ∀ i, Magnitude.isFinite (b.get i) = true

theorem finiteEntries_of_swap
    [Magnitude α]
    {b : Vector α n}
    {first second : Fin n}
    (finite : FiniteEntries (b.swap first second first.isLt second.isLt)) :
    FiniteEntries b := by
  intro i
  have moved := finite (Equiv.swap first second i)
  rwa [get_swap, Equiv.swap_apply_self] at moved

theorem finiteEntries_of_exchangeRows
    [Magnitude α]
    {exchanges : List (Fin n × Fin n)}
    {b : Vector α n}
    (finite : FiniteEntries (exchangeRows exchanges b)) :
    FiniteEntries b :=
  foldl_reflects FiniteEntries (fun _ _ => finiteEntries_of_swap) finite

variable [Add α] [Sub α] [Mul α] [Neg α] [Div α] [Magnitude α] [ReflectsFinite α]
  {a : RowMatrix α n n} {b : Vector α n}

theorem finiteEntries_of_substituteBelow
    {i : Fin n}
    (finite : FiniteEntries (substituteBelow a b i)) :
    FiniteEntries b := by
  intro row
  have entry := finite row
  rw [get_substituteBelow] at entry
  by_cases below : i < row
  · rw [if_pos below] at entry
    exact (ReflectsFinite.ofAdd entry).2
  · rwa [if_neg below] at entry

theorem finiteEntries_of_forward (finite : FiniteEntries (forward a b)) :
    FiniteEntries b :=
  foldl_reflects FiniteEntries (fun _ _ => finiteEntries_of_substituteBelow) finite

variable [Zero α] [BEq α]

/-- Finite entries after a step of the backward substitution were finite before. The pivot may be
anything: only the dividend has to be finite. -/
theorem finiteEntries_of_substituteAbove?
    {i : Fin n}
    {next : Vector α n}
    (stepped : substituteAbove? a b i = some next)
    (finite : FiniteEntries next) :
    FiniteEntries b := by
  intro row
  have entry := finite row
  rw [get_of_substituteAbove? stepped] at entry
  by_cases above : row < i
  · rw [if_pos above] at entry
    exact (ReflectsFinite.ofAdd entry).2
  · rw [if_neg above] at entry
    by_cases solved : row = i
    · rw [if_pos solved] at entry
      rw [solved]
      exact ReflectsFinite.ofDiv entry
    · rwa [if_neg solved] at entry

theorem finiteEntries_of_backward?
    {solution : Vector α n}
    (solved : backward? a b = some solution)
    (finite : FiniteEntries solution) :
    FiniteEntries b :=
  foldlM_reflects FiniteEntries (fun _ _ _ => finiteEntries_of_substituteAbove?) solved finite

/-- A finite answer has a finite right side, whatever the matrix was. -/
theorem finiteEntries_of_solve?
    [One α] [LT α] [DecidableLT α]
    {solution : Vector α n}
    (solved : solve? a b = some solution)
    (finite : FiniteEntries solution) :
    FiniteEntries b := by
  have carried := finiteEntries_of_backward? solved finite
  exact finiteEntries_of_exchangeRows (finiteEntries_of_forward carried)

end Elimination

/-! ## Embedded vectors -/

namespace Embedding

open Elimination

variable {α : Type u} {n : Nat} [Magnitude α]

theorem finiteEntries_embedVector_iff {v : Vector (Complex α) n} :
    FiniteEntries (embedVector v) ↔ ∀ i, (v.get i).isFinite = true := by
  constructor
  · intro finite i
    apply Complex.isFinite_eq_true_iff.mpr
    rw [← get_embedVector_castAdd, ← get_embedVector_natAdd]
    exact ⟨finite _, finite _⟩
  · intro finite i
    cases i using Fin.addCases with
    | left i =>
        rw [get_embedVector_castAdd]
        exact (Complex.isFinite_eq_true_iff.mp (finite i)).1
    | right i =>
        rw [get_embedVector_natAdd]
        exact (Complex.isFinite_eq_true_iff.mp (finite i)).2

theorem finiteEntries_iff_unembedVector {w : Vector α (n + n)} :
    FiniteEntries w ↔ ∀ i, ((unembedVector w).get i).isFinite = true := by
  rw [← finiteEntries_embedVector_iff, FiniteEntries, FiniteEntries,
    embedVector_unembedVector]

end Embedding

/-! ## Steps -/

namespace Corrector

open Elimination RootTrace.Embedding

variable {α : Type u} {n : Nat}

/-- Roots and residuals that are finite numbers. -/
def FiniteAt [Magnitude α] (system : RootSystem α) (q : Complex α)
    (x : Vector (Complex α) n) : Prop :=
  Complex.allFinite x.toList = true ∧
    Complex.allFinite (system.residual x q).toList = true

variable [Zero α] [One α] [Add α] [Sub α] [Mul α] [Neg α] [Div α] [BEq α]
  [LT α] [DecidableLT α] [Magnitude α] [ReflectsFinite α]
  {system : RootSystem α} {damping : α} {q : Complex α}
  {x next : Vector (Complex α) n}

/-- A step comes to finite roots only if the roots before it and their residuals are finite. -/
theorem finiteAt_of_step?
    (stepped : step? system damping q x = some next)
    (finite : Complex.allFinite next.toList = true) :
    FiniteAt system q x := by
  obtain ⟨solution, solved, rfl⟩ := Option.map_eq_some_iff.mp stepped
  have entry : ∀ i, (x.get i - ((unembedVector solution).get i).scale damping).isFinite =
      true := by
    intro i
    have atEntry := Complex.allFinite_toList_iff.mp finite i
    rwa [Vector.get_eq_getElem, Vector.getElem_zipWith] at atEntry
  constructor
  · apply Complex.allFinite_toList_iff.mpr
    intro i
    exact (Complex.isFinite_of_sub (entry i)).1
  · have answer : FiniteEntries solution := by
      apply finiteEntries_iff_unembedVector.mpr
      intro i
      exact Complex.isFinite_of_scale (Complex.isFinite_of_sub (entry i)).2
    apply Complex.allFinite_toList_iff.mpr
    apply finiteEntries_embedVector_iff.mp
    exact finiteEntries_of_solve? solved answer

/-- Roots or residuals that are not finite stop the iteration that meets them. -/
theorem iterate_of_not_finiteAt
    (iteration : Nat)
    (notFinite : ¬ FiniteAt system q x) :
    (iterate system damping q iteration x).outcome =
        .error ⟨[.linearSolve], .singular iteration⟩ ∨
      (iterate system damping q iteration x).outcome =
        .error ⟨[], .nonFinite iteration⟩ := by
  cases stepped : step? system damping q x with
  | none =>
      left
      exact iterate_of_no_step iteration stepped
  | some next =>
      right
      apply iterate_of_not_finite iteration stepped
      intro finite
      exact notFinite (finiteAt_of_step? stepped finite)

end Corrector
end RootTrace
