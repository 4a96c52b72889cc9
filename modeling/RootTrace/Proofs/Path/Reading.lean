import RootTrace.Trajectory
import Mathlib

/-!
# Reading the steps of a trajectory

The components of a stored trajectory may have any lengths. Whether there is a step is
decided by the first component alone, but its roots are taken from all of them. So reading a
step comes out in one of three ways: the first component has ended, another one lacks the
step, or all of them have it. The lengths decide which. Nothing is ever lacking exactly if no
component is shorter than the first, and reading the last step already tells.
-/

namespace RootTrace
namespace Trajectory

universe u

variable {α : Type u} {trajectory : Trajectory α} {step : Nat} {missing : Ragged}

/-! ## Lengths of components -/

/-- Some component has ended before a step. -/
def Lacks (trajectory : Trajectory α) (step : Nat) : Prop :=
  ∃ component ∈ trajectory.components, component.length ≤ step

/-- No component is shorter than the first. -/
def FirstShortest (trajectory : Trajectory α) : Prop :=
  ∀ component ∈ trajectory.components, trajectory.length ≤ component.length

/-- A step that the first component has is lacked by no other. -/
theorem FirstShortest.not_lacks
    (shortest : trajectory.FirstShortest)
    (inside : step < trajectory.length) :
    ¬ trajectory.Lacks step := by
  rintro ⟨component, member, ended⟩
  have bound := shortest component member
  omega

/-- A component that is shorter than the first lacks the last step. -/
theorem firstShortest_of_not_lacks_last
    (present : trajectory.length ≠ 0 → ¬ trajectory.Lacks (trajectory.length - 1)) :
    trajectory.FirstShortest := by
  intro component member
  by_contra shorter
  refine present (by omega) ⟨component, member, ?_⟩
  omega

/-! ## One component after the other -/

section Components

variable {components : List (List (Complex α))} {component : List (Complex α)}
  {root : Complex α} {roots : List (Complex α)}

theorem valueAt_of_some (found : component[step]? = some root) :
    valueAt step component = .ok root := by
  rw [valueAt, found]

theorem valueAt_of_none (ended : component[step]? = none) :
    valueAt step component = .error ⟨step⟩ := by
  rw [valueAt, ended]

/-- Reading a step succeeds if every component has a value there, and returns these values. -/
theorem mapM_valueAt_eq_ok_iff :
    components.mapM (valueAt step) = .ok roots ↔
      List.Forall₂ (fun component root => component[step]? = some root) components roots := by
  induction components generalizing roots with
  | nil => simp [pure, Except.pure, eq_comm]
  | cons component components inductionHypothesis =>
      rw [List.mapM_cons, List.forall₂_cons_left_iff]
      cases atStep : component[step]? with
      | none =>
          rw [valueAt_of_none atStep]
          simp [bind, Except.bind]
      | some root =>
          rw [valueAt_of_some atStep]
          cases others : components.mapM (valueAt step) with
          | error missing => simp [bind, Except.bind, ← inductionHypothesis, others]
          | ok rest =>
              simp [bind, Except.bind, pure, Except.pure, ← inductionHypothesis, others]
              exact eq_comm

/-- Reading stops if some component has ended, and names the step. Which component stops it cannot
be told from the answer, so an ended one in front settles the matter, and otherwise the others
decide. -/
theorem mapM_valueAt_eq_error_iff :
    components.mapM (valueAt step) = .error missing ↔
      missing = ⟨step⟩ ∧ ∃ component ∈ components, component.length ≤ step := by
  induction components with
  | nil => simp [pure, Except.pure]
  | cons component components inductionHypothesis =>
      rw [List.mapM_cons, List.exists_mem_cons_iff, ← List.getElem?_eq_none_iff]
      cases atStep : component[step]? with
      | none =>
          rw [valueAt_of_none atStep]
          simp [bind, Except.bind, eq_comm]
      | some root =>
          rw [valueAt_of_some atStep]
          simp only [reduceCtorEq, false_or, ← inductionHypothesis]
          cases components.mapM (valueAt step) with
          | error other => simp [bind, Except.bind]
          | ok rest => simp [bind, Except.bind, pure, Except.pure]

end Components

/-! ## Steps -/

/-- For every component the value that it has at a step, in the order of the components. -/
structure ValuesAt (trajectory : Trajectory α) (step : Nat) (roots : List (Complex α)) :
    Prop where
  length : roots.length = trajectory.dimension
  value : ∀ k < trajectory.dimension, ∃ component root,
    trajectory.component? k = some component ∧ component[step]? = some root ∧
      roots[k]? = some root

/-- How reading a step comes out by the lengths of the components. -/
structure ReadsAt (trajectory : Trajectory α) (step : Nat)
    (reading : Except Ragged (Option (List (Complex α)))) : Prop where
  none_iff : reading = .ok none ↔ trajectory.length ≤ step
  error_iff : ∀ missing, reading = .error missing ↔
    missing = ⟨step⟩ ∧ step < trajectory.length ∧ trajectory.Lacks step
  roots : step < trajectory.length → ¬ trajectory.Lacks step →
    ∃ roots, reading = .ok (some roots) ∧ trajectory.ValuesAt step roots

/-- Every step can be read, and so can the first and the last. -/
structure Readable (trajectory : Trajectory α) : Prop where
  rootsAt : ∀ step, ∃ answer, trajectory.rootsAt step = .ok answer
  start : ∃ answer, trajectory.start = .ok answer
  finish : ∃ answer, trajectory.finish = .ok answer

theorem valuesAt_of_forall₂
    {roots : List (Complex α)}
    (values : List.Forall₂ (fun component root => component[step]? = some root)
      trajectory.components roots) :
    trajectory.ValuesAt step roots := by
  obtain ⟨length, value⟩ := List.forall₂_iff_get.mp values
  refine ⟨length.symm, ?_⟩
  intro k inside
  have insideRoots : k < roots.length := length ▸ inside
  exact ⟨_, _, List.getElem?_eq_getElem inside, value k inside insideRoots,
    List.getElem?_eq_getElem insideRoots⟩

/-- Roots are read at a step as the shapes of the components say. -/
theorem readsAt_rootsAt (trajectory : Trajectory α) (step : Nat) :
    trajectory.ReadsAt step (trajectory.rootsAt step) := by
  rw [rootsAt]
  by_cases outside : trajectory.length ≤ step
  · rw [if_pos outside]
    refine ⟨by simp [outside], ?_, ?_⟩
    · intro missing
      simp [outside]
    · intro inside
      omega
  · have inside : step < trajectory.length := Nat.lt_of_not_le outside
    rw [if_neg outside]
    cases read : trajectory.components.mapM (valueAt step) with
    | error missing =>
        obtain ⟨named, lacks⟩ := mapM_valueAt_eq_error_iff.mp read
        refine ⟨by simp [Except.map, outside], ?_, fun _ present => absurd lacks present⟩
        intro other
        have lacking : trajectory.Lacks step := lacks
        simp [Except.map, named, inside, lacking, eq_comm]
    | ok roots =>
        have present : ¬ trajectory.Lacks step := by
          intro lacks
          have stopped := mapM_valueAt_eq_error_iff.mpr ⟨rfl, lacks⟩
          cases read.symm.trans stopped
        refine ⟨by simp [Except.map, outside], ?_, ?_⟩
        · intro missing
          simp [Except.map, present]
        · intro _ _
          exact ⟨roots, rfl, valuesAt_of_forall₂ (mapM_valueAt_eq_ok_iff.mp read)⟩

namespace ReadsAt

variable {reading : Except Ragged (Option (List (Complex α)))}

/-- Reading a step comes to an answer, unless it is a step of the trajectory that some component
lacks. -/
theorem exists_eq_ok_iff (reads : trajectory.ReadsAt step reading) :
    (∃ answer, reading = .ok answer) ↔
      (step < trajectory.length → ¬ trajectory.Lacks step) := by
  constructor
  · rintro ⟨answer, rfl⟩ inside lacks
    cases (reads.error_iff ⟨step⟩).mpr ⟨rfl, inside, lacks⟩
  · intro present
    cases reading with
    | ok answer => exact ⟨answer, rfl⟩
    | error missing =>
        obtain ⟨_, inside, lacks⟩ := (reads.error_iff missing).mp rfl
        exact absurd lacks (present inside)

end ReadsAt

/-! ## The first and the last step -/

theorem readsAt_start (trajectory : Trajectory α) :
    trajectory.ReadsAt 0 trajectory.start :=
  trajectory.readsAt_rootsAt 0

theorem finish_eq_rootsAt (trajectory : Trajectory α) :
    trajectory.finish = trajectory.rootsAt (trajectory.length - 1) := by
  rw [finish]
  split
  next vacant => rw [rootsAt, vacant, if_pos (Nat.le_refl 0)]
  next last counted => rw [counted, Nat.succ_sub_one]

theorem readsAt_finish (trajectory : Trajectory α) :
    trajectory.ReadsAt (trajectory.length - 1) trajectory.finish := by
  rw [finish_eq_rootsAt]
  exact trajectory.readsAt_rootsAt _

theorem finish_eq_none_iff (trajectory : Trajectory α) :
    trajectory.finish = .ok none ↔ trajectory.length = 0 := by
  rw [trajectory.readsAt_finish.none_iff]
  omega

/-- If no component is shorter than the first, every step of the first can be read. -/
theorem FirstShortest.readable (shortest : trajectory.FirstShortest) :
    trajectory.Readable := by
  have everywhere : ∀ step, ∃ answer, trajectory.rootsAt step = .ok answer := by
    intro step
    exact (trajectory.readsAt_rootsAt step).exists_eq_ok_iff.mpr shortest.not_lacks
  refine ⟨everywhere, everywhere 0, ?_⟩
  rw [finish_eq_rootsAt]
  exact everywhere _

/-- If everything can be read, no component is shorter than the first: a shorter one would lack
the last step. -/
theorem Readable.firstShortest (readable : trajectory.Readable) :
    trajectory.FirstShortest := by
  have last := trajectory.readsAt_finish.exists_eq_ok_iff.mp readable.finish
  apply firstShortest_of_not_lacks_last
  intro counted
  exact last (by omega)

theorem readable_iff_firstShortest : trajectory.Readable ↔ trajectory.FirstShortest :=
  ⟨Readable.firstShortest, FirstShortest.readable⟩

end Trajectory
end RootTrace
