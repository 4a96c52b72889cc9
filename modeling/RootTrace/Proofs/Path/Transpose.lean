import RootTrace.Proofs.Path.Reading

/-!
# Reading a track back from its trajectory

A trajectory that was made from a track is never ragged. Every step of the track
can be read back from it, and so can the first and the last step, as long as there
are roots at all. Without roots a trajectory has forgotten how many steps there were.
-/

namespace RootTrace
namespace Track

universe u

variable {α : Type u} {n : Nat}

theorem map_get_finRange {β : Type*} (values : Vector β n) :
    (List.finRange n).map values.get = values.toList := by
  refine List.ext_getElem ?_ ?_
  · simp
  · intro index insideLeft insideRight
    simp [Vector.get_eq_getElem]

@[simp] theorem dimension_trajectory (track : Track α n) :
    track.trajectory.dimension = n := by
  simp [Trajectory.dimension, trajectory]

theorem length_trajectory (track : Track α n) (nonempty : n ≠ 0) :
    track.trajectory.length = track.length := by
  obtain ⟨others, rfl⟩ := Nat.exists_eq_succ_of_ne_zero nonempty
  simp [Trajectory.length, trajectory, List.finRange_succ, length]

theorem component?_trajectory (track : Track α n) (k : Fin n) :
    track.trajectory.component? k = some (track.steps.map fun roots => roots.get k) := by
  rw [Trajectory.component?, trajectory, List.getElem?_map, List.getElem?_eq_getElem]
  all_goals simp

/-- At a step of the track every component has its value. -/
theorem mapM_valueAt_trajectory
    {track : Track α n}
    {step : Nat}
    {roots : Vector (Complex α) n}
    (atStep : track.steps[step]? = some roots) :
    track.trajectory.components.mapM (Trajectory.valueAt step) = .ok roots.toList := by
  rw [Trajectory.mapM_valueAt_eq_ok_iff, trajectory, ← map_get_finRange roots,
    List.forall₂_map_left_iff, List.forall₂_map_right_iff, List.forall₂_same]
  intro k _
  rw [List.getElem?_map, atStep]
  rfl

/-- All components have the steps of the track. -/
theorem firstShortest_trajectory (track : Track α n) : track.trajectory.FirstShortest := by
  intro component member
  obtain ⟨k, _, rfl⟩ := List.mem_map.mp member
  have nonempty : n ≠ 0 := k.pos.ne'
  rw [length_trajectory track nonempty, List.length_map, length]

/-- The roots at a step are read off the components as they were recorded. -/
theorem rootsAt_trajectory (track : Track α n) (nonempty : n ≠ 0) (step : Nat) :
    track.trajectory.rootsAt step = .ok (track.steps[step]?.map Vector.toList) := by
  rw [Trajectory.rootsAt, length_trajectory track nonempty]
  cases atStep : track.steps[step]? with
  | none =>
      have outside : track.length ≤ step := List.getElem?_eq_none_iff.mp atStep
      rw [if_pos outside]
      rfl
  | some roots =>
      have inside : step < track.length := (List.getElem?_eq_some_iff.mp atStep).1
      rw [if_neg (Nat.not_le.mpr inside), mapM_valueAt_trajectory atStep]
      rfl

theorem start_trajectory (track : Track α n) (nonempty : n ≠ 0) :
    track.trajectory.start = .ok track.start? := by
  rw [Trajectory.start, rootsAt_trajectory track nonempty, start?, List.head?_eq_getElem?]

theorem finish_trajectory (track : Track α n) (nonempty : n ≠ 0) :
    track.trajectory.finish = .ok track.finish? := by
  have last : track.steps.getLast? = track.steps[track.length - 1]? :=
    List.getLast?_eq_getElem?
  rw [Trajectory.finish, length_trajectory track nonempty, finish?, last]
  cases counted : track.length with
  | zero =>
      rw [List.length_eq_zero_iff.mp counted]
      rfl
  | succ before =>
      exact rootsAt_trajectory track nonempty before

end Track
end RootTrace
