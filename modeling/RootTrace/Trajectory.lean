import RootTrace.Corrector

/-!
# Roots along a path

A track holds the vectors of roots that were found at the points of a path, one
vector per point. A trajectory holds the same roots the other way round, one
list per root, and is the form in which they are handed out and stored. A stored
trajectory may be ragged: its length is that of its first component, and a step
that another component lacks cannot be read.
-/

namespace RootTrace

universe u

/-- Values of every root along a path. -/
structure Trajectory (α : Type u) where
  /-- One list per root, with one value per step. -/
  components : List (List (Complex α))
  /-- Steps at which the iterations were used up. -/
  unconvergedSteps : List Nat
  deriving DecidableEq

/-- A step within the first component that another component lacks. -/
structure Ragged where
  /-- The step. -/
  step : Nat
  deriving DecidableEq

namespace Trajectory

variable {α : Type u}

/-- Number of roots. -/
def dimension (trajectory : Trajectory α) : Nat :=
  trajectory.components.length

/-- Number of steps, that of the first component. -/
def length (trajectory : Trajectory α) : Nat :=
  match trajectory.components with
  | [] => 0
  | first :: _ => first.length

/-- Whether there are no steps. -/
def isEmpty (trajectory : Trajectory α) : Bool :=
  trajectory.length == 0

/-- Whether every step converged. -/
def converged (trajectory : Trajectory α) : Bool :=
  trajectory.unconvergedSteps.isEmpty

/-- Values of one root. -/
def component? (trajectory : Trajectory α) (index : Nat) : Option (List (Complex α)) :=
  trajectory.components[index]?

/-- Value of one component at a step that the first component has. -/
def valueAt (step : Nat) (component : List (Complex α)) : Except Ragged (Complex α) :=
  match component[step]? with
  | some root => .ok root
  | none => .error ⟨step⟩

/-- Roots at one step. There are none from the length on, and a step that a
component lacks cannot be read. -/
def rootsAt (trajectory : Trajectory α) (step : Nat) :
    Except Ragged (Option (List (Complex α))) :=
  if trajectory.length ≤ step then
    .ok none
  else
    (trajectory.components.mapM (valueAt step)).map some

/-- Roots at the first step. -/
def start (trajectory : Trajectory α) : Except Ragged (Option (List (Complex α))) :=
  trajectory.rootsAt 0

/-- Roots at the last step, from which a following path can be continued. -/
def finish (trajectory : Trajectory α) : Except Ragged (Option (List (Complex α))) :=
  match trajectory.length with
  | 0 => .ok none
  | last + 1 => trajectory.rootsAt last

end Trajectory

/-- Vectors of roots along a path. -/
structure Track (α : Type u) (n : Nat) where
  /-- One vector of roots per step. -/
  steps : List (Vector (Complex α) n)
  /-- Steps at which the iterations were used up. -/
  unconverged : List Nat
  deriving DecidableEq

namespace Track

variable {α : Type u} {n : Nat}

/-- A track without steps. -/
def empty : Track α n :=
  ⟨[], []⟩

/-- Number of steps. -/
def length (track : Track α n) : Nat :=
  track.steps.length

/-- Roots at the last step, or the seed if there are no steps. -/
def latest (track : Track α n) (seed : Vector (Complex α) n) : Vector (Complex α) n :=
  track.steps.getLast?.getD seed

/-- Append a correction as the next step. -/
def record (track : Track α n) (correction : Correction α n) : Track α n where
  steps := track.steps ++ [correction.roots]
  unconverged :=
    if correction.converged then track.unconverged
    else track.unconverged ++ [track.length]

/-- Roots at the first step. -/
def start? (track : Track α n) : Option (List (Complex α)) :=
  track.steps.head?.map Vector.toList

/-- Roots at the last step. -/
def finish? (track : Track α n) : Option (List (Complex α)) :=
  track.steps.getLast?.map Vector.toList

/-- The same roots, one list per root. -/
def trajectory (track : Track α n) : Trajectory α where
  components := (List.finRange n).map fun (k : Fin n) => track.steps.map fun roots => roots.get k
  unconvergedSteps := track.unconverged

end Track
end RootTrace
