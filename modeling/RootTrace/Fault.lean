import RootTrace.Complex

/-!
# What can go wrong

A fault is the cause of a failed computation. It says what happened, not where:
the circumstances are kept beside it, outermost first, so that the same cause
can be recognised however deep it arose.
-/

namespace RootTrace

universe u

/-- Why constants or settings are turned down. -/
inductive Objection where
  /-- A constant is no finite number. -/
  | constantsNotFinite
  /-- The number of steps is zero. -/
  | noSteps
  /-- The tolerance is not positive. -/
  | toleranceNotPositive
  /-- The damping is not in the half-open interval from zero to one. -/
  | dampingOutOfRange
  /-- Any other reason, in the words of the one who objects. -/
  | other (reason : String)
  deriving DecidableEq

/-- The cause of a failed computation. -/
inductive Fault (α : Type u) where
  /-- There are no roots to start from. -/
  | emptySeed
  /-- The numbers of left and right constants differ. -/
  | lengthMismatch (left right : Nat)
  /-- Constants or settings are turned down. -/
  | invalid (objection : Objection)
  /-- The linear system of an iteration has no unique solution. -/
  | singular (iteration : Nat)
  /-- An iteration left the finite numbers. -/
  | nonFinite (iteration : Nat)
  /-- The iterations were used up before the last change became small. -/
  | notConverged (iterations : Nat) (change : α)
  /-- A real vector has no two halves. -/
  | oddLength (length : Nat)
  deriving DecidableEq

/-- A circumstance under which a fault arose. -/
inductive Context (α : Type u) where
  /-- While a linear system was solved for a correction. -/
  | linearSolve
  /-- At one point of a path. -/
  | pathStep (step : Nat) (q : Complex α)
  deriving DecidableEq

/-- A fault with the circumstances under which it arose, outermost first. -/
structure Failure (α : Type u) where
  /-- Circumstances, outermost first. -/
  contexts : List (Context α)
  /-- The cause. -/
  cause : Fault α
  deriving DecidableEq

namespace Failure

variable {α : Type u}

/-- A fault without circumstances. -/
def ofFault (cause : Fault α) : Failure α :=
  ⟨[], cause⟩

/-- Add an outermost circumstance. -/
def within (context : Context α) (failure : Failure α) : Failure α :=
  ⟨context :: failure.contexts, failure.cause⟩

@[simp] theorem ofFault_contexts (cause : Fault α) : (ofFault cause).contexts = [] := rfl

@[simp] theorem ofFault_cause (cause : Fault α) : (ofFault cause).cause = cause := rfl

@[simp] theorem within_contexts (context : Context α) (failure : Failure α) :
    (failure.within context).contexts = context :: failure.contexts := rfl

@[simp] theorem within_cause (context : Context α) (failure : Failure α) :
    (failure.within context).cause = failure.cause := rfl

end Failure
end RootTrace
