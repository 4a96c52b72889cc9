import RootTrace.Fault

/-!
# Recorded computations

A run is a computation that may fail and that records what it did on the way.
The record is kept whether or not the run succeeds, so runs are put together by
appending their records and stopping at the first failure.
-/

namespace RootTrace

universe u v

/-- A noteworthy moment of a computation. -/
inductive Event (α : Type u) where
  /-- An iteration was carried out and changed the sum of moduli. -/
  | iteration (number : Nat) (change : α)
  /-- All iterations were carried out and the last change was not small. -/
  | exhausted (iterations : Nat) (change : α) (q : Complex α)
  /-- A path is about to be followed. -/
  | pathStarted (roots points : Nat)
  /-- A path was followed to its end. -/
  | pathFinished (unconverged : Nat)
  /-- A batch of seeds is about to be traced. -/
  | batchStarted (seeds points : Nat)
  /-- One seed of a batch failed. -/
  | seedFailed (name : String) (failure : Failure α)
  /-- All seeds of a batch were traced. -/
  | batchFinished (succeeded failed : Nat)
  deriving DecidableEq

/-- The record of a computation and what it came to. -/
structure Run (α : Type u) (β : Type v) where
  /-- What happened, oldest first. -/
  events : List (Event α)
  /-- The result, or why there is none. -/
  outcome : Except (Failure α) β

namespace Run

variable {α : Type u} {β γ : Type v}

/-- Succeed without a record. -/
def succeed (value : β) : Run α β :=
  ⟨[], .ok value⟩

/-- Fail without a record. -/
def fail (failure : Failure α) : Run α β :=
  ⟨[], .error failure⟩

/-- Record one event. -/
def emit (event : Event α) : Run α PUnit.{v + 1} :=
  ⟨[event], .ok ⟨⟩⟩

/-- Go on with the result of a run, and append the records. -/
def andThen (run : Run α β) (next : β → Run α γ) : Run α γ :=
  match run.outcome with
  | .error failure => ⟨run.events, .error failure⟩
  | .ok value => ⟨run.events ++ (next value).events, (next value).outcome⟩

instance : Monad (Run.{u, v} α) where
  pure := succeed
  bind := andThen

/-- A check that records nothing. -/
def ofCheck (check : Except (Fault α) β) : Run α β :=
  ⟨[], check.mapError Failure.ofFault⟩

/-- Add an outermost circumstance to the failure of a run. -/
def within (context : Context α) (run : Run α β) : Run α β :=
  ⟨run.events, run.outcome.mapError (Failure.within context)⟩

/-- Turn failing or succeeding into the result of a run that cannot fail. -/
def attempt (run : Run α β) : Run α (Except (Failure α) β) :=
  ⟨run.events, .ok run.outcome⟩

/-! ## Equations -/

@[simp] theorem events_pure (value : β) : (pure value : Run α β).events = [] := rfl

@[simp] theorem outcome_pure (value : β) : (pure value : Run α β).outcome = .ok value := rfl

@[simp] theorem events_fail (failure : Failure α) : (fail failure : Run α β).events = [] := rfl

@[simp] theorem outcome_fail (failure : Failure α) :
    (fail failure : Run α β).outcome = .error failure := rfl

@[simp] theorem events_emit (event : Event α) :
    (emit event : Run α PUnit.{v + 1}).events = [event] := rfl

@[simp] theorem outcome_emit (event : Event α) :
    (emit event : Run α PUnit.{v + 1}).outcome = .ok ⟨⟩ := rfl

theorem bind_of_error {run : Run α β} {failure : Failure α}
    (failed : run.outcome = .error failure) (next : β → Run α γ) :
    run >>= next = ⟨run.events, .error failure⟩ := by
  simp [bind, andThen, failed]

theorem bind_of_ok {run : Run α β} {value : β}
    (succeeded : run.outcome = .ok value) (next : β → Run α γ) :
    run >>= next = ⟨run.events ++ (next value).events, (next value).outcome⟩ := by
  simp [bind, andThen, succeeded]

@[simp] theorem events_ofCheck (check : Except (Fault α) β) : (ofCheck check).events = [] := rfl

@[simp] theorem events_within (context : Context α) (run : Run α β) :
    (run.within context).events = run.events := rfl

@[simp] theorem events_attempt (run : Run α β) : run.attempt.events = run.events := rfl

@[simp] theorem outcome_attempt (run : Run α β) : run.attempt.outcome = .ok run.outcome := rfl

theorem id_map (run : Run α β) : id <$> run = run := by
  obtain ⟨events, outcome⟩ := run
  cases outcome <;> simp [Functor.map, andThen, succeed]

theorem pure_bind (value : β) (next : β → Run α γ) : pure value >>= next = next value := by
  simp [bind, andThen, pure, succeed]

theorem bind_assoc {δ : Type v} (run : Run α β) (next : β → Run α γ) (after : γ → Run α δ) :
    run >>= next >>= after = run >>= fun value => next value >>= after := by
  obtain ⟨events, outcome⟩ := run
  cases outcome with
  | error failure => rfl
  | ok value =>
      cases nextOutcome : (next value).outcome with
      | error failure => simp [bind, andThen, nextOutcome]
      | ok value' => simp [bind, andThen, nextOutcome]

instance : LawfulMonad (Run.{u, v} α) :=
  LawfulMonad.mk' _ id_map pure_bind bind_assoc

end Run
end RootTrace
