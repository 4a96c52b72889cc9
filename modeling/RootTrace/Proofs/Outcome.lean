import RootTrace.Run
import Mathlib

/-!
# Outcomes of composed runs

The outcome of a run forgets its record. Outcomes are put together as exceptions
are, so what a composed run comes to is read off from its parts.
-/

namespace RootTrace

universe u v

namespace Run

variable {α : Type u} {β γ : Type v}

theorem outcome_bind (run : Run α β) (next : β → Run α γ) :
    (run >>= next).outcome = run.outcome >>= fun value => (next value).outcome := by
  cases succeeded : run.outcome with
  | error failure => rw [bind_of_error succeeded]; rfl
  | ok value => rw [bind_of_ok succeeded]; rfl

theorem outcome_map (f : β → γ) (run : Run α β) :
    (f <$> run).outcome = f <$> run.outcome := by
  rw [← bind_pure_comp, outcome_bind, ← bind_pure_comp]
  rfl

@[simp] theorem outcome_within (context : Context α) (run : Run α β) :
    (run.within context).outcome = run.outcome.mapError (Failure.within context) := rfl

@[simp] theorem outcome_ofCheck (check : Except (Fault α) β) :
    (ofCheck check).outcome = check.mapError Failure.ofFault := rfl

/-- A loop of runs comes to the loop of what they come to. -/
theorem outcome_foldlM {δ : Type*} (step : β → δ → Run α β) (start : β) (items : List δ) :
    (items.foldlM step start).outcome =
      items.foldlM (fun value item => (step value item).outcome) start := by
  induction items generalizing start with
  | nil => rfl
  | cons item items inductionHypothesis =>
      rw [List.foldlM_cons, List.foldlM_cons, outcome_bind]
      congr 1
      funext value
      exact inductionHypothesis value

/-! ## Whole runs -/

theorem map_eq (f : β → γ) (run : Run α β) :
    f <$> run = ⟨run.events, f <$> run.outcome⟩ := by
  rw [← bind_pure_comp]
  cases succeeded : run.outcome with
  | error failure =>
      rw [bind_of_error succeeded]
      rfl
  | ok value =>
      rw [bind_of_ok succeeded, events_pure, List.append_nil]
      rfl

/-- A fold goes on from where its front part arrives, behind what that recorded. -/
theorem foldlM_append_of_ok
    {δ : Type*}
    {step : β → δ → Run α β}
    {start reached : β}
    {front : List δ}
    {events : List (Event α)}
    (arrived : front.foldlM step start = ⟨events, .ok reached⟩)
    (rest : List δ) :
    (front ++ rest).foldlM step start =
      ⟨events ++ (rest.foldlM step reached).events,
        (rest.foldlM step reached).outcome⟩ := by
  rw [List.foldlM_append, arrived]
  rfl

end Run
end RootTrace
