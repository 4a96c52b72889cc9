import RootTrace.Proofs.Finiteness.Solve

/-!
# Corrections stay finite

An iteration that meets roots or residuals which are not finite ends the correction, so
a correction that succeeds has met finite ones all along. In equations in product form
every residual has the parameter as a factor, so the parameter was finite then, too.
-/

namespace RootTrace

universe u

namespace Corrector

variable {α : Type u} {n : Nat}
variable [Zero α] [One α] [Add α] [Sub α] [Mul α] [Neg α] [Div α] [BEq α]
  [LT α] [DecidableLT α] [Magnitude α]

/-! ## Iterations that are reached -/

/-- The corrector comes to an iteration with some roots: it accepts the task, and every
iteration before hands on roots that are still changing. -/
inductive Reaches (system : RootSystem α) (settings : Settings α) (q : Complex α)
    (seed : Vector (Complex α) n) : Nat → Vector (Complex α) n → Prop
  /-- The first iteration starts from the seed. -/
  | first (accepted : check n settings = .ok ⟨⟩) : Reaches system settings q seed 1 seed
  /-- The next one starts from what the iteration before it hands on. -/
  | next {iteration : Nat} {x y : Vector (Complex α) n} {change : α}
      (reached : Reaches system settings q seed iteration x)
      (allowed : iteration < settings.maxSteps)
      (iterated : (iterate system settings.damping q iteration x).outcome =
        .ok (y, change))
      (large : ¬ change < settings.tolerance) :
      Reaches system settings q seed (iteration + 1) y

variable {system : RootSystem α} {settings : Settings α} {q : Complex α}
  {seed x next : Vector (Complex α) n} {iteration : Nat} {correction : Correction α n}

/-- The correction comes to what the iterations from a reached one on come to. -/
theorem Reaches.outcome_correct (reached : Reaches system settings q seed iteration x) :
    (correct system settings seed q).outcome =
      (correctFrom system settings q (settings.maxSteps - iteration) iteration x).outcome := by
  induction reached with
  | first accepted => exact outcome_correct_of_check_ok accepted seed
  | @next iteration x y change reached allowed iterated large inductionHypothesis =>
      obtain ⟨advanced, rfl⟩ := advance_of_iterate iterated
      have spare : settings.maxSteps - iteration =
          settings.maxSteps - (iteration + 1) + 1 := by
        omega
      rw [inductionHypothesis, spare, correctFrom_succ_of_large _ _ advanced large]

variable [ReflectsFinite α]

/-! ## What meets the iterations -/

/-- Roots or residuals that are not finite end the correction at the iteration that meets
them. -/
theorem Reaches.outcome_of_not_finiteAt
    (reached : Reaches system settings q seed iteration x)
    (notFinite : ¬ FiniteAt system q x) :
    (correct system settings seed q).outcome =
        .error ⟨[.linearSolve], .singular iteration⟩ ∨
      (correct system settings seed q).outcome = .error ⟨[], .nonFinite iteration⟩ := by
  rw [reached.outcome_correct]
  rcases iterate_of_not_finiteAt iteration notFinite with singular | overflowed
  · left
    exact correctFrom_of_iterate_error _ singular
  · right
    exact correctFrom_of_iterate_error _ overflowed

theorem finiteAt_of_advance? (advanced : advance? system settings.damping q x = some next) :
    FiniteAt system q x ∧ Complex.allFinite next.toList = true := by
  obtain ⟨stepped, finite⟩ := Option.filter_eq_some_iff.mp advanced
  exact ⟨finiteAt_of_step? stepped finite, finite⟩

/-- Iterations that succeed start from finite roots and residuals, and end with finite
roots. -/
theorem finite_of_correctFrom
    {spare : Nat}
    (corrected :
      (correctFrom system settings q spare iteration x).outcome = .ok correction) :
    FiniteAt system q x ∧ Complex.allFinite correction.roots.toList = true := by
  induction spare generalizing iteration x with
  | zero =>
      cases advanced : advance? system settings.damping q x with
      | none =>
          obtain ⟨failure, failed⟩ := correctFrom_of_no_advance 0 iteration advanced
          cases failed.symm.trans corrected
      | some next =>
          obtain ⟨atStart, finite⟩ := finiteAt_of_advance? advanced
          refine ⟨atStart, ?_⟩
          by_cases small : changeOf x next < settings.tolerance
          · cases (correctFrom_of_small 0 iteration advanced small).symm.trans corrected
            exact finite
          · rw [correctFrom_zero_of_large iteration advanced small] at corrected
            rw [eq_of_giveUp corrected]
            exact finite
  | succ spare inductionHypothesis =>
      cases advanced : advance? system settings.damping q x with
      | none =>
          obtain ⟨failure, failed⟩ := correctFrom_of_no_advance (spare + 1) iteration advanced
          cases failed.symm.trans corrected
      | some next =>
          obtain ⟨atStart, finite⟩ := finiteAt_of_advance? advanced
          refine ⟨atStart, ?_⟩
          by_cases small : changeOf x next < settings.tolerance
          · cases (correctFrom_of_small (spare + 1) iteration advanced small).symm.trans
              corrected
            exact finite
          · rw [correctFrom_succ_of_large spare iteration advanced small] at corrected
            exact (inductionHypothesis corrected).2

theorem finite_of_correct
    (corrected : (correct system settings seed q).outcome = .ok correction) :
    FiniteAt system q seed ∧ Complex.allFinite correction.roots.toList = true :=
  finite_of_correctFrom (outcome_correct_eq_ok_iff.mp corrected).2

end Corrector

/-! ## Equations in product form -/

section ProductForm

variable {α : Type u} [Add α] [Sub α] [Mul α] [Div α] [Magnitude α] [ReflectsFinite α]

/-- A finite product comes from a finite start. -/
theorem Sides.isFinite_left_of_times
    {start : Sides (Complex α)}
    {factors : List (Sides (Complex α))}
    (finite : (start.times factors).left.isFinite = true) :
    start.left.isFinite = true := by
  refine foldl_reflects (fun sides : Sides (Complex α) => sides.left.isFinite = true) ?_
    finite
  intro sides factor finite
  exact (Complex.isFinite_of_mul finite).1

/-- Every residual has the parameter as a factor. -/
theorem ProductForm.isFinite_of_residual
    [Zero α] [One α]
    {n : Nat}
    {form : ProductForm (Complex α)}
    {x : Vector (Complex α) n}
    {q : Complex α}
    (nonempty : n ≠ 0)
    (finite : Complex.allFinite (form.residual x q).toList = true) :
    q.isFinite = true := by
  have first := Complex.allFinite_toList_iff.mp finite ⟨0, Nat.pos_of_ne_zero nonempty⟩
  rw [residual, Vector.get_ofFn] at first
  have product := (Complex.isFinite_of_sub first).1
  exact Sides.isFinite_left_of_times product

end ProductForm
end RootTrace
