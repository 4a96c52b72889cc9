import RootTrace.Proofs.Newton.Iteration
import RootTrace.Proofs.Places.Embedding
import RootTrace.Proofs.Places.Equations

/-!
# Corrections by places

One step reads the derivatives, writes the residuals into a buffer that all iterations
share, and moves the roots by what it reads back from the solution. On roots and a buffer of
the same length it never asks for a place that is not there, and it keeps both lengths. So
all iterations carry out the steps of the corrector, and come to what it comes to.
-/

namespace RootTrace
namespace Places

universe u

variable {α : Type u} {n : Nat}

/-- The answer of a computation that cannot ask for a place that is not there. -/
def answerOf {β γ : Type u} (list : β → γ) : Except (Failure α) β → Except (Stop α) γ
  | .ok value => .ok (list value)
  | .error failure => .error (.failed failure)

/-- Corrected roots as a list. -/
structure Listed (α : Type u) where
  /-- The roots after the last iteration. -/
  roots : List (Complex α)
  /-- Number of iterations that were carried out. -/
  iterations : Nat
  /-- Whether the last change was small. -/
  converged : Bool
  /-- By how much the last iteration changed the sum of moduli. -/
  change : α

/-- The same correction with its roots as a list. -/
def Listed.of (correction : Correction α n) : Listed α :=
  ⟨correction.roots.toList, correction.iterations, correction.converged, correction.change⟩

/-- Move roots against a direction, as far as it has entries. -/
def move [Sub α] [Mul α] (damping : α) (roots direction : List (Complex α)) :
    List (Complex α) :=
  List.zipWith (fun root delta => root - delta.scale damping) roots direction ++
    roots.drop direction.length

theorem move_toList
    [Sub α] [Mul α]
    (damping : α)
    (x direction : Vector (Complex α) n) :
    move damping x.toList direction.toList =
      (Vector.zipWith (fun root delta => root - delta.scale damping) x direction).toList := by
  rw [move, Vector.length_toList, List.drop_of_length_le Vector.length_toList.le,
    List.append_nil, Vector.toList_zipWith]

/-- What becomes of roots that are still changing when the iterations are used up. -/
def giveUp (settings : Settings α) (roots : List (Complex α)) (change : α) :
    Except (Stop α) (Listed α) :=
  if settings.requireConvergence then
    .error (.failed ⟨[], .notConverged settings.maxSteps change⟩)
  else
    .ok ⟨roots, settings.maxSteps, false, change⟩

theorem giveUp_eq
    (settings : Settings α)
    (q : Complex α)
    (x : Vector (Complex α) n)
    (change : α) :
    giveUp settings x.toList change =
      answerOf Listed.of (Corrector.giveUp settings q x change).outcome := by
  rw [giveUp, Corrector.outcome_giveUp]
  split
  · rfl
  · rfl

variable [Zero α] [One α] [Add α] [Sub α] [Mul α] [Neg α] [Div α] [BEq α]
  [LT α] [DecidableLT α] [Magnitude α]

/-- One step: the buffer with the residuals, and the roots after the step if there are
any. -/
def step (config : Config (Complex α)) (damping : α) (q : Complex α)
    (roots buffer : List (Complex α)) :
    Except (Stop α) (List (Complex α) × Option (List (Complex α))) := do
  let derivatives ← jacobian config roots q
  let matrix ← embedTable derivatives
  let buffer ← residualInto config roots q buffer
  let right ← embedList buffer
  match ← solveTable matrix right with
  | none => pure (buffer, none)
  | some solution => do
      let direction ← unembedList solution
      pure (buffer, some (move damping roots direction))

/-- One iteration: the buffer with the residuals, the new roots, and by how much they changed
the sum. -/
def iterate (config : Config (Complex α)) (damping : α) (q : Complex α) (iteration : Nat)
    (roots buffer : List (Complex α)) :
    Except (Stop α) (List (Complex α) × List (Complex α) × α) := do
  match ← step config damping q roots buffer with
  | (_, none) => .error (.failed ⟨[.linearSolve], .singular iteration⟩)
  | (buffer, some next) =>
      if Complex.allFinite next then
        pure (buffer, next, Magnitude.abs (Complex.absSum next - Complex.absSum roots))
      else
        .error (.failed ⟨[], .nonFinite iteration⟩)

/-- Iterate from the given iteration on. Behind it, `spare` more iterations may be carried
out. -/
def correctFrom (config : Config (Complex α)) (settings : Settings α) (q : Complex α) :
    (spare iteration : Nat) → (roots buffer : List (Complex α)) → Except (Stop α) (Listed α)
  | spare, iteration, roots, buffer => do
      let (buffer, next, change) ← iterate config settings.damping q iteration roots buffer
      if change < settings.tolerance then
        pure ⟨next, iteration, true, change⟩
      else
        match spare with
        | 0 => giveUp settings next change
        | spare + 1 => correctFrom config settings q spare (iteration + 1) next buffer

/-- Correct roots at a fixed parameter. -/
def correct (config : Config (Complex α)) (settings : Settings α) (seed : List (Complex α))
    (q : Complex α) : Except (Stop α) (Listed α) :=
  match Corrector.check seed.length settings with
  | .error fault => .error (.failed (.ofFault fault))
  | .ok _ =>
      correctFrom config settings q (settings.maxSteps - 1) 1 seed
        (List.replicate seed.length 0)

/-! ## Agreement -/

variable {config : Config (Complex α)} {settings : Settings α} {q : Complex α}
  (paired : config.constants.left.length = config.constants.right.length)

include paired

/-- The step over places finds all of them, leaves the residuals in the buffer and comes to the
roots of the step over vectors. -/
theorem step_eq_ok
    (damping : α)
    (x : Vector (Complex α) n)
    {buffer : List (Complex α)}
    (fits : buffer.length = n) :
    step config damping q x.toList buffer =
      .ok ((config.productForm.residual x q).toList,
        (Corrector.step? (.ofProductForm config.productForm) damping q x).map
          Vector.toList) := by
  have overwritten : overwrite? (config.productForm.residual x q).toList buffer =
      some (config.productForm.residual x q).toList := by
    rw [overwrite?, Vector.length_toList, if_pos fits.ge, List.drop_of_length_le fits.le,
      List.append_nil]
  rw [step, jacobian_eq_ok config x q paired]
  change (embedTable (.ofRows (config.productForm.jacobian x q)) >>= _) = _
  rw [embedTable_eq_ok]
  change (residualInto config x.toList q buffer >>= _) = _
  rw [residualInto_eq_ok config x q overwritten]
  change (embedList (config.productForm.residual x q).toList >>= _) = _
  rw [embedList_eq_ok]
  change (solveTable (.ofRows _) (Vector.toList _) >>= _) = _
  rw [solveTable_eq_ok]
  unfold Corrector.step?
  change _ = Except.ok (_, Option.map Vector.toList (Option.map _
    (Elimination.solve? (Embedding.embedMatrix (config.productForm.jacobian x q))
      (Embedding.embedVector (config.productForm.residual x q)))))
  cases Elimination.solve? (Embedding.embedMatrix (config.productForm.jacobian x q))
      (Embedding.embedVector (config.productForm.residual x q)) with
  | none => rfl
  | some solution =>
      change (unembedList solution.toList >>= _) = _
      rw [unembedList_eq_ok, Option.map_some, Option.map_some, ← move_toList]
      rfl

/-- An iteration over places answers what the iteration over vectors comes to. -/
theorem iterate_eq
    (damping : α)
    (iteration : Nat)
    (x : Vector (Complex α) n)
    {buffer : List (Complex α)}
    (fits : buffer.length = n) :
    iterate config damping q iteration x.toList buffer =
      answerOf
        (fun result => ((config.productForm.residual x q).toList, result.1.toList, result.2))
        (Corrector.iterate (.ofProductForm config.productForm) damping q iteration x).outcome := by
  rw [iterate, step_eq_ok paired damping x fits]
  cases stepped : Corrector.step? (.ofProductForm config.productForm) damping q x with
  | none =>
      rw [Corrector.iterate_of_no_step iteration stepped]
      rfl
  | some next =>
      change (if Complex.allFinite next.toList then _ else _) = _
      by_cases finite : Complex.allFinite next.toList = true
      · rw [if_pos finite, Corrector.iterate_of_finite iteration stepped finite]
        rfl
      · rw [if_neg finite, Corrector.iterate_of_not_finite iteration stepped finite]
        rfl

/-- Behind an iteration both computations go on in the same way, if they do so after a change
that is not small. -/
theorem bind_iterate_eq
    (iteration : Nat)
    (x : Vector (Complex α) n)
    {buffer : List (Complex α)}
    (fits : buffer.length = n)
    (placed : List (Complex α) → List (Complex α) → α → Except (Stop α) (Listed α))
    (after : Vector (Complex α) n → α → Run α (Correction α n))
    (large : ∀ (buffer : List (Complex α)) (next : Vector (Complex α) n) (change : α),
      buffer.length = n →
      placed buffer next.toList change = answerOf Listed.of (after next change).outcome) :
    (iterate config settings.damping q iteration x.toList buffer >>= fun result =>
        if result.2.2 < settings.tolerance then
          pure ⟨result.2.1, iteration, true, result.2.2⟩
        else placed result.1 result.2.1 result.2.2) =
      answerOf Listed.of
        (Corrector.iterate (.ofProductForm config.productForm) settings.damping q iteration x
          >>= fun result =>
            if result.2 < settings.tolerance then
              pure ⟨result.1, iteration, true, result.2⟩
            else after result.1 result.2).outcome := by
  rw [iterate_eq paired _ _ _ fits, Run.outcome_bind]
  cases (Corrector.iterate (.ofProductForm config.productForm) settings.damping q iteration
    x).outcome with
  | error failure => rfl
  | ok result =>
      obtain ⟨next, change⟩ := result
      change (if change < settings.tolerance then _ else _) =
        answerOf Listed.of (if change < settings.tolerance then _ else _ : Run α _).outcome
      by_cases small : change < settings.tolerance
      · rw [if_pos small, if_pos small]
        rfl
      · rw [if_neg small, if_neg small]
        exact large _ next change Vector.length_toList

/-- All iterations write into one buffer, which keeps its length. -/
theorem correctFrom_eq
    (spare iteration : Nat)
    (x : Vector (Complex α) n)
    {buffer : List (Complex α)}
    (fits : buffer.length = n) :
    correctFrom config settings q spare iteration x.toList buffer =
      answerOf Listed.of
        (Corrector.correctFrom (.ofProductForm config.productForm) settings q spare iteration
          x).outcome := by
  induction spare generalizing iteration x buffer with
  | zero =>
      apply bind_iterate_eq paired iteration x fits (fun _ => giveUp settings)
        (Corrector.giveUp settings q)
      intro _ next change _
      exact giveUp_eq settings q next change
  | succ spare inductionHypothesis =>
      apply bind_iterate_eq paired iteration x fits
        (fun buffer next _ => correctFrom config settings q spare (iteration + 1) next buffer)
        (fun next _ => Corrector.correctFrom _ settings q spare (iteration + 1) next)
      intro _ next _ fits
      exact inductionHypothesis (iteration + 1) next fits

/-- A correction over places answers what the correction over vectors comes to. -/
theorem correct_eq (seed : Vector (Complex α) n) :
    correct config settings seed.toList q =
      answerOf Listed.of
        (Corrector.correct (.ofProductForm config.productForm) settings seed q).outcome := by
  rw [correct, Vector.length_toList]
  cases checked : Corrector.check n settings with
  | error fault =>
      rw [Corrector.outcome_correct_of_check_error checked]
      rfl
  | ok accepted =>
      rw [Corrector.outcome_correct_of_check_ok checked]
      exact correctFrom_eq paired _ 1 seed List.length_replicate

end Places
end RootTrace
