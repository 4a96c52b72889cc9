import RootTrace.Proofs.Newton.Outcomes

/-!
# What a correction records

Every iteration that is carried out leaves one record with its number, so the records count
the iterations. A warning stands behind them exactly if the roots are handed out although
they are still changing. An iteration that fails leaves no record, nor does a task that is
turned down.
-/

namespace RootTrace

universe u

/-- Records of iterations with the given changes, numbered from behind a number of earlier
iterations on. -/
def iterationRecords {α : Type u} (completed : Nat) : List α → List (Event α)
  | [] => []
  | change :: changes =>
      .iteration (completed + 1) change :: iterationRecords (completed + 1) changes

@[simp] theorem iterationRecords_nil {α : Type u} (completed : Nat) :
    iterationRecords completed ([] : List α) = [] := rfl

@[simp] theorem iterationRecords_cons
    {α : Type u}
    (completed : Nat)
    (change : α)
    (changes : List α) :
    iterationRecords completed (change :: changes) =
      .iteration (completed + 1) change :: iterationRecords (completed + 1) changes := rfl

namespace Corrector

variable {α : Type u} {n : Nat}

/-- A fault that ends a correction behind a number of complete iterations. -/
inductive ArisesBehind (maxSteps : Nat) : Fault α → Nat → Prop where
  /-- Without roots nothing is begun. -/
  | emptySeed : ArisesBehind maxSteps .emptySeed 0
  /-- With settings that are turned down nothing is begun. -/
  | invalid (objection : Objection) : ArisesBehind maxSteps (.invalid objection) 0
  /-- The next iteration has no unique step. -/
  | singular (completed : Nat) :
      ArisesBehind maxSteps (.singular (completed + 1)) completed
  /-- The next iteration leaves the finite numbers. -/
  | nonFinite (completed : Nat) :
      ArisesBehind maxSteps (.nonFinite (completed + 1)) completed
  /-- All iterations are complete. -/
  | notConverged (change : α) :
      ArisesBehind maxSteps (.notConverged maxSteps change) maxSteps

/-- What is recorded behind a number of complete iterations, up to some outcome. -/
inductive Recorded (maxSteps : Nat) (q : Complex α) (completed : Nat) :
    Except (Failure α) (Correction α n) → List (Event α) → Prop where
  /-- Converged roots leave the records of their iterations. -/
  | converged {correction : Correction α n} (changes : List α) :
      correction.converged = true →
      correction.iterations = completed + changes.length →
      changes.getLast? = some correction.change →
      Recorded maxSteps q completed (.ok correction) (iterationRecords completed changes)
  /-- Roots that are still changing leave a warning behind these records. -/
  | exhausted {correction : Correction α n} (changes : List α) :
      correction.converged = false →
      correction.iterations = completed + changes.length →
      changes.getLast? = some correction.change →
      Recorded maxSteps q completed (.ok correction)
        (iterationRecords completed changes ++
          [.exhausted correction.iterations correction.change q])
  /-- A failure leaves the records of the iterations before it and no warning. -/
  | failed {failure : Failure α} (changes : List α) :
      ArisesBehind maxSteps failure.cause (completed + changes.length) →
      Recorded maxSteps q completed (.error failure) (iterationRecords completed changes)

section Records

variable {maxSteps completed : Nat} {q : Complex α}
  {outcome : Except (Failure α) (Correction α n)} {events : List (Event α)}

/-- One more iteration in front. -/
theorem Recorded.cons
    (recorded : Recorded maxSteps q (completed + 1) outcome events)
    (change : α) :
    Recorded maxSteps q completed outcome
      (.iteration (completed + 1) change :: events) := by
  have counted : ∀ changes : List α,
      completed + 1 + changes.length = completed + (change :: changes).length := by
    intro changes
    rw [List.length_cons]
    omega
  have last : ∀ {changes : List α} {final : α}, changes.getLast? = some final →
      (change :: changes).getLast? = some final := by
    intro changes final ends
    rw [List.getLast?_cons, ends, Option.getD_some]
  cases recorded with
  | @converged correction changes converged iterations ends =>
      exact .converged _ converged (iterations.trans (counted changes)) (last ends)
  | @exhausted correction changes converged iterations ends =>
      exact .exhausted _ converged (iterations.trans (counted changes)) (last ends)
  | @failed failure changes arises =>
      rw [counted] at arises
      exact .failed (change :: changes) arises

/-- The last iteration that was left did not end the correction. -/
theorem recorded_giveUp
    {settings : Settings α}
    (used : completed + 1 = settings.maxSteps)
    (x : Vector (Complex α) n)
    (change : α) :
    Recorded settings.maxSteps q completed (giveUp settings q x change).outcome
      (.iteration (completed + 1) change :: (giveUp settings q x change).events) := by
  unfold giveUp
  by_cases required : settings.requireConvergence = true
  · rw [if_pos required]
    refine .failed [change] ?_
    rw [List.length_singleton, used]
    exact .notConverged change
  · rw [if_neg required]
    exact .exhausted [change] rfl used.symm rfl

/-- A task that is turned down leaves no records. Only two causes belong to such a task; every
other one needs a task that was accepted. -/
theorem recorded_of_check_error
    [Zero α] [One α] [LT α] [DecidableLT α]
    {settings : Settings α}
    {fault : Fault α}
    (refused : check n settings = .error fault)
    (q : Complex α) :
    Recorded (n := n) settings.maxSteps q 0 (.error (.ofFault fault)) [] := by
  refine .failed [] ?_
  cases cause_of_check_error refused with
  | emptySeed => exact .emptySeed
  | invalid => exact .invalid _
  | singular accepted | nonFinite accepted | notConverged accepted =>
      cases refused.symm.trans accepted

end Records

variable [Zero α] [One α] [Add α] [Sub α] [Mul α] [Neg α] [Div α] [BEq α]
  [LT α] [DecidableLT α] [Magnitude α]

/-- An iteration leaves its record if it hands on new roots, and nothing if it fails. -/
theorem iterate_cases
    (system : RootSystem α)
    (damping : α)
    (q : Complex α)
    (completed : Nat)
    (x : Vector (Complex α) n) :
    (∃ next change, iterate system damping q (completed + 1) x =
        ⟨[.iteration (completed + 1) change], .ok (next, change)⟩) ∨
      ∃ failure, iterate system damping q (completed + 1) x = ⟨[], .error failure⟩ ∧
        ∀ maxSteps, ArisesBehind maxSteps failure.cause completed := by
  unfold iterate
  cases step? system damping q x with
  | none => exact .inr ⟨_, rfl, fun _ => .singular completed⟩
  | some next =>
      dsimp only
      by_cases finite : Complex.allFinite next.toList = true
      · rw [if_pos finite]
        exact .inl ⟨next, changeOf x next, rfl⟩
      · rw [if_neg finite]
        exact .inr ⟨_, rfl, fun _ => .nonFinite completed⟩

/-- What comes behind an iteration that hands on new roots has its record in front. -/
theorem recorded_bind_iterate
    {maxSteps completed : Nat}
    {system : RootSystem α}
    {damping : α}
    {q : Complex α}
    {x : Vector (Complex α) n}
    {after : Vector (Complex α) n × α → Run α (Correction α n)}
    (onward : ∀ next change, Recorded maxSteps q completed (after (next, change)).outcome
      (.iteration (completed + 1) change :: (after (next, change)).events)) :
    Recorded maxSteps q completed
      (iterate system damping q (completed + 1) x >>= after).outcome
      (iterate system damping q (completed + 1) x >>= after).events := by
  rcases iterate_cases system damping q completed x with
    ⟨next, change, iterated⟩ | ⟨failure, iterated, arises⟩
  · rw [iterated, Run.bind_of_ok rfl]
    exact onward next change
  · rw [iterated, Run.bind_of_error rfl]
    exact .failed [] (arises maxSteps)

/-- The loop, by the number of iterations that are left. -/
theorem recorded_correctFrom
    (system : RootSystem α)
    (settings : Settings α)
    (q : Complex α)
    {spare completed : Nat}
    (left : completed + 1 + spare = settings.maxSteps)
    (x : Vector (Complex α) n) :
    Recorded settings.maxSteps q completed
      (correctFrom system settings q spare (completed + 1) x).outcome
      (correctFrom system settings q spare (completed + 1) x).events := by
  induction spare generalizing completed x with
  | zero =>
      rw [correctFrom]
      refine recorded_bind_iterate ?_
      intro next change
      dsimp only
      by_cases small : change < settings.tolerance
      · rw [if_pos small]
        exact .converged [change] rfl rfl rfl
      · rw [if_neg small]
        exact recorded_giveUp left next change
  | succ spare inductionHypothesis =>
      rw [correctFrom]
      refine recorded_bind_iterate ?_
      intro next change
      dsimp only
      by_cases small : change < settings.tolerance
      · rw [if_pos small]
        exact .converged [change] rfl rfl rfl
      · rw [if_neg small]
        exact (inductionHypothesis (by omega) next).cons change

/-- The records of a correction agree with what it comes to. -/
theorem recorded_correct
    (system : RootSystem α)
    (settings : Settings α)
    (seed : Vector (Complex α) n)
    (q : Complex α) :
    Recorded settings.maxSteps q 0 (correct system settings seed q).outcome
      (correct system settings seed q).events := by
  rw [correct]
  cases checked : check n settings with
  | error fault =>
      change Recorded _ q 0 (.error (.ofFault fault)) []
      exact recorded_of_check_error checked q
  | ok accepted =>
      have some := Nat.pos_of_ne_zero
        (maxSteps_ne_zero_of_check (check_eq_ok_iff.mp checked).2)
      change Recorded _ q 0 (correctFrom system settings q (settings.maxSteps - 1) 1 seed).outcome
        (correctFrom system settings q (settings.maxSteps - 1) 1 seed).events
      exact recorded_correctFrom system settings q (by omega) seed

end Corrector
end RootTrace
