import RootTrace.Proofs.Algebra.Comparison
import RootTrace.Proofs.Newton.Iteration

/-!
# The first iteration that ends a correction

Steps from the seed make one sequence of roots, in which neither the number of iterations
that are allowed nor the tolerance plays a part. A correction walks along this sequence. It
ends at the first iteration whose linear system has no solution, whose roots are not finite,
or whose change is small, and if no iteration that is allowed ends it, it is left with the
last roots. More iterations therefore change nothing behind the first that ends the
correction, and a lower tolerance does not make it end earlier.
-/

namespace RootTrace
namespace Corrector

universe u

variable {α : Type u} {n : Nat}

/-- The roots after a number of steps, as long as every step leads to some. -/
def iterates? (step : Vector (Complex α) n → Option (Vector (Complex α) n))
    (seed : Vector (Complex α) n) : Nat → Option (Vector (Complex α) n)
  | 0 => some seed
  | count + 1 => (iterates? step seed count).bind step

theorem iterates?_succ
    {step : Vector (Complex α) n → Option (Vector (Complex α) n)}
    {seed before : Vector (Complex α) n}
    {count : Nat}
    (reached : iterates? step seed count = some before) :
    iterates? step seed (count + 1) = step before := by
  rw [iterates?, reached, Option.bind_some]

/-- Whatever is reached, every smaller number of steps leads to some roots as well. -/
theorem exists_iterates?_of_le
    {step : Vector (Complex α) n → Option (Vector (Complex α) n)}
    {seed before : Vector (Complex α) n}
    {number count : Nat}
    (reached : iterates? step seed count = some before)
    (bounded : number ≤ count) :
    ∃ earlier, iterates? step seed number = some earlier := by
  induction bounded generalizing before with
  | refl => exact ⟨before, reached⟩
  | step _ inductionHypothesis =>
      obtain ⟨last, earlier, _⟩ := Option.bind_eq_some_iff.mp reached
      exact inductionHypothesis earlier

/-- The number of the last iteration, as the outcome of a correction names it. -/
def lastIteration : Except (Failure α) (Correction α n) → Nat
  | .ok correction => correction.iterations
  | .error failure =>
      match failure.cause with
      | .singular iteration => iteration
      | .nonFinite iteration => iteration
      | .notConverged iterations _ => iterations
      | _ => 0

theorem lastIteration_giveUp
    (settings : Settings α)
    (q : Complex α)
    (x : Vector (Complex α) n)
    (change : α) :
    lastIteration (giveUp settings q x change).outcome = settings.maxSteps := by
  rw [outcome_giveUp, apply_ite lastIteration]
  exact ite_self settings.maxSteps

/-! ## The number of iterations that are allowed -/

section Allowed

variable [Zero α] [One α] [LT α] [DecidableLT α] {settings : Settings α}

theorem maxSteps_ne_zero_of_check (valid : settings.check = .ok ⟨⟩) :
    settings.maxSteps ≠ 0 := by
  intro vacant
  rw [Settings.check, if_pos vacant] at valid
  cases valid

theorem check_with_maxSteps
    {allowed : Nat}
    (valid : settings.check = .ok ⟨⟩)
    (positive : allowed ≠ 0) :
    { settings with maxSteps := allowed }.check = .ok ⟨⟩ := by
  rw [Settings.check, if_neg (maxSteps_ne_zero_of_check valid)] at valid
  rw [Settings.check, if_neg positive]
  exact valid

end Allowed

/-! ## Iterations that end a correction -/

section Endings

variable [Add α] [Sub α] [LT α] [Magnitude α]

/-- An iteration that ends a correction, and what the correction then comes to. Its linear
system is looked at first, then whether its roots are finite, then its change. -/
inductive Ending (step : Vector (Complex α) n → Option (Vector (Complex α) n))
    (tolerance : α) (seed : Vector (Complex α) n) :
    Nat → Except (Failure α) (Correction α n) → Prop where
  /-- There is no step. -/
  | singular {count : Nat} {before : Vector (Complex α) n} :
      iterates? step seed count = some before →
      step before = none →
      Ending step tolerance seed (count + 1) (.error ⟨[.linearSolve], .singular (count + 1)⟩)
  /-- The step leads to roots that are not finite. -/
  | nonFinite {count : Nat} {before after : Vector (Complex α) n} :
      iterates? step seed count = some before →
      step before = some after →
      ¬ Complex.allFinite after.toList = true →
      Ending step tolerance seed (count + 1) (.error ⟨[], .nonFinite (count + 1)⟩)
  /-- The step changes the sum of moduli by less than the tolerance. -/
  | small {count : Nat} {before after : Vector (Complex α) n} :
      iterates? step seed count = some before →
      step before = some after →
      Complex.allFinite after.toList = true →
      changeOf before after < tolerance →
      Ending step tolerance seed (count + 1)
        (.ok ⟨after, count + 1, true, changeOf before after⟩)

/-- The first iteration that ends a correction. -/
structure FirstEnding (step : Vector (Complex α) n → Option (Vector (Complex α) n))
    (tolerance : α) (seed : Vector (Complex α) n) (number : Nat)
    (answer : Except (Failure α) (Correction α n)) : Prop where
  ending : Ending step tolerance seed number answer
  notEarlier : ∀ earlier < number, ∀ other, ¬ Ending step tolerance seed earlier other

/-- None of the first iterations ends a correction. -/
def Unended (step : Vector (Complex α) n → Option (Vector (Complex α) n))
    (tolerance : α) (seed : Vector (Complex α) n) (count : Nat) : Prop :=
  ∀ number ≤ count, ∀ answer, ¬ Ending step tolerance seed number answer

/-- A step behind which a correction goes on. -/
structure Passes (step : Vector (Complex α) n → Option (Vector (Complex α) n))
    (tolerance : α) (before after : Vector (Complex α) n) : Prop where
  stepped : step before = some after
  finite : Complex.allFinite after.toList = true
  large : ¬ changeOf before after < tolerance

variable {step : Vector (Complex α) n → Option (Vector (Complex α) n)} {tolerance : α}
  {seed before after : Vector (Complex α) n} {number count : Nat}
  {answer other : Except (Failure α) (Correction α n)}

/-- An iteration that a correction reaches ends it or is passed. -/
theorem ending_or_passes
    (tolerance : α)
    (reached : iterates? step seed count = some before) :
    (∃ answer, Ending step tolerance seed (count + 1) answer) ∨
      ∃ after, Passes step tolerance before after := by
  cases stepped : step before with
  | none => exact .inl ⟨_, .singular reached stepped⟩
  | some after =>
      by_cases finite : Complex.allFinite after.toList = true
      · by_cases small : changeOf before after < tolerance
        · exact .inl ⟨_, .small reached stepped finite small⟩
        · exact .inr ⟨after, stepped, finite, small⟩
      · exact .inl ⟨_, .nonFinite reached stepped finite⟩

theorem Passes.not_ending
    (passes : Passes step tolerance before after)
    (reached : iterates? step seed count = some before) :
    ¬ Ending step tolerance seed (count + 1) answer := by
  intro ending
  cases ending with
  | singular reached' failed =>
      cases reached.symm.trans reached'
      cases passes.stepped.symm.trans failed
  | nonFinite reached' stepped notFinite =>
      cases reached.symm.trans reached'
      cases passes.stepped.symm.trans stepped
      exact notFinite passes.finite
  | small reached' stepped finite small =>
      cases reached.symm.trans reached'
      cases passes.stepped.symm.trans stepped
      exact passes.large small

/-- An iteration ends a correction in one way only. -/
theorem Ending.unique
    (ending : Ending step tolerance seed number answer)
    (ending' : Ending step tolerance seed number other) :
    answer = other := by
  cases ending with
  | singular reached failed =>
      cases ending' with
      | singular => rfl
      | nonFinite reached' stepped | small reached' stepped =>
          cases reached.symm.trans reached'
          cases failed.symm.trans stepped
  | nonFinite reached stepped notFinite =>
      cases ending' with
      | nonFinite => rfl
      | singular reached' failed =>
          cases reached.symm.trans reached'
          cases stepped.symm.trans failed
      | small reached' stepped' finite =>
          cases reached.symm.trans reached'
          cases stepped.symm.trans stepped'
          exact absurd finite notFinite
  | small reached stepped finite =>
      cases ending' with
      | singular reached' failed =>
          cases reached.symm.trans reached'
          cases stepped.symm.trans failed
      | nonFinite reached' stepped' notFinite =>
          cases reached.symm.trans reached'
          cases stepped.symm.trans stepped'
          exact absurd finite notFinite
      | small reached' stepped' =>
          cases reached.symm.trans reached'
          cases stepped.symm.trans stepped'
          rfl

theorem Ending.lastIteration_eq (ending : Ending step tolerance seed number answer) :
    lastIteration answer = number := by
  cases ending <;> rfl

theorem Ending.number_ne_zero (ending : Ending step tolerance seed number answer) :
    number ≠ 0 := by
  cases ending <;> exact Nat.succ_ne_zero _

/-- What ends a correction under a tolerance ends it under a higher one. -/
theorem Ending.of_le [LE α]
    [Trans (LT.lt : α → α → Prop) (LE.le : α → α → Prop) (LT.lt : α → α → Prop)]
    {lower : α}
    (lowered : lower ≤ tolerance)
    (ending : Ending step lower seed number answer) :
    Ending step tolerance seed number answer := by
  cases ending with
  | singular reached failed => exact .singular reached failed
  | nonFinite reached stepped notFinite => exact .nonFinite reached stepped notFinite
  | small reached stepped finite small =>
      exact .small reached stepped finite (Trans.trans small lowered)

/-- There is only one first iteration that ends a correction, and one thing that the correction
comes to. -/
theorem FirstEnding.unique
    {number' : Nat}
    (first : FirstEnding step tolerance seed number answer)
    (first' : FirstEnding step tolerance seed number' other) :
    number = number' ∧ answer = other := by
  rcases Nat.lt_trichotomy number number' with earlier | rfl | later
  · exact absurd first.ending (first'.notEarlier number earlier answer)
  · exact ⟨rfl, first.ending.unique first'.ending⟩
  · exact absurd first'.ending (first.notEarlier number' later other)

/-- If some iteration ends a correction, then so does a first one. -/
theorem Ending.exists_first (ending : Ending step tolerance seed number answer) :
    ∃ first ≤ number, ∃ answer, FirstEnding step tolerance seed first answer := by
  induction number using Nat.strongRecOn generalizing answer with
  | ind number inductionHypothesis =>
      by_cases earlier : ∃ early < number, ∃ other, Ending step tolerance seed early other
      · obtain ⟨early, before, other, ends⟩ := earlier
        obtain ⟨first, atMost, found⟩ := inductionHypothesis early before ends
        exact ⟨first, atMost.trans before.le, found⟩
      · refine ⟨number, Nat.le_refl number, answer, ending, ?_⟩
        intro early before other ends
        exact earlier ⟨early, before, other, ends⟩

theorem unended_zero : Unended step tolerance seed 0 := by
  intro number bounded answer ending
  exact ending.number_ne_zero (Nat.le_zero.mp bounded)

theorem Unended.succ
    (unended : Unended step tolerance seed count)
    (reached : iterates? step seed count = some before)
    (passes : Passes step tolerance before after) :
    Unended step tolerance seed (count + 1) := by
  intro number bounded answer
  rcases Nat.le_succ_iff.mp bounded with earlier | rfl
  · exact unended number earlier answer
  · exact passes.not_ending reached

theorem Unended.firstEnding
    (unended : Unended step tolerance seed count)
    (ending : Ending step tolerance seed (count + 1) answer) :
    FirstEnding step tolerance seed (count + 1) answer :=
  ⟨ending, fun earlier before => unended earlier (Nat.le_of_lt_succ before)⟩

end Endings

/-! ## The loop -/

variable [Zero α] [One α] [Add α] [Sub α] [Mul α] [Neg α] [Div α] [BEq α]
  [LT α] [DecidableLT α] [Magnitude α]

variable {system : RootSystem α} {settings : Settings α} {q : Complex α}
  {seed before after : Vector (Complex α) n} {number count : Nat}
  {answer : Except (Failure α) (Correction α n)}

/-- What an iteration that ends a correction does to the loop that has reached it. -/
theorem Ending.outcome_correctFrom
    (ending : Ending (step? system settings.damping q) settings.tolerance seed
      (count + 1) answer)
    (reached : iterates? (step? system settings.damping q) seed count = some before)
    (spare : Nat) :
    (correctFrom system settings q spare (count + 1) before).outcome = answer := by
  cases ending with
  | singular reached' failed =>
      cases reached.symm.trans reached'
      exact correctFrom_of_iterate_error spare (iterate_of_no_step (count + 1) failed)
  | nonFinite reached' stepped notFinite =>
      cases reached.symm.trans reached'
      exact correctFrom_of_iterate_error spare
        (iterate_of_not_finite (count + 1) stepped notFinite)
  | small reached' stepped finite small =>
      cases reached.symm.trans reached'
      exact correctFrom_of_small spare (count + 1)
        (Option.filter_eq_some_iff.mpr ⟨stepped, finite⟩) small

theorem Passes.advance?_eq
    (passes : Passes (step? system settings.damping q) settings.tolerance before after) :
    advance? system settings.damping q before = some after :=
  Option.filter_eq_some_iff.mpr ⟨passes.stepped, passes.finite⟩

/-- From roots that it reaches without an end, the loop goes on to the first iteration that
ends it, or to the last one that is allowed. The induction is on the iterations that are left;
the roots at hand stay those of the sequence. -/
theorem outcome_correctFrom_cases
    (spare : Nat)
    (unended : Unended (step? system settings.damping q) settings.tolerance seed count)
    (reached : iterates? (step? system settings.damping q) seed count = some before) :
    (∃ number ≤ count + spare + 1, ∃ answer,
      FirstEnding (step? system settings.damping q) settings.tolerance seed number answer ∧
        (correctFrom system settings q spare (count + 1) before).outcome = answer) ∨
    (Unended (step? system settings.damping q) settings.tolerance seed (count + spare + 1) ∧
      ∃ last final,
        iterates? (step? system settings.damping q) seed (count + spare) = some last ∧
        iterates? (step? system settings.damping q) seed (count + spare + 1) = some final ∧
        (correctFrom system settings q spare (count + 1) before).outcome =
          (giveUp settings q final (changeOf last final)).outcome) := by
  induction spare generalizing count before with
  | zero =>
      rcases ending_or_passes settings.tolerance reached with
        ⟨answer, ending⟩ | ⟨after, passes⟩
      · exact .inl ⟨count + 1, Nat.le_refl _, answer, unended.firstEnding ending,
          ending.outcome_correctFrom reached 0⟩
      · have outcome := correctFrom_zero_of_large (count + 1) passes.advance?_eq passes.large
        refine .inr ⟨unended.succ reached passes, before, after, reached, ?_, outcome⟩
        exact (iterates?_succ reached).trans passes.stepped
  | succ spare inductionHypothesis =>
      rcases ending_or_passes settings.tolerance reached with
        ⟨answer, ending⟩ | ⟨after, passes⟩
      · refine .inl ⟨count + 1, by omega, answer, unended.firstEnding ending, ?_⟩
        exact ending.outcome_correctFrom reached (spare + 1)
      · have further := inductionHypothesis (unended.succ reached passes)
          ((iterates?_succ reached).trans passes.stepped)
        rw [Nat.add_right_comm count 1 spare] at further
        rw [correctFrom_succ_of_large spare (count + 1) passes.advance?_eq passes.large]
        exact further

/-! ## The whole correction -/

/-- A correction goes to the first iteration that ends it, or to the last one that is
allowed. -/
theorem outcome_correct_cases
    (system : RootSystem α)
    (accepted : check n settings = .ok ⟨⟩)
    (seed : Vector (Complex α) n)
    (q : Complex α) :
    (∃ number ≤ settings.maxSteps, ∃ answer,
      FirstEnding (step? system settings.damping q) settings.tolerance seed number answer ∧
        (correct system settings seed q).outcome = answer) ∨
    (Unended (step? system settings.damping q) settings.tolerance seed settings.maxSteps ∧
      ∃ last final,
        iterates? (step? system settings.damping q) seed (settings.maxSteps - 1) = some last ∧
        iterates? (step? system settings.damping q) seed settings.maxSteps = some final ∧
        (correct system settings seed q).outcome =
          (giveUp settings q final (changeOf last final)).outcome) := by
  have allowed : 0 + (settings.maxSteps - 1) + 1 = settings.maxSteps := by
    have positive := maxSteps_ne_zero_of_check (check_eq_ok_iff.mp accepted).2
    omega
  have unended : Unended (step? system settings.damping q) settings.tolerance seed 0 :=
    unended_zero
  have cases := outcome_correctFrom_cases (settings.maxSteps - 1) unended rfl
  rw [allowed, Nat.zero_add, Nat.zero_add] at cases
  rwa [outcome_correct_of_check_ok accepted]

/-- A correction comes to what the first iteration makes of it that ends it, if that many
iterations are allowed. -/
theorem FirstEnding.outcome_correct
    (settings : Settings α)
    (first : FirstEnding (step? system settings.damping q) settings.tolerance seed number answer)
    (accepted : check n settings = .ok ⟨⟩)
    (allowed : number ≤ settings.maxSteps) :
    (correct system settings seed q).outcome = answer := by
  rcases outcome_correct_cases system accepted seed q with
    ⟨number', _, answer', first', outcome⟩ | ⟨unended, _⟩
  · rw [outcome, (first.unique first').2]
  · exact absurd first.ending (unended number allowed answer)

/-- A correction that no iteration ends is left with the last roots. -/
theorem Unended.outcome_correct
    (settings : Settings α)
    (unended : Unended (step? system settings.damping q) settings.tolerance seed
      settings.maxSteps)
    (accepted : check n settings = .ok ⟨⟩) :
    ∃ last final,
      iterates? (step? system settings.damping q) seed (settings.maxSteps - 1) = some last ∧
      iterates? (step? system settings.damping q) seed settings.maxSteps = some final ∧
      (correct system settings seed q).outcome =
        (giveUp settings q final (changeOf last final)).outcome := by
  rcases outcome_correct_cases system accepted seed q with
    ⟨number, allowed, answer, first, _⟩ | spent
  · exact absurd first.ending (unended number allowed answer)
  · exact spent.2

theorem lastIteration_correct_le
    (accepted : check n settings = .ok ⟨⟩)
    (seed : Vector (Complex α) n)
    (q : Complex α) :
    lastIteration (correct system settings seed q).outcome ≤ settings.maxSteps := by
  rcases outcome_correct_cases system accepted seed q with
    ⟨number, allowed, answer, first, outcome⟩ | ⟨_, last, final, _, _, outcome⟩
  · rw [outcome, first.ending.lastIteration_eq]
    exact allowed
  · rw [outcome, lastIteration_giveUp]

/-- A lower tolerance does not make a correction end earlier. -/
theorem lastIteration_correct_le_of_le [LE α]
    [Trans (LT.lt : α → α → Prop) (LE.le : α → α → Prop) (LT.lt : α → α → Prop)]
    {lower : α}
    (accepted : check n settings = .ok ⟨⟩)
    (accepted' : check n { settings with tolerance := lower } = .ok ⟨⟩)
    (lowered : lower ≤ settings.tolerance)
    (seed : Vector (Complex α) n)
    (q : Complex α) :
    lastIteration (correct system settings seed q).outcome ≤
      lastIteration (correct system { settings with tolerance := lower } seed q).outcome := by
  rcases outcome_correct_cases system accepted' seed q with
    ⟨number, allowed, answer, first, outcome⟩ | ⟨_, last, final, _, _, outcome⟩
  · obtain ⟨first', atMost, answer', found⟩ := (first.ending.of_le lowered).exists_first
    rw [outcome, first.ending.lastIteration_eq,
      found.outcome_correct settings accepted (atMost.trans allowed), found.ending.lastIteration_eq]
    exact atMost
  · rw [outcome, lastIteration_giveUp]
    exact lastIteration_correct_le accepted seed q

/-- A correction is decided by the first iteration that ends it, along one sequence of roots
that depends on the system, the damping, the parameter and the seed only. If none of the
iterations that are allowed ends it, it fails or keeps the last roots, as the settings
demand. More iterations change nothing behind the first that ends the correction, and a
lower tolerance does not make it end earlier. -/
theorem correct_is_decided_by_first_ending [LE α]
    [Trans (LT.lt : α → α → Prop) (LE.le : α → α → Prop) (LT.lt : α → α → Prop)]
    (system : RootSystem α)
    (settings : Settings α)
    (nonempty : n ≠ 0)
    (valid : settings.check = .ok ⟨⟩)
    (seed : Vector (Complex α) n)
    (q : Complex α) :
    (∀ number ≤ settings.maxSteps, ∀ answer,
      FirstEnding (step? system settings.damping q) settings.tolerance seed number answer →
        (correct system settings seed q).outcome = answer ∧
          ∀ larger, number ≤ larger →
            (correct system { settings with maxSteps := larger } seed q).outcome = answer) ∧
    ((∀ number ≤ settings.maxSteps, ∀ answer,
        ¬ Ending (step? system settings.damping q) settings.tolerance seed number answer) →
      ∃ last final,
        iterates? (step? system settings.damping q) seed (settings.maxSteps - 1) = some last ∧
        iterates? (step? system settings.damping q) seed settings.maxSteps = some final ∧
        (correct system settings seed q).outcome =
          if settings.requireConvergence then
            .error ⟨[], .notConverged settings.maxSteps (changeOf last final)⟩
          else
            .ok ⟨final, settings.maxSteps, false, changeOf last final⟩) ∧
    (∀ lower, { settings with tolerance := lower }.check = .ok ⟨⟩ →
      lower ≤ settings.tolerance →
        lastIteration (correct system settings seed q).outcome ≤
          lastIteration (correct system { settings with tolerance := lower } seed q).outcome) := by
  have accepted : check n settings = .ok ⟨⟩ := check_eq_ok_iff.mpr ⟨nonempty, valid⟩
  refine ⟨?_, ?_, ?_⟩
  · intro number allowed answer first
    refine ⟨first.outcome_correct settings accepted allowed, ?_⟩
    intro larger enough
    have positive : larger ≠ 0 := by
      have numbered := first.ending.number_ne_zero
      omega
    exact first.outcome_correct { settings with maxSteps := larger }
      (check_eq_ok_iff.mpr ⟨nonempty, check_with_maxSteps valid positive⟩) enough
  · intro unended
    obtain ⟨last, final, before, after, outcome⟩ :=
      Unended.outcome_correct settings unended accepted
    exact ⟨last, final, before, after, outcome.trans (outcome_giveUp settings q final _)⟩
  · intro lower valid' lowered
    exact lastIteration_correct_le_of_le accepted (check_eq_ok_iff.mpr ⟨nonempty, valid'⟩)
      lowered seed q

/-- Twenty full steps, a change below one, and no failure for running out of iterations. -/
def coarse : Settings Float :=
  { Settings.standard with tolerance := 1 }

/-- The second step towards the square root of four is the first that changes the sum of
moduli by less than one. A thousand iterations do not change that, and a tolerance of a tenth
does not make the correction end earlier. -/
theorem squares_are_decided_by_second_iteration :
    (correct RootSystem.squares coarse (#v[⟨1, 0⟩] : Vector (Complex Float) 1) ⟨4, 0⟩).outcome =
        .ok ⟨#v[⟨2.05, 0⟩], 2, true, 0.4500000000000002⟩ ∧
    (correct RootSystem.squares { coarse with maxSteps := 1000 }
        (#v[⟨1, 0⟩] : Vector (Complex Float) 1) ⟨4, 0⟩).outcome =
        .ok ⟨#v[⟨2.05, 0⟩], 2, true, 0.4500000000000002⟩ ∧
    2 ≤ lastIteration (correct RootSystem.squares { coarse with tolerance := 0.1 }
        (#v[⟨1, 0⟩] : Vector (Complex Float) 1) ⟨4, 0⟩).outcome := by
  have valid : coarse.check = .ok ⟨⟩ := by
    decide +kernel
  have passes : Passes (step? RootSystem.squares coarse.damping ⟨4, 0⟩) coarse.tolerance
      (#v[⟨1, 0⟩] : Vector (Complex Float) 1) #v[⟨2.5, 0⟩] := by
    refine ⟨?_, ?_, ?_⟩ <;> decide +kernel
  have ending : Ending (step? RootSystem.squares coarse.damping ⟨4, 0⟩) coarse.tolerance
      (#v[⟨1, 0⟩] : Vector (Complex Float) 1) 2
      (.ok ⟨#v[⟨2.05, 0⟩], 2, true, 0.4500000000000002⟩) := by
    have change : changeOf (#v[⟨2.5, 0⟩] : Vector (Complex Float) 1) #v[⟨2.05, 0⟩] =
        0.4500000000000002 := by
      decide +kernel
    have reached : iterates? (step? RootSystem.squares coarse.damping ⟨4, 0⟩)
        (#v[⟨1, 0⟩] : Vector (Complex Float) 1) 1 = some #v[⟨2.5, 0⟩] := by
      decide +kernel
    rw [← change]
    refine .small reached ?_ ?_ ?_ <;> decide +kernel
  have first := (unended_zero.succ rfl passes).firstEnding ending
  obtain ⟨decided, _, lowered⟩ := correct_is_decided_by_first_ending RootSystem.squares coarse
    one_ne_zero valid (#v[⟨1, 0⟩] : Vector (Complex Float) 1) ⟨4, 0⟩
  obtain ⟨outcome, further⟩ := decided 2 (by decide) _ first
  refine ⟨outcome, further 1000 (by decide), ?_⟩
  have notEarlier := lowered 0.1 (by decide +kernel) (by decide +kernel)
  rw [outcome] at notEarlier
  exact notEarlier

end Corrector
end RootTrace
