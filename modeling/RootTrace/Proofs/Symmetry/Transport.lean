import RootTrace.Proofs.Newton.Step
import RootTrace.Proofs.Path.Chain

/-!
# Symmetries of systems

A symmetry takes roots and parameters of one system to those of another so that single
steps, sums of moduli and finiteness agree. Everything that the solver decides is decided
by these, so iterations, corrections and whole paths agree as well. They come to the roots
that correspond to each other, or fail at the same point for the same cause. A correction
stays at one parameter, so for it agreement there is enough.
-/

namespace RootTrace

universe u

/-- Apply one map to why a computation failed, and another to what it came to. -/
def carry {ε ε' β γ : Type*} (onFailure : ε → ε') (onValue : β → γ) :
    Except ε β → Except ε' γ
  | .ok value => .ok (onValue value)
  | .error failure => .error (onFailure failure)

/-- Two computations that correspond can be followed by two that correspond for every value. -/
theorem carry_bind
    {ε ε' : Type*} {β β' γ γ' : Type u}
    {onFailure : ε → ε'}
    {onFirst : β → β'}
    {onSecond : γ → γ'}
    {next : β → Except ε γ}
    {next' : β' → Except ε' γ'}
    (first : Except ε β)
    (agree : ∀ value, next' (onFirst value) = carry onFailure onSecond (next value)) :
    carry onFailure onFirst first >>= next' = carry onFailure onSecond (first >>= next) := by
  cases first with
  | error failure => rfl
  | ok value => exact agree value

variable {α : Type u} {n : Nat}

/-! ## What is carried over -/

/-- The same circumstance at the parameter that corresponds. -/
def Context.map (onParameter : Complex α → Complex α) : Context α → Context α
  | .linearSolve => .linearSolve
  | .pathStep step q => .pathStep step (onParameter q)

/-- The same fault under the circumstances that correspond. -/
def Failure.map (onParameter : Complex α → Complex α) (failure : Failure α) : Failure α where
  contexts := failure.contexts.map (Context.map onParameter)
  cause := failure.cause

theorem Failure.map_id (failure : Failure α) : failure.map id = failure := by
  have same : ∀ context : Context α, context.map id = context := by
    intro context
    cases context with
    | linearSolve => rfl
    | pathStep step q => rfl
  rw [map, List.map_congr_left fun context _ => same context, List.map_id']

/-- The same correction of the roots that correspond. -/
def Correction.map (onRoots : Vector (Complex α) n → Vector (Complex α) n)
    (correction : Correction α n) : Correction α n :=
  { correction with roots := onRoots correction.roots }

namespace Track

/-- The same track through the roots that correspond. -/
def map (onRoots : Vector (Complex α) n → Vector (Complex α) n) (track : Track α n) :
    Track α n where
  steps := track.steps.map onRoots
  unconverged := track.unconverged

variable (onRoots : Vector (Complex α) n → Vector (Complex α) n) (track : Track α n)

@[simp] theorem length_map : (track.map onRoots).length = track.length :=
  List.length_map _

theorem latest_map (seed : Vector (Complex α) n) :
    (track.map onRoots).latest (onRoots seed) = onRoots (track.latest seed) := by
  rw [latest, latest, map, List.getLast?_map]
  cases track.steps.getLast? with
  | none => rfl
  | some last => rfl

theorem map_record (correction : Correction α n) :
    (track.record correction).map onRoots =
      (track.map onRoots).record (correction.map onRoots) := by
  rw [record, record, length_map, map, List.map_append]
  rfl

end Track

theorem Corrector.outcome_giveUp_map
    (onRoots : Vector (Complex α) n → Vector (Complex α) n)
    (onParameter : Complex α → Complex α)
    (settings : Settings α)
    (q q' : Complex α)
    (x : Vector (Complex α) n)
    (change : α) :
    (giveUp settings q' (onRoots x) change).outcome =
      carry (Failure.map onParameter) (Correction.map onRoots)
        (giveUp settings q x change).outcome := by
  rw [outcome_giveUp, outcome_giveUp, apply_ite (carry _ _)]
  rfl

/-! ## What agrees -/

variable [Zero α] [One α] [Add α] [Sub α] [Mul α] [Neg α] [Div α] [BEq α]
  [LT α] [DecidableLT α] [Magnitude α]

/-- Roots of a system at one parameter correspond to roots of its image at another: steps
of the given damping lead to roots that correspond, and neither sums of moduli nor
finiteness change. -/
structure Agreement (system image : RootSystem α) (damping : α)
    (onRoots : Vector (Complex α) n → Vector (Complex α) n) (q q' : Complex α) : Prop where
  step : ∀ x, Corrector.step? image damping q' (onRoots x) =
    (Corrector.step? system damping q x).map onRoots
  absSum : ∀ x, Complex.absSum (onRoots x).toList = Complex.absSum x.toList
  allFinite : ∀ x, Complex.allFinite (onRoots x).toList = Complex.allFinite x.toList

/-- Roots and parameters of a system correspond to those of its image: steps of the given
damping lead to roots that correspond, and neither sums of moduli nor finiteness change. -/
structure Symmetry (system image : RootSystem α) (damping : α)
    (onRoots : Vector (Complex α) n → Vector (Complex α) n)
    (onParameter : Complex α → Complex α) : Prop where
  step : ∀ q x, Corrector.step? image damping (onParameter q) (onRoots x) =
    (Corrector.step? system damping q x).map onRoots
  absSum : ∀ x, Complex.absSum (onRoots x).toList = Complex.absSum x.toList
  allFinite : ∀ x, Complex.allFinite (onRoots x).toList = Complex.allFinite x.toList

/-- The problem of following the roots that correspond. -/
def Problem.image (problem : Problem α n) (image : RootSystem α)
    (onRoots : Vector (Complex α) n → Vector (Complex α) n) : Problem α n :=
  ⟨image, problem.settings, onRoots problem.seed⟩

/-! ## Corrections -/

namespace Agreement

variable {system image : RootSystem α} {damping : α}
  {onRoots : Vector (Complex α) n → Vector (Complex α) n} {q q' : Complex α}
  (onParameter : Complex α → Complex α)

theorem changeOf
    (agreement : Agreement system image damping onRoots q q')
    (before after : Vector (Complex α) n) :
    Corrector.changeOf (onRoots before) (onRoots after) =
      Corrector.changeOf before after := by
  rw [Corrector.changeOf, Corrector.changeOf, agreement.absSum, agreement.absSum]

/-- The failures of an iteration name no parameter, so any map of the parameters carries
them over. -/
theorem outcome_iterate
    (agreement : Agreement system image damping onRoots q q')
    (iteration : Nat)
    (x : Vector (Complex α) n) :
    (Corrector.iterate image damping q' iteration (onRoots x)).outcome =
      carry (Failure.map onParameter) (Prod.map onRoots id)
        (Corrector.iterate system damping q iteration x).outcome := by
  have stepped' := agreement.step x
  cases stepped : Corrector.step? system damping q x with
  | none =>
      rw [stepped] at stepped'
      rw [Corrector.iterate_of_no_step iteration stepped,
        Corrector.iterate_of_no_step iteration stepped']
      rfl
  | some next =>
      rw [stepped, Option.map_some] at stepped'
      have sameFiniteness := agreement.allFinite next
      by_cases finite : Complex.allFinite next.toList = true
      · rw [Corrector.iterate_of_finite iteration stepped finite,
          Corrector.iterate_of_finite iteration stepped' (sameFiniteness.trans finite),
          agreement.changeOf]
        rfl
      · have notFinite : ¬ Complex.allFinite (onRoots next).toList = true := by
          rw [sameFiniteness]
          exact finite
        rw [Corrector.iterate_of_not_finite iteration stepped finite,
          Corrector.iterate_of_not_finite iteration stepped' notFinite]
        rfl

variable {settings : Settings α}

/-- If what comes behind an iteration agrees, then so does the iteration together with
it. -/
theorem outcome_iterate_then
    (agreement : Agreement system image settings.damping onRoots q q')
    (iteration : Nat)
    (x : Vector (Complex α) n)
    (rest rest' : Vector (Complex α) n → α → Run α (Correction α n))
    (agree : ∀ next change, (rest' (onRoots next) change).outcome =
      carry (Failure.map onParameter) (Correction.map onRoots) (rest next change).outcome) :
    (Corrector.iterate image settings.damping q' iteration (onRoots x) >>=
        fun (next, change) =>
          if change < settings.tolerance then pure ⟨next, iteration, true, change⟩
          else rest' next change).outcome =
      carry (Failure.map onParameter) (Correction.map onRoots)
        (Corrector.iterate system settings.damping q iteration x >>=
          fun (next, change) =>
            if change < settings.tolerance then pure ⟨next, iteration, true, change⟩
            else rest next change).outcome := by
  rw [Run.outcome_bind, Run.outcome_bind, agreement.outcome_iterate onParameter]
  apply carry_bind
  rintro ⟨next, change⟩
  by_cases small : change < settings.tolerance
  · simp only [Prod.map, id, if_pos small]
    rfl
  · simp only [Prod.map, id, if_neg small]
    exact agree next change

/-- The loops of systems that agree come to results that correspond. Every iteration goes on from
roots that correspond, so the induction leaves these free. -/
theorem outcome_correctFrom
    (agreement : Agreement system image settings.damping onRoots q q')
    (spare iteration : Nat)
    (x : Vector (Complex α) n) :
    (Corrector.correctFrom image settings q' spare iteration (onRoots x)).outcome =
      carry (Failure.map onParameter) (Correction.map onRoots)
        (Corrector.correctFrom system settings q spare iteration x).outcome := by
  induction spare generalizing iteration x with
  | zero =>
      rw [Corrector.correctFrom, Corrector.correctFrom]
      exact agreement.outcome_iterate_then onParameter iteration x
        (Corrector.giveUp settings q) (Corrector.giveUp settings q')
        (Corrector.outcome_giveUp_map onRoots onParameter settings q q')
  | succ spare inductionHypothesis =>
      rw [Corrector.correctFrom, Corrector.correctFrom]
      exact agreement.outcome_iterate_then onParameter iteration x
        (fun next _ => Corrector.correctFrom system settings q spare (iteration + 1) next)
        (fun next _ => Corrector.correctFrom image settings q' spare (iteration + 1) next)
        fun next _ => inductionHypothesis (iteration + 1) next

theorem outcome_correct
    (agreement : Agreement system image settings.damping onRoots q q')
    (x : Vector (Complex α) n) :
    (Corrector.correct image settings (onRoots x) q').outcome =
      carry (Failure.map onParameter) (Correction.map onRoots)
        (Corrector.correct system settings x q).outcome := by
  rw [Corrector.correct, Corrector.correct, Run.outcome_bind, Run.outcome_bind,
    Run.outcome_ofCheck]
  cases Corrector.check n settings with
  | error fault => rfl
  | ok accepted =>
      exact agreement.outcome_correctFrom onParameter (settings.maxSteps - 1) 1 x

/-- Where the roots themselves agree, so do the corrections. -/
theorem outcome_correct_eq
    (agreement : Agreement system image settings.damping
      (id : Vector (Complex α) n → Vector (Complex α) n) q q')
    (x : Vector (Complex α) n) :
    (Corrector.correct image settings x q').outcome =
      (Corrector.correct system settings x q).outcome := by
  refine (agreement.outcome_correct id x).trans ?_
  cases (Corrector.correct system settings x q).outcome with
  | error failure => exact congrArg Except.error failure.map_id
  | ok correction => rfl

end Agreement

namespace Symmetry

variable {image : RootSystem α} {onRoots : Vector (Complex α) n → Vector (Complex α) n}
  {onParameter : Complex α → Complex α}

/-- A symmetry agrees at every parameter. -/
theorem agreement
    {system : RootSystem α}
    {damping : α}
    (symmetry : Symmetry system image damping onRoots onParameter)
    (q : Complex α) :
    Agreement system image damping onRoots q (onParameter q) :=
  ⟨symmetry.step q, symmetry.absSum, symmetry.allFinite⟩

/-! ## Paths -/

variable (problem : Problem α n)

/-- What one point preserves. -/
theorem point
    (symmetry : Symmetry problem.system image problem.settings.damping onRoots onParameter)
    (track : Track α n)
    (q : Complex α) :
    (problem.image image onRoots).point (track.map onRoots) (onParameter q) =
      carry (Failure.map onParameter) (Track.map onRoots) (problem.point track q) := by
  have corrected :=
    (symmetry.agreement q).outcome_correct onParameter (track.latest problem.seed)
  rw [← Track.latest_map onRoots track] at corrected
  rw [Problem.point, Problem.point, Problem.advance, Problem.advance, Run.outcome_map,
    Run.outcome_map, Run.outcome_within, Run.outcome_within, Track.length_map]
  change _ <$> (Corrector.correct image problem.settings
    ((track.map onRoots).latest (onRoots problem.seed)) (onParameter q)).outcome.mapError _ = _
  rw [corrected]
  cases (Corrector.correct problem.system problem.settings (track.latest problem.seed)
      q).outcome with
  | error failure => rfl
  | ok correction => exact congrArg Except.ok (Track.map_record onRoots track correction).symm

/-- What any points preserve. -/
theorem follow
    (symmetry : Symmetry problem.system image problem.settings.damping onRoots onParameter)
    (track : Track α n)
    (points : List (Complex α)) :
    (problem.image image onRoots).follow (track.map onRoots) (points.map onParameter) =
      carry (Failure.map onParameter) (Track.map onRoots) (problem.follow track points) := by
  induction points generalizing track with
  | nil => rfl
  | cons q points inductionHypothesis =>
      rw [List.map_cons, Problem.follow_cons, Problem.follow_cons, symmetry.point]
      exact carry_bind _ inductionHypothesis

/-- A path that corresponds is followed through the roots that correspond. -/
theorem outcome_trajectory
    (symmetry : Symmetry problem.system image problem.settings.damping onRoots onParameter)
    (path : List (Complex α)) :
    ((problem.image image onRoots).trajectory (path.map onParameter)).outcome =
      carry (Failure.map onParameter) (fun track => (track.map onRoots).trajectory)
        (problem.trace path).outcome := by
  rw [Problem.trajectory, Run.outcome_map, Problem.outcome_trace, Problem.outcome_trace]
  change _ <$> ((Corrector.check n problem.settings).mapError Failure.ofFault >>= _) = _
  cases Corrector.check n problem.settings with
  | error fault => rfl
  | ok accepted =>
      change _ <$> (problem.image image onRoots).follow (Track.empty.map onRoots) _ =
        carry _ _ (problem.follow Track.empty path)
      rw [symmetry.follow]
      cases problem.follow Track.empty path with
      | error failure => rfl
      | ok track => rfl

end Symmetry

/-! ## Over exact arithmetic -/

open Matrix Corrector

/-- Over exact arithmetic it is enough for agreement that derivatives are invertible
together and that a solution of the equation of a damped Newton step corresponds to one of
the image. -/
theorem Agreement.ofNewton
    {α : Type u} [Field α] [LinearOrder α] [IsStrictOrderedRing α]
    [Magnitude α] [ExactMagnitude α]
    {system image : RootSystem α}
    {damping : α}
    {onRoots : Vector (Complex α) n → Vector (Complex α) n}
    {q q' : Complex α}
    (invertible : ∀ x, IsUnit (image.jacobian (onRoots x) q').toMatrix ↔
      IsUnit (system.jacobian x q).toMatrix)
    (solves : ∀ x y,
      (system.jacobian x q).toMatrix *ᵥ (x.get - y.get) =
          dampedResidual system damping q x →
        (image.jacobian (onRoots x) q').toMatrix *ᵥ ((onRoots x).get - (onRoots y).get) =
          dampedResidual image damping q' (onRoots x))
    (absSum : ∀ x, Complex.absSum (onRoots x).toList = Complex.absSum x.toList) :
    Agreement system image damping onRoots q q' := by
  refine ⟨?_, absSum, fun x => ?_⟩
  case refine_2 => rw [Complex.allFinite_eq_true, Complex.allFinite_eq_true]
  intro x
  cases stepped : step? system damping q x with
  | none =>
      have singular := (step?_eq_none_iff system damping q x).mp stepped
      exact (step?_eq_none_iff image damping _ _).mpr (mt (invertible x).mp singular)
  | some next =>
      have regular := (invertible x).mpr (isUnit_of_step?_eq_some stepped)
      have solved := solves x next (mulVec_sub_of_step?_eq_some stepped)
      cases stepped' : step? image damping q' (onRoots x) with
      | none => exact absurd regular ((step?_eq_none_iff image damping _ _).mp stepped')
      | some next' =>
          have same : onRoots next = next' :=
            (mulVec_sub_eq_iff stepped' regular (onRoots next)).mp solved
          rw [Option.map_some, same]

/-- What is enough for agreement at every parameter is enough for a symmetry. -/
theorem Symmetry.ofNewton
    {α : Type u} [Field α] [LinearOrder α] [IsStrictOrderedRing α]
    [Magnitude α] [ExactMagnitude α]
    {system image : RootSystem α}
    {damping : α}
    {onRoots : Vector (Complex α) n → Vector (Complex α) n}
    {onParameter : Complex α → Complex α}
    (invertible : ∀ q x, IsUnit (image.jacobian (onRoots x) (onParameter q)).toMatrix ↔
      IsUnit (system.jacobian x q).toMatrix)
    (solves : ∀ q x y,
      (system.jacobian x q).toMatrix *ᵥ (x.get - y.get) =
          dampedResidual system damping q x →
        (image.jacobian (onRoots x) (onParameter q)).toMatrix *ᵥ
            ((onRoots x).get - (onRoots y).get) =
          dampedResidual image damping (onParameter q) (onRoots x))
    (absSum : ∀ x, Complex.absSum (onRoots x).toList = Complex.absSum x.toList) :
    Symmetry system image damping onRoots onParameter := by
  have agreement : ∀ q, Agreement system image damping onRoots q (onParameter q) :=
    fun q => Agreement.ofNewton (invertible q) (solves q) absSum
  exact ⟨fun q => (agreement q).step, absSum, (agreement 0).allFinite⟩

end RootTrace
