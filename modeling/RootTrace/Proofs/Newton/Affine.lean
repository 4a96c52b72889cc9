import RootTrace.Proofs.Newton.Outcomes
import RootTrace.Proofs.Newton.Step
import RootTrace.Proofs.ProductForm.RowSums

/-!
# Affine systems

Where the residuals are an affine map of the roots with an invertible linear part, one step
leaves of the distance to the only zero what the damping does not take. After some steps the
distance is that part of the distance of the seed, to the power of their number. Full steps
arrive with the first iteration, and the second one notices. One root with one pair of
constants is such a system at every parameter but one.
-/

namespace RootTrace

universe u

open Matrix

/-- At one parameter the residuals are an affine map of the roots, and the derivatives are its
linear part. -/
structure AffineAt {α : Type u} [CommRing α] {n : Nat} (system : RootSystem α) (q : Complex α)
    (linear : Matrix (Fin n) (Fin n) (Complex α)) (constant : Fin n → Complex α) : Prop where
  derivatives : ∀ x : Vector (Complex α) n, (system.jacobian x q).toMatrix = linear
  residuals : ∀ x : Vector (Complex α) n,
    (system.residual x q).get = linear *ᵥ x.get - constant

/-- Residuals that are affine with an invertible linear part vanish at one place. -/
theorem exists_unique_zero
    {α : Type u} [CommRing α]
    {n : Nat}
    {linear : Matrix (Fin n) (Fin n) (Complex α)}
    (invertible : IsUnit linear)
    (constant : Fin n → Complex α) :
    ∃ center : Vector (Complex α) n,
      ∀ y : Vector (Complex α) n, linear *ᵥ y.get = constant ↔ y = center := by
  obtain ⟨unit, rfl⟩ := invertible
  have solves : unit.val *ᵥ (Vector.ofFn (unit.inv *ᵥ constant)).get = constant := by
    rw [get_ofFn_eq, mulVec_mulVec, unit.val_inv, one_mulVec]
  refine ⟨Vector.ofFn (unit.inv *ᵥ constant), fun y => ⟨?_, ?_⟩⟩
  · intro other
    have same := mulVec_injective_of_isUnit unit.isUnit (other.trans solves.symm)
    exact eq_of_get_eq same
  · rintro rfl
    exact solves

/-! ## Elementary systems -/

/-- The affine system of a table is affine at every parameter. Its linear part is the table, read
with zeros where it ends early. -/
theorem affineAt_affine
    {α : Type u} [CommRing α]
    (table : List (List (Complex α)))
    (values : List (Complex α))
    (n : Nat)
    (q : Complex α) :
    AffineAt (n := n) (RootSystem.affine table values) q
      (Matrix.of fun i j => RootSystem.entryOf table i j) fun i => q * values.getD i 0 where
  derivatives x := by
    apply Matrix.ext
    intro i j
    rw [RowMatrix.toMatrix_apply, RootSystem.affine, RowMatrix.entry_ofFn, Vector.get_ofFn,
      Matrix.of_apply]
  residuals x := by
    funext i
    rw [RootSystem.affine, Vector.get_ofFn, foldl_add_eq_add_sum, zero_add,
      ← List.sum_toFinset _ (List.nodup_finRange n), List.toFinset_finRange]
    rfl

/-! ## One root and one pair -/

section OnePair

variable {α : Type u} [CommRing α]

/-- One root meets no other root, so one pair of constants leaves an equation of the first
degree. -/
theorem affineAt_onePair
    (shifts : Shifts (Complex α))
    (left right : Complex α)
    (q : Complex α) :
    AffineAt (n := 1)
      (.ofProductForm (⟨shifts, ⟨[left], [right]⟩⟩ : Config (Complex α)).productForm) q
      (Matrix.of fun _ _ => q - 1) fun _ => q * left - right where
  derivatives x := by
    have paired : [left].length = [right].length := rfl
    have row := @Config.sum_derivative_productForm _ _ ⟨shifts, ⟨[left], [right]⟩⟩ paired _
      x q 0
    rw [RootSystem.toMatrix_jacobian_ofProductForm]
    apply Matrix.ext
    intro i j
    rw [Subsingleton.elim i 0, Subsingleton.elim j 0]
    rw [Fin.sum_univ_one] at row
    rw [Matrix.of_apply, row]
    simp [Config.pairCount, Config.pairContribution]
  residuals x := by
    rw [RootSystem.get_residual_ofProductForm]
    funext i
    have alone : ProductForm.others (0 : Fin 1) = [] := rfl
    rw [Subsingleton.elim i 0, ProductForm.residualAt, alone, ProductForm.differenceFactors,
      List.flatMap_nil, List.append_nil, Pi.sub_apply, mulVec, dotProduct, Fin.sum_univ_one,
      Matrix.of_apply]
    change q * (x.get 0 - left) - 1 * (x.get 0 - right) =
      (q - 1) * x.get 0 - (q * left - right)
    ring

end OnePair

theorem isUnit_of_ne_one
    {α : Type u} [Field α] [LinearOrder α] [IsStrictOrderedRing α]
    {q : Complex α}
    (differs : q ≠ 1) :
    IsUnit (Matrix.of fun _ _ => q - 1 : Matrix (Fin 1) (Fin 1) (Complex α)) := by
  rw [Matrix.isUnit_iff_isUnit_det, det_fin_one, Matrix.of_apply]
  exact IsUnit.of_mul_eq_one _ (Complex.mul_inverse_of_ne_zero (sub_ne_zero.mpr differs))

/-! ## One step -/

section Drawn

variable {α : Type u} [CommRing α] {n : Nat}

/-- Roots drawn towards a center, of whose distance a part is left. -/
def drawn (center seed : Vector (Complex α) n) (left : α) : Vector (Complex α) n :=
  Vector.ofFn fun i => center.get i + (seed.get i - center.get i).scale left

variable (center seed : Vector (Complex α) n)

theorem get_drawn (left : α) (i : Fin n) :
    (drawn center seed left).get i =
      center.get i + (seed.get i - center.get i).scale left :=
  Vector.get_ofFn _ i

theorem drawn_eq_iff {left : α} {roots : Vector (Complex α) n} :
    drawn center seed left = roots ↔
      ∀ i, center.get i + (seed.get i - center.get i).scale left = roots.get i := by
  constructor
  · rintro rfl i
    exact (get_drawn center seed left i).symm
  · intro entries
    apply eq_of_get_eq
    funext i
    exact (get_drawn center seed left i).trans (entries i)

theorem drawn_one : drawn center seed 1 = seed := by
  apply (drawn_eq_iff center seed).mpr
  intro i
  have whole : (seed.get i - center.get i).scale 1 = seed.get i - center.get i := by
    ext <;> simp
  rw [whole, add_sub_cancel]

theorem drawn_zero : drawn center seed 0 = center := by
  apply (drawn_eq_iff center seed).mpr
  intro i
  have nothing : (seed.get i - center.get i).scale 0 = 0 := by
    ext <;> simp
  rw [nothing, add_zero]

theorem drawn_drawn (first second : α) :
    drawn center (drawn center seed first) second = drawn center seed (first * second) := by
  apply (drawn_eq_iff center _).mpr
  intro i
  rw [get_drawn, get_drawn, add_sub_cancel_left]
  ext <;> simp [mul_assoc]

end Drawn

namespace Corrector

variable {α : Type u} [Field α] [LinearOrder α] [IsStrictOrderedRing α]
  [Magnitude α] [ExactMagnitude α] {n : Nat}
  {system : RootSystem α} {q : Complex α}
  {linear : Matrix (Fin n) (Fin n) (Complex α)} {constant : Fin n → Complex α}
  {center : Vector (Complex α) n}

/-- A damped step leaves of the distance to the zero what the damping does not take. The step is
the only solution of its linear system, so it is enough that these roots are one. -/
theorem step?_of_affineAt
    (affine : AffineAt system q linear constant)
    (invertible : IsUnit linear)
    (solves : linear *ᵥ center.get = constant)
    (damping : α)
    (x : Vector (Complex α) n) :
    step? system damping q x = some (drawn center x (1 - damping)) := by
  have derivatives := affine.derivatives x
  cases stepped : step? system damping q x with
  | none =>
      have singular := (step?_eq_none_iff system damping q x).mp stepped
      rw [derivatives] at singular
      exact absurd invertible singular
  | some next =>
      congr 1
      symm
      apply (mulVec_sub_eq_iff stepped (derivatives ▸ invertible) _).mp
      have move : x.get - (drawn center x (1 - damping)).get =
          (⟨damping, 0⟩ : Complex α) • (x.get - center.get) := by
        funext i
        rw [Pi.sub_apply, get_drawn, Pi.smul_apply, Pi.sub_apply]
        ext <;> simp <;> ring
      rw [derivatives, move, mulVec_smul, mulVec_sub, solves, ← affine.residuals x]
      funext i
      rw [Pi.smul_apply, smul_eq_mul, dampedResidual, Complex.scale_eq_mul, mul_comm]

/-! ## All iterations -/

/-- After a number of steps the distance to the zero has been multiplied by that power of what a
step leaves of it. -/
theorem iterates?_of_affineAt
    (affine : AffineAt system q linear constant)
    (invertible : IsUnit linear)
    (solves : linear *ᵥ center.get = constant)
    (damping : α)
    (seed : Vector (Complex α) n)
    (count : Nat) :
    iterates? (step? system damping q) seed count =
      some (drawn center seed ((1 - damping) ^ count)) := by
  induction count with
  | zero => rw [iterates?, pow_zero, drawn_one]
  | succ count inductionHypothesis =>
      rw [iterates?_succ inductionHypothesis, step?_of_affineAt affine invertible solves,
        drawn_drawn, pow_succ]

section Reached

variable {settings : Settings α} {seed : Vector (Complex α) n}

theorem changeOf_self (x : Vector (Complex α) n) : changeOf x x = 0 := by
  rw [changeOf, sub_self, ExactMagnitude.abs_eq, abs_zero]

/-- Full steps arrive with the first iteration, and the second one does not move. -/
theorem exists_correct_of_full_steps
    (affine : AffineAt system q linear constant)
    (invertible : IsUnit linear)
    (solves : linear *ᵥ center.get = constant)
    (accepted : check n settings = .ok ⟨⟩)
    (full : settings.damping = 1)
    (two : 2 ≤ settings.maxSteps) :
    ∃ correction, (correct system settings seed q).outcome = .ok correction ∧
      correction.converged = true ∧ correction.iterations ≤ 2 := by
  have advance : ∀ x : Vector (Complex α) n,
      advance? system settings.damping q x = some center := by
    intro x
    have stepped := step?_of_affineAt affine invertible solves settings.damping x
    rw [full, sub_self, drawn_zero] at stepped
    rw [full]
    exact Option.filter_eq_some_iff.mpr ⟨stepped, Complex.allFinite_eq_true _⟩
  have spare : settings.maxSteps - 1 = settings.maxSteps - 2 + 1 := by
    omega
  rw [outcome_correct_of_check_ok accepted, spare]
  by_cases small : changeOf seed center < settings.tolerance
  · exact ⟨_, correctFrom_of_small _ 1 (advance seed) small, rfl, Nat.le_succ 1⟩
  · have positive := (Settings.check_eq_ok_iff.mp (check_eq_ok_iff.mp accepted).2).2.1
    rw [correctFrom_succ_of_large _ 1 (advance seed) small]
    rw [← changeOf_self center] at positive
    exact ⟨_, correctFrom_of_small _ 2 (advance center) positive, rfl, Nat.le_refl 2⟩

/-- Corrections that draw their roots towards a center. -/
structure DrawsTo (system : RootSystem α) (settings : Settings α) (q : Complex α)
    (seed center : Vector (Complex α) n) : Prop where
  /-- An iteration leaves as much more of the distance as its damping does not take. -/
  iterations : ∀ count x, Reaches system settings q seed (count + 1) x →
    x = drawn center seed ((1 - settings.damping) ^ count) ∧
    ∃ change, (iterate system settings.damping q (count + 1) x).outcome =
      .ok (drawn center seed ((1 - settings.damping) ^ (count + 1)), change)
  /-- What is handed out is what is left after the iterations that were carried out. -/
  results : ∀ correction, (correct system settings seed q).outcome = .ok correction →
    correction.roots = drawn center seed ((1 - settings.damping) ^ correction.iterations)
  /-- Full steps come to the center and nowhere else. -/
  full : settings.damping = 1 →
    ∀ correction, (correct system settings seed q).outcome = .ok correction →
      correction.roots = center
  /-- Two full steps are enough. -/
  two : check n settings = .ok ⟨⟩ → settings.damping = 1 → 2 ≤ settings.maxSteps →
    ∃ correction, (correct system settings seed q).outcome = .ok correction ∧
      correction.converged = true ∧ correction.iterations ≤ 2

/-- Whatever iteration is reached, it starts at the seed drawn towards the zero, and so does what
a correction hands out. -/
theorem drawsTo_of_affineAt
    (affine : AffineAt system q linear constant)
    (invertible : IsUnit linear)
    (solves : linear *ᵥ center.get = constant)
    (settings : Settings α)
    (seed : Vector (Complex α) n) :
    DrawsTo system settings q seed center := by
  have results : ∀ correction, (correct system settings seed q).outcome = .ok correction →
      ∃ count, correction.iterations = count + 1 ∧
        correction.roots = drawn center seed ((1 - settings.damping) ^ (count + 1)) := by
    intro correction corrected
    obtain ⟨count, before, ends⟩ := exists_endsWithStep corrected
    have final := (iterates?_succ ends.reached).trans ends.stepped
    rw [iterates?_of_affineAt affine invertible solves] at final
    exact ⟨count, ends.iterations, (Option.some.inj final).symm⟩
  refine ⟨?_, ?_, ?_, ?_⟩
  · intro count x reached
    have here := reached.iterates?_eq
    rw [Nat.add_sub_cancel, iterates?_of_affineAt affine invertible solves] at here
    obtain rfl := Option.some.inj here
    refine ⟨rfl, _, iterate_of_finite (count + 1) ?_ (Complex.allFinite_eq_true _)⟩
    rw [step?_of_affineAt affine invertible solves, drawn_drawn, pow_succ]
  · intro correction corrected
    obtain ⟨count, iterations, roots⟩ := results correction corrected
    rw [iterations, roots]
  · intro full correction corrected
    obtain ⟨count, _, roots⟩ := results correction corrected
    rw [roots, full, sub_self, zero_pow (Nat.succ_ne_zero count), drawn_zero]
  · intro accepted full two
    exact exists_correct_of_full_steps affine invertible solves accepted full two

end Reached

/-- On an affine system with an invertible linear part there is one zero, and every correction
draws its roots towards it. One root with one pair of constants is such a system at every
parameter but one. -/
theorem affine_iterations_contract :
    (∀ (n : Nat) (system : RootSystem α) (settings : Settings α)
        (seed : Vector (Complex α) n) (q : Complex α)
        (linear : Matrix (Fin n) (Fin n) (Complex α)) (constant : Fin n → Complex α),
      AffineAt system q linear constant →
      IsUnit linear →
      ∃ center : Vector (Complex α) n,
        (∀ y : Vector (Complex α) n, linear *ᵥ y.get = constant ↔ y = center) ∧
        DrawsTo system settings q seed center) ∧
    ∀ (config : Config (Complex α)) (q : Complex α),
      config.check = .ok ⟨⟩ →
      config.pairCount = 1 →
      q ≠ 1 →
      ∃ (linear : Matrix (Fin 1) (Fin 1) (Complex α)) (constant : Fin 1 → Complex α),
        AffineAt (.ofProductForm config.productForm) q linear constant ∧ IsUnit linear := by
  constructor
  · intro n system settings seed q linear constant affine invertible
    obtain ⟨center, only⟩ := exists_unique_zero invertible constant
    have solves := (only center).mpr rfl
    exact ⟨center, only, drawsTo_of_affineAt affine invertible solves settings seed⟩
  · rintro ⟨shifts, lefts, rights⟩ q valid single differs
    have paired := (Config.check_eq_ok_iff _).mp valid
    obtain ⟨left, rfl⟩ := List.length_eq_one_iff.mp single
    obtain ⟨right, rfl⟩ := List.length_eq_one_iff.mp (paired.symm.trans single)
    exact ⟨_, _, affineAt_onePair shifts left right q, isUnit_of_ne_one differs⟩

/-- The linear part of an affine map that mixes two roots. -/
def mixing : List (List (Complex ℚ)) :=
  [[⟨2, 0⟩, ⟨0, 1⟩], [0, 1]]

/-- Two full steps converge to the only zero. One root with one pair of constants is an affine
system at the parameter two. -/
theorem mixing_converges_with_full_steps :
    (∃ correction,
      (correct (RootSystem.affine mixing [⟨4, 1⟩, 1]) ⟨2, 1, 1, false⟩ #v[0, 0] 1).outcome =
        .ok correction ∧
      correction.roots = #v[⟨2, 0⟩, 1] ∧ correction.converged = true ∧
      correction.iterations ≤ 2) ∧
    ∃ (linear : Matrix (Fin 1) (Fin 1) (Complex ℚ)) (constant : Fin 1 → Complex ℚ),
      AffineAt (.ofProductForm
        (⟨⟨⟨0, 1⟩, 0, 0⟩, ⟨[⟨3, 0⟩], [1]⟩⟩ : Config (Complex ℚ)).productForm) ⟨2, 0⟩
        linear constant ∧ IsUnit linear := by
  obtain ⟨affine, onePair⟩ := affine_iterations_contract (α := ℚ)
  constructor
  · have invertible : IsUnit (Matrix.of fun i j : Fin 2 =>
        RootSystem.entryOf mixing i j) := by
      rw [Matrix.isUnit_iff_isUnit_det, det_fin_two]
      refine IsUnit.of_mul_eq_one ⟨1 / 2, 0⟩ ?_
      decide +kernel
    obtain ⟨center, only, draws⟩ := affine 2 _ ⟨2, 1, 1, false⟩ #v[0, 0] 1 _ _
      (affineAt_affine mixing [⟨4, 1⟩, 1] 2 1) invertible
    have zero : #v[⟨2, 0⟩, 1] = center := by
      apply (only _).mp
      decide +kernel
    obtain ⟨correction, corrected, converged, iterations⟩ :=
      draws.two (by decide +kernel) rfl (Nat.le_refl 2)
    exact ⟨correction, corrected, (draws.full rfl correction corrected).trans zero.symm,
      converged, iterations⟩
  · exact onePair _ ⟨2, 0⟩ (by decide +kernel) rfl (by decide +kernel)

end Corrector

end RootTrace
