import RootTrace.Proofs.ProductForm.Map
import RootTrace.Proofs.Symmetry.Transport

/-!
# Complex conjugation

Conjugation is a ring homomorphism, so conjugate constants, roots and parameters have
conjugate residuals and derivatives. If it keeps moduli, it is a symmetry, although the
real embedding of conjugate derivatives has its signs in other places. The solver therefore
arrives at conjugate roots, and does not leave the real numbers once everything it is given
is real.
-/

namespace RootTrace

universe u

variable {α : Type u} {n : Nat}

namespace Complex

/-- The complex conjugate. -/
def conj [Neg α] (z : Complex α) : Complex α :=
  ⟨z.re, -z.im⟩

@[simp] theorem conj_re [Neg α] (z : Complex α) : z.conj.re = z.re := rfl

@[simp] theorem conj_im [Neg α] (z : Complex α) : z.conj.im = -z.im := rfl

variable [CommRing α]

theorem conj_conj (z : Complex α) : z.conj.conj = z := by
  ext <;> simp

/-- Conjugation as a ring homomorphism. -/
def conjHom : Complex α →+* Complex α where
  toFun := conj
  map_one' := by ext <;> simp
  map_mul' z w := by
    ext
    · simp
    · simp only [conj_re, conj_im, mul_im]
      ring
  map_zero' := by ext <;> simp
  map_add' z w := by
    ext
    · simp
    · simp only [conj_im, add_im]
      ring

theorem conj_scale (z : Complex α) (factor : α) :
    (z.scale factor).conj = z.conj.scale factor := by
  ext <;> simp

/-- A complex number is its own conjugate exactly if it is real. -/
theorem conj_eq_self_iff
    {α : Type u} [Field α] [LinearOrder α] [IsStrictOrderedRing α]
    (z : Complex α) :
    z.conj = z ↔ z.im = 0 := by
  constructor
  · intro same
    exact neg_eq_self.mp (congrArg im same)
  · intro real
    ext
    · rfl
    · rw [conj_im, real, neg_zero]

end Complex

/-! ## Steps -/

section Steps

open Matrix Corrector

variable [Field α]

/-- The conjugate of a matrix is invertible exactly if the matrix is. -/
theorem isUnit_map_conj_iff (a : Matrix (Fin n) (Fin n) (Complex α)) :
    IsUnit (a.map Complex.conj) ↔ IsUnit a := by
  constructor
  · intro invertible
    have twice : (Complex.conj ∘ Complex.conj : Complex α → Complex α) = id :=
      funext Complex.conj_conj
    have again : IsUnit ((a.map Complex.conj).map Complex.conj) :=
      invertible.map Complex.conjHom.mapMatrix
    rwa [Matrix.map_map, twice, Matrix.map_id] at again
  · intro invertible
    exact invertible.map Complex.conjHom.mapMatrix

variable (form : ProductForm (Complex α)) (x : Vector (Complex α) n) (q : Complex α)

theorem toMatrix_jacobian_conj :
    ((RootSystem.ofProductForm (form.map Complex.conj)).jacobian (x.map Complex.conj)
        q.conj).toMatrix =
      ((RootSystem.ofProductForm form).jacobian x q).toMatrix.map Complex.conj := by
  rw [RootSystem.toMatrix_jacobian_ofProductForm, RootSystem.toMatrix_jacobian_ofProductForm]
  apply Matrix.ext
  intro i j
  exact (ProductForm.map_derivative Complex.conjHom form x q i j).symm

/-- Conjugate constants, roots and parameters have conjugate residuals, damped or not. -/
theorem dampedResidual_conj (damping : α) :
    dampedResidual (.ofProductForm (form.map Complex.conj)) damping q.conj (x.map Complex.conj) =
      Complex.conj ∘ dampedResidual (.ofProductForm form) damping q x := by
  funext i
  rw [Function.comp_apply, dampedResidual, dampedResidual,
    RootSystem.get_residual_ofProductForm, RootSystem.get_residual_ofProductForm,
    Complex.conj_scale]
  exact congrArg (Complex.scale · damping)
    (ProductForm.map_residualAt Complex.conjHom form x q i).symm

theorem absSum_conj
    [Magnitude α]
    (modulus_conj : ∀ z : Complex α, z.conj.modulus = z.modulus) :
    Complex.absSum (x.map Complex.conj).toList = Complex.absSum x.toList := by
  rw [Vector.toList_map, Complex.absSum, Complex.absSum, List.foldl_map]
  simp only [modulus_conj]

/-- Conjugation is a symmetry if it keeps moduli. -/
theorem symmetry_conj
    [LinearOrder α] [IsStrictOrderedRing α] [Magnitude α] [ExactMagnitude α]
    (modulus_conj : ∀ z : Complex α, z.conj.modulus = z.modulus)
    (damping : α) :
    Symmetry (.ofProductForm form) (.ofProductForm (form.map Complex.conj)) damping
      (Vector.map Complex.conj : Vector (Complex α) n → _) Complex.conj := by
  apply Symmetry.ofNewton
  case invertible =>
    intro q x
    rw [toMatrix_jacobian_conj]
    exact isUnit_map_conj_iff _
  case solves =>
    intro q x y solved
    have moved : (x.map Complex.conj).get - (y.map Complex.conj).get =
        Complex.conj ∘ (x.get - y.get) := by
      funext i
      rw [Pi.sub_apply, Vector.get_map, Vector.get_map]
      exact (map_sub Complex.conjHom (x.get i) (y.get i)).symm
    rw [toMatrix_jacobian_conj, dampedResidual_conj, moved, ← solved]
    funext i
    exact (Complex.conjHom.map_mulVec _ _ i).symm
  case absSum => exact fun x => absSum_conj x modulus_conj

end Steps

/-! ## Constants and trajectories -/

namespace Config

/-- Apply a map of the scalars to all constants. -/
def map {K L : Type u} (f : K → L) (config : Config K) : Config L where
  shifts := ⟨f config.shifts.first, f config.shifts.second, f config.shifts.third⟩
  constants := ⟨config.constants.left.map f, config.constants.right.map f⟩

/-- All constants. -/
def scalars {K : Type u} (config : Config K) : List K :=
  config.shifts.toList ++ (config.constants.left ++ config.constants.right)

theorem productForm_map {K L : Type u} (f : K → L) (config : Config K) :
    (config.map f).productForm = config.productForm.map f := by
  rw [productForm, productForm, map, ProductForm.map, List.zipWith_map, List.map_zipWith]
  rfl

theorem map_eq_self
    {K : Type u}
    {f : K → K}
    {config : Config K}
    (fixed : ∀ constant ∈ config.scalars, f constant = constant) :
    config.map f = config := by
  obtain ⟨⟨first, second, third⟩, left, right⟩ := config
  simp only [scalars, Shifts.toList, List.mem_append, List.mem_cons, List.not_mem_nil, or_false,
    or_imp, forall_and, forall_eq] at fixed
  obtain ⟨⟨sameFirst, sameSecond, sameThird⟩, sameLeft, sameRight⟩ := fixed
  rw [map, sameFirst, sameSecond, sameThird, List.map_congr_left sameLeft, List.map_id',
    List.map_congr_left sameRight, List.map_id']

/-- Over exact arithmetic only the numbers of constants are checked. -/
theorem check_map
    [Field α] [LinearOrder α] [Magnitude α] [ExactMagnitude α]
    (f : Complex α → Complex α)
    (config : Config (Complex α)) :
    (config.map f).check = config.check := by
  rw [check, check, isFinite_eq_true, isFinite_eq_true, map, List.length_map,
    List.length_map]

theorem equations_map
    [Field α] [LinearOrder α] [Magnitude α] [ExactMagnitude α]
    (f : Complex α → Complex α)
    (config : Config (Complex α)) :
    (config.map f).equations = config.equations.map fun form => form.map f := by
  rw [equations, equations, check_map, productForm_map]
  cases config.check with
  | error fault => rfl
  | ok accepted => rfl

end Config

/-- Apply a map of the scalars to all roots. -/
def Trajectory.map (f : Complex α → Complex α) (trajectory : Trajectory α) :
    Trajectory α where
  components := trajectory.components.map (List.map f)
  unconvergedSteps := trajectory.unconvergedSteps

theorem Track.trajectory_map (f : Complex α → Complex α) (track : Track α n) :
    (track.map (Vector.map f)).trajectory = track.trajectory.map f := by
  have component : ∀ k : Fin n,
      (track.map (Vector.map f)).steps.map (fun roots => roots.get k) =
        (track.steps.map fun roots => roots.get k).map f := by
    intro k
    rw [map, List.map_map, List.map_map]
    congr 1
    funext roots
    rw [Function.comp_apply, Function.comp_apply, Vector.get_map]
  rw [trajectory, trajectory, Trajectory.map, List.map_map]
  congr 1
  exact List.map_congr_left fun k _ => component k

/-- A trajectory that is its own conjugate is real. -/
theorem Trajectory.real_of_map_conj_eq_self
    [Field α] [LinearOrder α] [IsStrictOrderedRing α]
    {trajectory : Trajectory α}
    (same : trajectory.map Complex.conj = trajectory) :
    ∀ component ∈ trajectory.components, ∀ root ∈ component, root.im = 0 := by
  have fixed : ∀ component ∈ trajectory.components, component.map Complex.conj = component :=
    List.map_inj_left.mp
      ((congrArg Trajectory.components same).trans (List.map_id _).symm)
  intro component member root among
  have sameRoot : root.conj = root :=
    List.map_inj_left.mp ((fixed component member).trans (List.map_id _).symm) root among
  exact (Complex.conj_eq_self_iff root).mp sameRoot

/-! ## Whole paths -/

section Paths

variable [Field α] [LinearOrder α] [IsStrictOrderedRing α] [Magnitude α] [ExactMagnitude α]

theorem outcome_trajectory_conj
    (modulus_conj : ∀ z : Complex α, z.conj.modulus = z.modulus)
    (form : ProductForm (Complex α))
    (settings : Settings α)
    (seed : Vector (Complex α) n)
    (path : List (Complex α)) :
    ((Problem.mk (.ofProductForm (form.map Complex.conj)) settings
        (seed.map Complex.conj)).trajectory (path.map Complex.conj)).outcome =
      carry (Failure.map Complex.conj) (Trajectory.map Complex.conj)
        ((Problem.mk (.ofProductForm form) settings seed).trajectory path).outcome := by
  have carried := (symmetry_conj form modulus_conj settings.damping).outcome_trajectory
    ⟨.ofProductForm form, settings, seed⟩ path
  refine carried.trans ?_
  rw [Problem.trajectory, Run.outcome_map]
  cases ((Problem.mk (.ofProductForm form) settings seed).trace path).outcome with
  | error failure => rfl
  | ok track => exact congrArg Except.ok (track.trajectory_map Complex.conj)

/-- The solver commutes with conjugation, as long as that keeps moduli. Conjugate constants are
accepted exactly if the constants are, and describe the conjugate equations. From a conjugate seed
along a conjugate path the solver arrives at the conjugate trajectory, with the same steps that
did not converge, or fails at the same point for the same cause. If constants, seed and path are
real, the conjugate run is the run itself, so every root that it arrives at is real. -/
theorem solver_commutes_with_conjugation
    (modulus_conj : ∀ z : Complex α, z.conj.modulus = z.modulus)
    (config : Config (Complex α))
    (settings : Settings α)
    (seed : Vector (Complex α) n)
    (path : List (Complex α)) :
    (config.map Complex.conj).equations =
        config.equations.map (fun form => form.map Complex.conj) ∧
    ((Problem.mk (.ofProductForm (config.map Complex.conj).productForm) settings
        (seed.map Complex.conj)).trajectory (path.map Complex.conj)).outcome =
      carry (Failure.map Complex.conj) (Trajectory.map Complex.conj)
        ((Problem.mk (.ofProductForm config.productForm) settings seed).trajectory
          path).outcome ∧
    ((∀ constant ∈ config.scalars, constant.im = 0) → (∀ i, (seed.get i).im = 0) →
      (∀ q ∈ path, q.im = 0) → ∀ trajectory,
        ((Problem.mk (.ofProductForm config.productForm) settings seed).trajectory
            path).outcome = .ok trajectory →
          ∀ component ∈ trajectory.components, ∀ root ∈ component, root.im = 0) := by
  have commutes := outcome_trajectory_conj modulus_conj config.productForm settings seed path
  rw [← Config.productForm_map] at commutes
  refine ⟨config.equations_map Complex.conj, commutes, ?_⟩
  intro realConstants realSeed realPath trajectory followed
  have sameConfig : config.map Complex.conj = config := by
    apply Config.map_eq_self
    intro constant member
    exact (Complex.conj_eq_self_iff constant).mpr (realConstants constant member)
  have sameSeed : seed.map Complex.conj = seed := by
    apply Vector.ext
    intro index inside
    rw [Vector.getElem_map]
    exact (Complex.conj_eq_self_iff _).mpr (realSeed ⟨index, inside⟩)
  have samePath : path.map Complex.conj = path := by
    rw [List.map_congr_left fun q member =>
      (Complex.conj_eq_self_iff q).mpr (realPath q member), List.map_id']
  rw [sameConfig, sameSeed, samePath, followed] at commutes
  exact Trajectory.real_of_map_conj_eq_self (Except.ok.inj commutes).symm

end Paths

/-- The equation of one root with the left constant `i` and the right constant one. -/
def imaginaryPair : Config (Complex ℚ) :=
  ⟨⟨0, 0, 0⟩, ⟨[⟨0, 1⟩], [⟨1, 0⟩]⟩⟩

/-- At the parameter `2 + i` the root of the equation is `2 * i`, so that of the conjugate
equation at the conjugate parameter is `-2 * i`. -/
theorem solver_commutes_with_conjugation_of_imaginaryPair :
    ((Problem.mk (.ofProductForm (imaginaryPair.map Complex.conj).productForm) ⟨1, 1, 1, false⟩
        (Vector.map Complex.conj #v[⟨0, 1⟩])).trajectory
          ([⟨2, 1⟩].map Complex.conj)).outcome = .ok ⟨[[⟨0, -2⟩]], [0]⟩ := by
  have modulus_conj : ∀ z : Complex ℚ, z.conj.modulus = z.modulus := by
    intro z
    exact congrArg (|z.re| + ·) (abs_neg z.im)
  have followed :
      ((Problem.mk (.ofProductForm imaginaryPair.productForm) ⟨1, 1, 1, false⟩
          #v[⟨0, 1⟩]).trajectory [⟨2, 1⟩]).outcome = .ok ⟨[[⟨0, 2⟩]], [0]⟩ := by
    decide +kernel
  have commutes := (solver_commutes_with_conjugation modulus_conj imaginaryPair
    ⟨1, 1, 1, false⟩ #v[⟨0, 1⟩] [⟨2, 1⟩]).2.1
  rw [followed] at commutes
  exact commutes

end RootTrace
