import RootTrace.Proofs.ProductForm.Transfer

/-!
# Change of scalars

The equations and their derivatives use ring operations only, so a ring
homomorphism can be applied to the constants, the roots and the parameter before
or after they are formed.
-/

namespace RootTrace

universe u v

variable {K : Type u} {L : Type v} {n : Nat}

/-- Apply a map of the scalars to all constants of a family of equations. -/
def ProductForm.map (f : K → L) (form : ProductForm K) : ProductForm L where
  shifts := ⟨f form.shifts.first, f form.shifts.second, f form.shifts.third⟩
  pairs := form.pairs.map (Sides.map f)

namespace ProductForm

variable [CommRing K] [CommRing L]

/-! ## Factors -/

/-- Every factor is the image of a factor. -/
def mapTransfer (f : K →+* L) (form : ProductForm K) : Transfer form (form.map f) where
  point := f
  pair := Sides.map f
  factor := Sides.map f
  pairs_eq := rfl
  pairFactor_eq root constants := by
    simp [pairFactor, Sides.map]
  shiftFactors_eq root other := by
    simp [shiftFactors, Shifts.toList, map, Sides.map]

theorem map_shiftDerivative (f : K →+* L) (form : ProductForm K) (difference : K) :
    (form.shiftDerivative difference).map f =
      (form.map f).shiftDerivative (f difference) := by
  simp [shiftDerivative, pairProducts, map, Sides.map]

theorem map_times (f : K →+* L) (start : Sides K) (factors : List (Sides K)) :
    (start.times factors).map f = (start.map f).times (factors.map (Sides.map f)) := by
  rw [Sides.times_eq_mul_prod, Sides.times_eq_mul_prod, ← Sides.mapHom_apply, map_mul,
    map_list_prod]
  rfl

theorem map_start (f : K →+* L) (q : K) : (start q).map f = start (f q) :=
  Sides.ext rfl (map_one f)

/-! ## Equations and derivatives -/

/-- Applying a homomorphism to a residual is taking the residual of the images. -/
theorem map_residualAt
    (f : K →+* L)
    (form : ProductForm K)
    (x : Vector K n)
    (q : K)
    (i : Fin n) :
    f (form.residualAt x q i) = (form.map f).residualAt (x.map f) (f q) i := by
  rw [(mapTransfer f form).residualAt_eq (Vector.get_map x f), residualAt,
    ← Sides.difference_map, map_times, map_start]
  rfl

theorem map_pairTerm
    (f : K →+* L)
    (form : ProductForm K)
    (x : Vector K n)
    (q : K)
    (i : Fin n)
    {k : Fin form.pairs.length}
    {l : Fin (form.map f).pairs.length}
    (same : l.val = k.val) :
    f (form.pairTerm x q i k) = (form.map f).pairTerm (x.map f) (f q) i l := by
  rw [(mapTransfer f form).pairTerm_eq (Vector.get_map x f) (f q) i same, pairTerm,
    ← Sides.difference_map, map_times, map_start]
  rfl

theorem map_differenceTerm
    (f : K →+* L)
    (form : ProductForm K)
    (x : Vector K n)
    (q : K)
    (i k : Fin n) :
    f (form.differenceTerm x q i k) = (form.map f).differenceTerm (x.map f) (f q) i k := by
  rw [(mapTransfer f form).differenceTerm_eq (Vector.get_map x f), differenceTerm,
    ← Sides.difference_map, map_times, map_start, List.map_append, List.map_singleton,
    map_shiftDerivative, map_sub]
  rfl

theorem map_derivative
    (f : K →+* L)
    (form : ProductForm K)
    (x : Vector K n)
    (q : K)
    (i j : Fin n) :
    f (form.derivative x q i j) = (form.map f).derivative (x.map f) (f q) i j := by
  have terms := derivative_of_terms (mapTransfer f form).length_pairs_eq (Equiv.refl (Fin n))
    f.toAddMonoidHom (AddMonoidHom.id L)
    (fun k l same => (map_pairTerm f form x q i same).symm)
    (fun k _ => (map_differenceTerm f form x q i k).symm) j
  exact terms.symm

end ProductForm
end RootTrace
