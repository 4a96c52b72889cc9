import RootTrace.Proofs.Finiteness.Scalars

/-!
# Sums of lengths

The length of a plane vector with finite coordinates is a number that is not below zero, and
so is a sum of such lengths: it can overflow, but it is never indeterminate. The difference
of two sums is therefore indeterminate only if both have overflowed. Then it is so even if
the sums are the same, while a finite sum differs from itself by zero.
-/

namespace RootTrace

namespace Binary64

open Float.Model UnpackedFloat

/-! ## Signs -/

/-- The sign of a double. Only an indeterminate one has none. -/
def sign? : UnpackedFloat → Option Sign
  | .notANumber => none
  | .infinity sign => some sign
  | .zero sign => some sign
  | .finite sign _ _ _ => some sign

variable {x y : UnpackedFloat}

theorem isNaN_eq_false_iff : x.isNaN = false ↔ sign? x ≠ none := by
  cases x <;> simp [sign?, UnpackedFloat.isNaN]

theorem isNaN_eq_false_of_ne (number : x ≠ .notANumber) : x.isNaN = false := by
  cases x with
  | notANumber => exact absurd rfl number
  | infinity | zero | finite => rfl

theorem ofBitVec_toBitVec (sign : Sign) : Sign.ofBitVec sign.toBitVec = sign := by
  cases sign <;> rfl

/-- The sign stands in front of the packed bits, where unpacking finds it again. -/
theorem unpackSign_packComponents
    {format : Format}
    (sign : Sign)
    (exponent : BitVec format.exponentBits)
    (mantissa : BitVec format.mantissaBitsWithoutImplicit) :
    unpackSign (packComponents format sign exponent mantissa) = sign.toBitVec := by
  ext i inside
  obtain rfl : i = 0 := by omega
  simp [unpackSign, packComponents, BitVec.getLsbD_append, BitVec.getElem_append]

/-- A bit pattern is indeterminate only if all bits of the exponent are set and some bit of
the mantissa is. -/
theorem sign?_unpack_packComponents
    {sign : Sign}
    {exponent : BitVec Format.binary64.exponentBits}
    {mantissa : BitVec Format.binary64.mantissaBitsWithoutImplicit}
    (determinate : exponent = -1#_ → mantissa = 0#_) :
    sign? (UnpackedFloat.unpack Format.binary64
        (packComponents Format.binary64 sign exponent mantissa)) =
      some sign := by
  unfold UnpackedFloat.unpack
  simp only [unpackExponent_packComponents, unpackMantissa_packComponents,
    unpackSign_packComponents, ofBitVec_toBitVec]
  by_cases highest : exponent = -1#_
  · rw [if_pos highest, if_pos (determinate highest)]
    rfl
  · rw [if_neg highest]
    by_cases lowest : exponent = 0#_
    · rw [if_pos lowest]
      split <;> rfl
    · rw [if_neg lowest]
      rfl

/-- Packing keeps every sign: a number can overflow, but it does not change its sign. -/
theorem sign?_unpack_pack (x : UnpackedFloat) : sign? (Float.Model.pack x).unpack = sign? x := by
  change sign? (UnpackedFloat.unpack Format.binary64
    (UnpackedFloat.pack Format.binary64 x)) = sign? x
  cases x with
  | notANumber => rfl
  | infinity sign => exact sign?_unpack_packComponents fun _ => rfl
  | zero sign => exact sign?_unpack_packComponents fun _ => rfl
  | finite sign m e positive =>
      unfold UnpackedFloat.pack
      dsimp only
      split
      · exact sign?_unpack_packComponents fun _ => rfl
      · rename_i inside
        split
        · apply sign?_unpack_packComponents
          intro highest
          have value := congrArg BitVec.toNat highest
          have allSet : (-BitVec.ofNat Format.binary64.exponentBits 1).toNat = 2 ^ 11 - 1 := by
            decide
          rw [BitVec.toNat_ofNat, Nat.mod_eq_of_lt (by omega), allSet] at value
          omega
        · apply sign?_unpack_packComponents
          intro highest
          exact absurd highest (by decide)

/-- Rounding keeps the sign. -/
theorem sign?_roundWithAccuracy
    (format : Format)
    (sign : Sign)
    (m : Nat)
    (e : Int)
    (accuracy : Accuracy) :
    sign? (UnpackedFloat.roundWithAccuracy format sign m e accuracy) = some sign := by
  unfold UnpackedFloat.roundWithAccuracy
  dsimp only
  split <;> rfl

theorem sign?_round (format : Format) (sign : Sign) (m : Nat) (e : Int) :
    sign? (UnpackedFloat.round format sign m e) = some sign :=
  sign?_roundWithAccuracy _ _ _ _ _

theorem sign?_abs_ne_none (number : sign? x ≠ none) : sign? x.abs ≠ none := by
  cases x with
  | notANumber => exact absurd rfl number
  | infinity | zero | finite => exact Option.some_ne_none _

theorem sign?_normalize_ne_none (m e : Int) :
    sign? (UnpackedFloat.normalize Format.binary64 m e .positive) ≠ none := by
  unfold UnpackedFloat.normalize
  split
  · rw [sign?_round]
    exact Option.some_ne_none _
  · exact Option.some_ne_none _
  · rw [sign?_round]
    exact Option.some_ne_none _

/-- Taking a number away from a finite one never makes it indeterminate. -/
theorem sign?_sub_ne_none
    (finite : x.isFinite = true)
    (number : sign? y ≠ none) :
    sign? (UnpackedFloat.sub Format.binary64 x y) ≠ none := by
  cases x with
  | infinity | notANumber => cases finite
  | zero sign =>
      cases y with
      | notANumber => exact absurd rfl number
      | infinity | finite => exact Option.some_ne_none _
      | zero other =>
          unfold UnpackedFloat.sub
          dsimp only
          split <;> exact Option.some_ne_none _
  | finite sign m e positive =>
      cases y with
      | notANumber => exact absurd rfl number
      | infinity | zero => exact Option.some_ne_none _
      | finite => exact sign?_normalize_ne_none _ _

/-! ## Doubles that are not below zero -/

/-- One of the two zeros, or a number of positive sign. -/
inductive Nonnegative : UnpackedFloat → Prop where
  | zero (sign : Sign) : Nonnegative (.zero sign)
  | infinity : Nonnegative (.infinity .positive)
  | finite (m : Nat) (e : Int) (positive : 0 < m) :
      Nonnegative (.finite .positive m e positive)

theorem Nonnegative.sign?_ne_none (nonnegative : Nonnegative x) : sign? x ≠ none := by
  cases nonnegative <;> exact Option.some_ne_none _

theorem nonnegative_of_sign? (positive : sign? x = some .positive) : Nonnegative x := by
  cases x with
  | notANumber => cases positive
  | infinity sign =>
      cases positive
      exact .infinity
  | zero sign => exact .zero sign
  | finite sign m e mantissa =>
      cases positive
      exact .finite m e mantissa

/-- Packing and unpacking does not make a number negative. -/
theorem Nonnegative.unpack_pack (nonnegative : Nonnegative x) :
    Nonnegative (Float.Model.pack x).unpack := by
  cases nonnegative with
  | zero sign =>
      have kept : (Float.Model.pack (.zero sign)).unpack = .zero sign := by
        cases sign <;> rfl
      rw [kept]
      exact .zero sign
  | infinity => exact nonnegative_of_sign? (sign?_unpack_pack _)
  | finite => exact nonnegative_of_sign? (sign?_unpack_pack _)

theorem nonnegative_normalize {m : Int} (nonnegative : 0 ≤ m) (e : Int) :
    Nonnegative (UnpackedFloat.normalize Format.binary64 m e .positive) := by
  unfold UnpackedFloat.normalize
  split
  · rename_i below
    exact absurd (compare_lt_iff_lt.mp below) (not_lt.mpr nonnegative)
  · exact .zero .positive
  · exact nonnegative_of_sign? (sign?_round _ _ _ _)

/-- Nothing can cancel where nothing is below zero. -/
theorem Nonnegative.add (first : Nonnegative x) (second : Nonnegative y) :
    Nonnegative (UnpackedFloat.add Format.binary64 x y) := by
  cases first with
  | zero sign =>
      cases second with
      | zero other =>
          unfold UnpackedFloat.add
          dsimp only
          split <;> exact .zero _
      | infinity => exact .infinity
      | finite m e positive => exact .finite m e positive
  | infinity =>
      cases second <;> exact .infinity
  | finite m e positive =>
      cases second with
      | zero => exact .finite m e positive
      | infinity => exact .infinity
      | finite => exact nonnegative_normalize (Int.add_nonneg (Int.natCast_nonneg _)
          (Int.natCast_nonneg _)) _

theorem Nonnegative.abs (finite : x.isFinite = true) : Nonnegative x.abs := by
  cases x with
  | infinity | notANumber => cases finite
  | zero => exact .zero .positive
  | finite _ m e positive => exact .finite m e positive

/-- The length of a plane vector with finite coordinates is not below zero. -/
theorem nonnegative_lengthUnpacked
    (first : x.isFinite = true)
    (second : y.isFinite = true) :
    Nonnegative (lengthUnpacked x y) := by
  cases x with
  | infinity | notANumber => cases first
  | zero =>
      cases y with
      | infinity | notANumber => cases second
      | zero | finite => exact .abs second
  | finite =>
      cases y with
      | infinity | notANumber => cases second
      | zero => exact .abs first
      | finite =>
          unfold lengthUnpacked
          dsimp only
          split
          · exact .zero .positive
          · exact nonnegative_of_sign? (sign?_roundWithAccuracy _ _ _ _ _)

/-! ## Differences -/

/-- A finite number minus itself is positive zero. -/
theorem sub_self_of_isFinite (finite : x.isFinite = true) :
    UnpackedFloat.sub Format.binary64 x x = .zero .positive := by
  cases x with
  | infinity | notANumber => cases finite
  | zero sign => cases sign <;> rfl
  | finite =>
      unfold UnpackedFloat.sub
      dsimp only
      rw [Int.sub_self]
      rfl

theorem sub_self_of_not_isFinite (infinite : x.isFinite = false) :
    UnpackedFloat.sub Format.binary64 x x = .notANumber := by
  cases x with
  | infinity sign => cases sign <;> rfl
  | notANumber => rfl
  | zero | finite => cases infinite

end Binary64

/-! ## Sums of moduli -/

namespace Complex

open Binary64

variable {values : List (Complex Float)} {z : Complex Float}

theorem nonnegative_modulus (finite : z.isFinite = true) :
    Nonnegative z.modulus.toModel.unpack := by
  obtain ⟨re, im⟩ := isFinite_eq_true_iff.mp finite
  exact (nonnegative_lengthUnpacked re im).unpack_pack

/-- A sum of moduli of finite numbers can be infinite, but not indeterminate. -/
theorem nonnegative_absSum (finite : allFinite values = true) :
    Nonnegative (absSum values).toModel.unpack := by
  have keeps : ∀ (values : List (Complex Float)) (sum : Float),
      allFinite values = true → Nonnegative sum.toModel.unpack →
      Nonnegative (values.foldl (fun sum z => sum + z.modulus) sum).toModel.unpack := by
    intro values
    induction values with
    | nil =>
        intro sum _ nonnegative
        exact nonnegative
    | cons z values inductionHypothesis =>
        intro sum finite nonnegative
        obtain ⟨first, rest⟩ := Bool.and_eq_true_iff.mp finite
        exact inductionHypothesis _ rest
          (nonnegative.add (nonnegative_modulus first)).unpack_pack
  exact keeps values _ finite (.zero .negative)

end Complex

end RootTrace
