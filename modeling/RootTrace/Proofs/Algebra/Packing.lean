import RootTrace.Proofs.Algebra.Lengths
import RootTrace.Proofs.Algebra.Rounding

/-!
# Bit patterns of doubles

The bit pattern of a finite double holds its mantissa and its exponent in the form of the
format, and the highest exponents are left to infinity. Packing a number in this form and
unpacking it again therefore changes nothing, unless the exponent is too high for the format.
-/

namespace RootTrace

namespace Binary64

open Float.Model UnpackedFloat

/-! ## Components -/

section Components

variable {sign : Sign} {exponent : BitVec 11} {mantissa : BitVec 52}

theorem toNat_one_append (mantissa : BitVec 52) :
    (1#1 ++ mantissa).toNat = 2 ^ 52 + mantissa.toNat := by
  rw [BitVec.toNat_append, ← Nat.shiftLeft_add_eq_or_of_lt mantissa.isLt]
  rfl

/-- What a bit pattern stands for, by the three kinds of exponents. -/
theorem unpack_packComponents (sign : Sign) (exponent : BitVec 11) (mantissa : BitVec 52) :
    UnpackedFloat.unpack Format.binary64 (packComponents Format.binary64 sign exponent mantissa) =
      if exponent = -1#11 then
        if mantissa = 0#52 then .infinity sign else .notANumber
      else if exponent = 0#11 then
        if nothing : mantissa = 0#52 then .zero sign
        else .finite sign mantissa.toNat (-1074)
          (BitVec.toNat_pos_of_ne_zero nothing)
      else
        .finite sign (2 ^ 52 + mantissa.toNat) (exponent.toNat - 1075)
          (Nat.add_pos_left (Nat.two_pow_pos 52) _) := by
  unfold UnpackedFloat.unpack
  simp only [unpackExponent_packComponents, unpackMantissa_packComponents,
    unpackSign_packComponents, ofBitVec_toBitVec, toNat_one_append]
  split
  · rfl
  · split
    · rename_i lowest
      rw [lowest]
      rfl
    · rfl

theorem packComponents_unpack (bits : BitVec Format.binary64.numBits) :
    packComponents Format.binary64 (Sign.ofBitVec (unpackSign bits)) (unpackExponent bits)
      (unpackMantissa bits) = bits := by
  have kept (sign : BitVec 1) : (Sign.ofBitVec sign).toBitVec = sign := by
    revert sign
    decide
  simp only [packComponents, kept, unpackSign, unpackExponent, unpackMantissa, BitVec.extractLsb]
  ext i inside
  grind

/-- Every bit pattern has its three components. -/
theorem exists_packComponents (bits : BitVec Format.binary64.numBits) :
    ∃ (sign : Sign) (exponent : BitVec 11) (mantissa : BitVec 52),
      packComponents Format.binary64 sign exponent mantissa = bits :=
  ⟨_, _, _, packComponents_unpack bits⟩

end Components

/-! ## Packing and unpacking -/

theorem unpack_pack (x : UnpackedFloat) :
    (Float.Model.pack x).unpack =
      UnpackedFloat.unpack Format.binary64 (UnpackedFloat.pack Format.binary64 x) :=
  rfl

@[simp] theorem unpack_pack_zero (sign : Sign) :
    (Float.Model.pack (.zero sign)).unpack = .zero sign := by
  cases sign <;> rfl

@[simp] theorem unpack_pack_infinity (sign : Sign) :
    (Float.Model.pack (.infinity sign)).unpack = .infinity sign := by
  cases sign <;> rfl

section Finite

variable {sign : Sign} {m : ℕ} {e : ℤ} {positive : 0 < m}

/-- The implicit first digit of a full mantissa is left out. -/
theorem pack_finite :
    UnpackedFloat.pack Format.binary64 (.finite sign m e positive) =
      if 2047 ≤ (e + 1075).toNat then packedInfinity Format.binary64 sign
      else packComponents Format.binary64 sign
        (BitVec.ofNat 11 (if m.log2 = 52 then (e + 1075).toNat else 0)) (BitVec.ofNat 52 m) := by
  have biased : (e + Format.binary64.exponentBias + 52).toNat = (e + 1075).toNat := by
    rw [show (Format.binary64.exponentBias : ℤ) = 1023 from rfl, add_assoc]
    rfl
  have digits : m.log2 + 1 = Format.binary64.mantissaBits ↔ m.log2 = 52 := by
    rw [show Format.binary64.mantissaBits = 52 + 1 from rfl, Nat.add_right_cancel_iff]
  have overflow : 2 ^ 11 ≤ (e + 1075).toNat + 1 ↔ 2047 ≤ (e + 1075).toNat := by omega
  unfold UnpackedFloat.pack
  simp only [biased, digits, overflow, Nat.cast_ofNat]
  by_cases full : m.log2 = 52
  · rw [if_pos full, if_pos full]
  · rw [if_neg full, if_neg full]

/-- A number that the format holds survives packing. Its exponent field is the lowest one exactly
if its mantissa is not full. -/
theorem unpack_pack_finite (canonical : Canonical m e) (inside : e ≤ 971) :
    (Float.Model.pack (.finite sign m e positive)).unpack = .finite sign m e positive := by
  obtain ⟨fits, above, full⟩ := canonical
  rw [unpack_pack, pack_finite, if_neg (by omega), unpack_packComponents]
  by_cases long : 2 ^ 52 ≤ m
  · have digits : m.log2 = 52 := (Nat.log2_eq_iff positive.ne').mpr ⟨long, fits⟩
    have biased : (BitVec.ofNat 11 (e + 1075).toNat).toNat = (e + 1075).toNat :=
      Nat.mod_eq_of_lt (by omega)
    have notHighest : BitVec.ofNat 11 (e + 1075).toNat ≠ -1#11 := by
      rw [← BitVec.toNat_ne_iff_ne, biased]
      exact Nat.ne_of_lt (by simpa using by omega)
    have notLowest : BitVec.ofNat 11 (e + 1075).toNat ≠ 0#11 := by
      rw [← BitVec.toNat_ne_iff_ne, biased]
      exact Nat.ne_of_gt (by simpa using by omega)
    rw [if_pos digits, if_neg notHighest, if_neg notLowest]
    congr 1
    · rw [BitVec.toNat_ofNat]
      omega
    · rw [biased]
      omega
  · obtain rfl : e = -1074 := full.resolve_left long
    have digits : m.log2 ≠ 52 := fun digits =>
      long ((Nat.le_log2 positive.ne').mp digits.ge)
    have kept : (BitVec.ofNat 52 m).toNat = m := Nat.mod_eq_of_lt (by omega)
    have something : BitVec.ofNat 52 m ≠ 0#52 := by
      rw [← BitVec.toNat_ne_iff_ne, kept]
      exact positive.ne'
    rw [if_neg digits, if_neg (by decide), if_pos rfl, dif_neg something]
    congr 1

/-- A number that is too large for the format becomes infinite. -/
theorem unpack_pack_overflow (outside : 972 ≤ e) :
    (Float.Model.pack (.finite sign m e positive)).unpack = .infinity sign := by
  rw [unpack_pack, pack_finite, if_pos (by omega)]
  exact unpack_pack_infinity sign

end Finite

/-- What unpacking finds is a number that the format holds. -/
theorem canonical_of_unpack
    {x : Float.Model}
    {sign : Sign}
    {m : ℕ}
    {e : ℤ}
    {positive : 0 < m}
    (unpacked : x.unpack = .finite sign m e positive) :
    Canonical m e ∧ e ≤ 971 := by
  obtain ⟨sign', exponent, mantissa, same⟩ := exists_packComponents x.toBits.toBitVec
  rw [Float.Model.unpack, ← same, unpack_packComponents] at unpacked
  have exponentBound : exponent.toNat < 2 ^ 11 := exponent.isLt
  have mantissaBound : mantissa.toNat < 2 ^ 52 := mantissa.isLt
  split at unpacked
  · split at unpacked <;> cases unpacked
  · rename_i notHighest
    split at unpacked
    · split at unpacked
      · cases unpacked
      · cases unpacked
        exact ⟨⟨by omega, le_rfl, .inr rfl⟩, by omega⟩
    · rename_i notLowest
      cases unpacked
      have highest : exponent.toNat ≠ 2047 := fun high => notHighest (BitVec.eq_of_toNat_eq high)
      have lowest : exponent.toNat ≠ 0 := fun low => notLowest (BitVec.eq_of_toNat_eq low)
      exact ⟨⟨by omega, by omega, .inl (by omega)⟩, by omega⟩

/-- A finite double is zero, or it is in the form of the format. -/
theorem unpack_of_isFinite {x : Float.Model} (finite : x.isFinite = true) :
    (∃ sign, x.unpack = .zero sign) ∨
      ∃ sign m e positive, x.unpack = .finite sign m e positive ∧ Canonical m e ∧ e ≤ 971 := by
  change x.unpack.isFinite = true at finite
  cases unpacked : x.unpack with
  | infinity | notANumber =>
      rw [unpacked] at finite
      cases finite
  | zero sign => exact .inl ⟨sign, rfl⟩
  | finite sign m e positive =>
      exact .inr ⟨sign, m, e, positive, rfl, canonical_of_unpack unpacked⟩

/-- No bit is lost of a double that is a finite number. -/
theorem pack_unpack {x : Float.Model} (finite : x.isFinite = true) :
    Float.Model.pack x.unpack = x := by
  obtain ⟨bits, valid⟩ := x
  obtain ⟨sign, exponent, mantissa, same⟩ := exists_packComponents bits.toBitVec
  have exponentBound : exponent.toNat < 2 ^ 11 := exponent.isLt
  have mantissaBound : mantissa.toNat < 2 ^ 52 := mantissa.isLt
  replace finite : (UnpackedFloat.unpack Format.binary64 bits.toBitVec).isFinite = true := finite
  rw [← same, unpack_packComponents] at finite
  have repacked : UnpackedFloat.pack Format.binary64
      (UnpackedFloat.unpack Format.binary64 bits.toBitVec) = bits.toBitVec := by
    rw [← same, unpack_packComponents]
    by_cases highest : exponent = -1#11
    · rw [if_pos highest] at finite
      split at finite <;> cases finite
    · rw [if_neg highest]
      by_cases lowest : exponent = 0#11
      · rw [if_pos lowest, lowest]
        by_cases nothing : mantissa = 0#52
        · rw [dif_pos nothing, nothing]
          rfl
        · have short : mantissa.toNat.log2 ≠ 52 :=
            ((Nat.log2_lt (BitVec.toNat_pos_of_ne_zero nothing).ne').mpr mantissaBound).ne
          rw [dif_neg nothing, pack_finite, if_neg (by decide), if_neg short,
            BitVec.ofNat_toNat, BitVec.setWidth_eq]
      · have notHighest : exponent.toNat ≠ 2047 := fun high => highest (BitVec.eq_of_toNat_eq high)
        have full : (2 ^ 52 + mantissa.toNat).log2 = 52 :=
          (Nat.log2_eq_iff (by omega)).mpr ⟨by omega, by omega⟩
        have digits : BitVec.ofNat 52 (2 ^ 52 + mantissa.toNat) = mantissa := by
          apply BitVec.eq_of_toNat_eq
          rw [BitVec.toNat_ofNat, Nat.add_mod_left, Nat.mod_eq_of_lt mantissaBound]
        rw [if_neg lowest, pack_finite, sub_add_cancel, Int.toNat_natCast, if_neg (by omega),
          if_pos full, digits, BitVec.ofNat_toNat, BitVec.setWidth_eq]
  rw [Float.Model.mk.injEq]
  exact congrArg UInt64.ofBitVec repacked

end Binary64
end RootTrace
