import RootTrace.Proofs.Algebra.Values
import RootTrace.Proofs.Json.Grammar

/-!
# Numbers that are doubles

Every finite double is a decimal fraction, and so it can be written down exactly. A number
that is written so is not rounded when it is read, and a zero keeps its sign.
-/

namespace RootTrace

open Float.Model UnpackedFloat Binary64

namespace Numeral

/-- The number that is written. -/
def value (numeral : Numeral) : ℚ :=
  (if numeral.negative then -1 else 1) * (numeral.mantissa * 10 ^ numeral.exponent)

/-- The sign that is written. -/
def sign (numeral : Numeral) : Sign :=
  if numeral.negative then .negative else .positive

/-- Whether a finite double is written exactly, with its sign if it is zero. -/
structure Exactly (numeral : Numeral) (x : Float) : Prop where
  finite : Magnitude.isFinite x = true
  value : numeral.value = exact x
  sign : sign? x.toModel.unpack = some numeral.sign

end Numeral

/-! ## Reading -/

section Reading

variable {mantissa : ℕ} {exponent : ℤ} {m : ℕ} {e : ℤ}

/-- A number with the value of a double has no exponent beyond what the overflow check lets pass.
-/
theorem exponent_le_of_canonical
    (positive : 0 < mantissa)
    (canonical : Canonical m e)
    (inside : e ≤ 971)
    (same : (mantissa : ℚ) * 10 ^ exponent = m * 2 ^ e) :
    exponent ≤ 2 ^ 11 := by
  by_contra! large
  have below : (m : ℚ) * 2 ^ e < 2 ^ (1024 : ℤ) := by
    have bound := canonical.lt_overflow inside
    have unit : (0 : ℚ) < 2 ^ e / 2 := by positivity
    have gap : (0 : ℚ) < 2 ^ 970 := by positivity
    rw [show (2 : ℚ) ^ (1024 : ℤ) = 2 ^ 1024 from rfl]
    generalize (2 : ℚ) ^ 1024 = top at *
    generalize (2 : ℚ) ^ 970 = rest at *
    linarith
  rw [← same] at below
  have one : (1 : ℚ) ≤ mantissa := by exact_mod_cast positive
  have := calc (2 : ℚ) ^ (1024 : ℤ)
    _ ≤ 10 ^ (1024 : ℤ) := zpow_le_zpow_left₀ (by norm_num) two_pos.le (by norm_num)
    _ ≤ 10 ^ exponent := zpow_le_zpow_right₀ (by norm_num) (by omega)
    _ ≤ mantissa * 10 ^ exponent := le_mul_of_one_le_left (by positivity) one
  exact absurd below (not_lt.mpr this)

/-- A number with the value of a double has no exponent below what the underflow check lets pass,
which leaves room for the length of its mantissa. -/
theorem le_exponent_of_canonical
    (positive : 0 < m)
    (canonical : Canonical m e)
    (same : (mantissa : ℚ) * 10 ^ exponent = m * 2 ^ e) :
    -(2 ^ 11 + mantissa.log2) ≤ exponent := by
  by_contra! small
  have above := canonical.smallest_le positive
  rw [← same] at above
  have digits : (mantissa : ℚ) ≤ 2 ^ (mantissa.log2 + 1 : ℤ) := by
    have := (Nat.lt_log2_self (n := mantissa)).le
    exact_mod_cast this
  have := calc (mantissa : ℚ) * 10 ^ exponent
    _ ≤ 2 ^ (mantissa.log2 + 1 : ℤ) * 2 ^ exponent := by
      apply mul_le_mul digits _ (by positivity) (by positivity)
      obtain ⟨n, rfl⟩ : ∃ n : ℕ, exponent = -n := ⟨(-exponent).toNat, by omega⟩
      rw [zpow_neg, zpow_neg, zpow_natCast, zpow_natCast]
      exact inv_anti₀ (by positivity) (pow_le_pow_left₀ two_pos.le (by norm_num) n)
    _ = 2 ^ (mantissa.log2 + 1 + exponent) := (zpow_add₀ two_ne_zero _ _).symm
    _ < 2 ^ (-1074 : ℤ) := zpow_lt_zpow_right₀ one_lt_two (by omega)
  exact absurd above (not_le.mpr this)

/-- A number that is a double already is not rounded. -/
theorem ofScientific_eq
    (positive : 0 < mantissa)
    {positive' : 0 < m}
    (canonical : Canonical m e)
    (inside : e ≤ 971)
    (same : (mantissa : ℚ) * 10 ^ exponent = m * 2 ^ e) :
    UnpackedFloat.ofScientific Format.binary64 mantissa exponent =
      .finite .positive m e positive' := by
  have high := exponent_le_of_canonical positive canonical inside same
  have low := le_exponent_of_canonical positive' canonical same
  unfold UnpackedFloat.ofScientific
  rw [dif_neg positive.ne', if_neg (by exact not_lt.mpr high), if_neg (by exact not_lt.mpr low)]
  split
  · rename_i nonnegative
    have power : (10 : ℚ) ^ exponent = (10 ^ exponent.toNat : ℕ) := by
      rw [Nat.cast_pow, Nat.cast_ofNat, ← zpow_natCast, Int.toNat_of_nonneg nonnegative]
    have value : (m : ℚ) * (2 : ℚ) ^ e =
        ((mantissa <<< 53 : ℕ) : ℚ) * 2 ^ (-53 : ℤ) *
          (((10 ^ exponent.toNat : ℕ) : ℚ) * 2 ^ (0 : ℤ)) := by
      rw [← same, power, Nat.shiftLeft_eq, zpow_zero, mul_one, Nat.cast_mul, Nat.cast_pow 2,
        Nat.cast_ofNat, mul_assoc (mantissa : ℚ), ← zpow_natCast, ← zpow_add₀ two_ne_zero]
      norm_num
    refine Nearest.eq_of_canonical (?_ : Nearest (.positive * .positive) _ _) positive' canonical
    rw [value]
    refine nearest_mul_of_le ?_
    have long : 2 ^ 53 ≤ mantissa <<< 53 * 10 ^ exponent.toNat := by
      rw [Nat.shiftLeft_eq]
      calc 2 ^ 53
        _ ≤ mantissa * 2 ^ 53 := Nat.le_mul_of_pos_left _ positive
        _ ≤ mantissa * 2 ^ 53 * 10 ^ exponent.toNat :=
          Nat.le_mul_of_pos_right _ (Nat.pow_pos (by decide))
    have digits : 53 ≤ (mantissa <<< 53 * 10 ^ exponent.toNat).log2 :=
      (Nat.le_log2 (by omega)).mpr long
    rw [targetExponent_eq, totalExponent]
    change (-53 : ℤ) + 0 ≤
      max (((mantissa <<< 53 * 10 ^ exponent.toNat).log2 : ℤ) + 1 + (-53 + 0) - 53) (-1074)
    omega
  · rename_i negative
    have power : (10 : ℚ) ^ exponent = ((10 ^ (-exponent).toNat : ℕ) : ℚ)⁻¹ := by
      rw [Nat.cast_pow, Nat.cast_ofNat, ← zpow_natCast, Int.toNat_of_nonneg (by omega), zpow_neg,
        inv_inv]
    have value : (m : ℚ) * 2 ^ e =
        (mantissa : ℚ) * 2 ^ (0 : ℤ) / (((10 ^ (-exponent).toNat : ℕ) : ℚ) * 2 ^ (0 : ℤ)) := by
      rw [← same, power, zpow_zero, mul_one, mul_one]
      rfl
    refine Nearest.eq_of_canonical (?_ : Nearest (.positive / .positive) _ _) positive' canonical
    rw [value]
    exact nearest_div

end Reading

namespace Numeral

theorem abs_value (numeral : Numeral) :
    |numeral.value| = numeral.mantissa * 10 ^ numeral.exponent := by
  have nonnegative : (0 : ℚ) ≤ numeral.mantissa * 10 ^ numeral.exponent := by positivity
  unfold value
  split
  · rw [neg_one_mul, abs_neg, abs_of_nonneg nonnegative]
  · rw [one_mul, abs_of_nonneg nonnegative]

/-- A finite magnitude is read, and the sign is put in front of it. -/
theorem toFloat?_of_ofScientific
    {numeral : Numeral}
    {y : UnpackedFloat}
    (read : UnpackedFloat.ofScientific Format.binary64 numeral.mantissa numeral.exponent = y)
    (kept : (Float.Model.pack y).unpack = y)
    (finite : y.isFinite = true) :
    numeral.toFloat? =
      some (.ofModel (Float.Model.pack (if numeral.negative then y.neg else y))) := by
  have magnitude : Float.Model.ofScientific numeral.mantissa numeral.exponent =
      Float.Model.pack y := congrArg Float.Model.pack read
  have finite : (Float.ofModel (Float.Model.pack y)).isFinite = true := by
    change (Float.Model.pack y).unpack.isFinite = true
    rw [kept, finite]
  have negated : -Float.ofModel (Float.Model.pack y) = .ofModel (Float.Model.pack y.neg) := by
    change Float.ofModel (Float.Model.pack (Float.Model.pack y).unpack.neg) = _
    rw [kept]
  unfold toFloat?
  dsimp only
  rw [magnitude, if_pos finite, negated]
  cases numeral.negative <;> rfl

/-- A number that is written exactly is read as it was. -/
theorem Exactly.toFloat?_eq {numeral : Numeral} {x : Float} (exactly : numeral.Exactly x) :
    numeral.toFloat? = some x := by
  have size : numeral.mantissa * 10 ^ numeral.exponent = |exact x| := by
    rw [← abs_value, exactly.value]
  have sign := exactly.sign
  have packed : Float.Model.pack x.toModel.unpack = x.toModel := pack_unpack exactly.finite
  rcases unpack_of_isFinite exactly.finite with
    ⟨s, unpacked⟩ | ⟨s, m, e, positive, unpacked, canonical, inside⟩
  · rw [exact, unpacked, value_zero, abs_zero] at size
    have nothing : numeral.mantissa = 0 := by
      rcases mul_eq_zero.mp size with zero | zero
      · exact_mod_cast zero
      · exact absurd zero (zpow_ne_zero _ (by norm_num))
    have read : UnpackedFloat.ofScientific Format.binary64 numeral.mantissa numeral.exponent =
        .zero .positive := by
      rw [nothing]
      rfl
    rw [unpacked] at sign packed
    have signed : (if numeral.negative then (UnpackedFloat.zero .positive).neg
        else .zero .positive) = .zero s := by
      rw [Option.some.inj sign, Numeral.sign]
      cases numeral.negative <;> rfl
    rw [toFloat?_of_ofScientific read (unpack_pack_zero _) rfl, signed, packed]
  · rw [exact, unpacked, abs_value_finite] at size
    have something : 0 < numeral.mantissa := by
      refine Nat.pos_of_ne_zero fun nothing => ?_
      rw [nothing, Nat.cast_zero, zero_mul] at size
      have : (0 : ℚ) < m * 2 ^ e := by positivity
      exact this.ne size
    rw [unpacked] at sign packed
    have signed : (if numeral.negative then (UnpackedFloat.finite .positive m e positive).neg
        else .finite .positive m e positive) = .finite s m e positive := by
      rw [Option.some.inj sign, Numeral.sign]
      cases numeral.negative <;> rfl
    have read : UnpackedFloat.ofScientific Format.binary64 numeral.mantissa numeral.exponent =
        .finite .positive m e positive := ofScientific_eq something canonical inside size
    rw [toFloat?_of_ofScientific read (unpack_pack_finite canonical inside) rfl, signed, packed]

end Numeral

/-! ## Writing -/

/-- The digits of a natural number. -/
def digitsOf (n : ℕ) : List (Fin 10) :=
  if n = 0 then [0] else (Nat.digits 10 n).reverse.map (Fin.ofNat 10)

namespace Json

theorem natural_digitsOf (n : ℕ) : natural (digitsOf n) = n := by
  unfold digitsOf
  split
  · rename_i zero
    rw [zero]
    rfl
  · have kept : ((Nat.digits 10 n).map (Fin.ofNat 10)).map Fin.val = Nat.digits 10 n := by
      rw [List.map_map]
      conv_rhs => rw [← List.map_id (Nat.digits 10 n)]
      apply List.map_congr_left
      intro digit member
      exact Nat.mod_eq_of_lt (Nat.digits_lt_base (by norm_num) member)
    rw [natural, ← List.map_reverse, List.reverse_reverse, kept, Nat.ofDigits_digits]

theorem digitsOf_ne_nil (n : ℕ) : digitsOf n ≠ [] := by
  unfold digitsOf
  split
  · exact List.cons_ne_nil _ _
  · rename_i nonzero
    simpa using Nat.digits_ne_nil_iff_ne_zero.mpr nonzero

/-- The digits of a natural number start with zero only if it is zero. -/
theorem digitsOf_noLeadingZero (n : ℕ) (zero : (digitsOf n).head? = some 0) :
    digitsOf n = [0] := by
  unfold digitsOf at zero ⊢
  split
  · rfl
  · rename_i nonzero
    have some : Nat.digits 10 n ≠ [] := Nat.digits_ne_nil_iff_ne_zero.mpr nonzero
    rw [if_neg nonzero, List.head?_map, List.head?_reverse,
      List.getLast?_eq_some_getLast some, Option.map_some, Option.some.injEq] at zero
    have small := Nat.digits_lt_base (by norm_num) (List.getLast_mem some)
    have last : (Nat.digits 10 n).getLast some % 10 = 0 := congrArg Fin.val zero
    rw [Nat.mod_eq_of_lt small] at last
    exact absurd last (Nat.getLast_digit_ne_zero 10 nonzero)

/-- A natural number, written with its digits. -/
def literalOf (negative : Bool) (n : ℕ) (power : Option Power) : Literal where
  negative := negative
  whole := digitsOf n
  fraction := []
  power := power
  nonempty := digitsOf_ne_nil n
  noLeadingZero := digitsOf_noLeadingZero n

/-- A natural number over a power of ten. -/
def dividedBy (k : ℕ) : Power where
  capital := false
  sign := some true
  digits := digitsOf k
  nonempty := digitsOf_ne_nil k

theorem value_dividedBy (k : ℕ) : (dividedBy k).value = -k := by
  change (if some true = some true then -(natural (digitsOf k) : ℤ) else _) = _
  rw [if_pos rfl, natural_digitsOf]

theorem numeral_literalOf (negative : Bool) (n : ℕ) (power : Option Power) :
    (literalOf negative n power).numeral =
      ⟨negative, n, power.elim 0 Power.value, power.isNone⟩ := by
  rw [Literal.numeral]
  simp [literalOf, natural_digitsOf]

/-- Every finite double can be written exactly: two to a negative power is five to the positive
power over ten to it. -/
theorem exists_literal_exactly {x : Float} (finite : Magnitude.isFinite x = true) :
    ∃ literal : Literal, literal.numeral.Exactly x := by
  have minus (s : Sign) : ∃ negative : Bool, s = (if negative then .negative else .positive) := by
    cases s with
    | negative => exact ⟨true, rfl⟩
    | positive => exact ⟨false, rfl⟩
  rcases unpack_of_isFinite finite with
    ⟨s, unpacked⟩ | ⟨s, m, e, positive, unpacked, canonical, inside⟩
  · obtain ⟨negative, rfl⟩ := minus s
    refine ⟨literalOf negative 0 none, finite, ?_, ?_⟩
    · rw [numeral_literalOf, exact, unpacked, Numeral.value]
      simp
    · rw [numeral_literalOf, unpacked]
      rfl
  · obtain ⟨negative, rfl⟩ := minus s
    have signed : exact x = (if negative then -1 else 1) * (m * 2 ^ e) := by
      rw [exact, unpacked, value]
      cases negative <;> simp [Sign.apply]
    rcases le_total 0 e with whole | fraction
    · obtain ⟨k, rfl⟩ := Int.eq_ofNat_of_zero_le whole
      refine ⟨literalOf negative (m * 2 ^ k) none, finite, ?_, ?_⟩
      · rw [numeral_literalOf, signed, Numeral.value]
        simp
      · rw [numeral_literalOf, unpacked]
        rfl
    · obtain ⟨k, rfl⟩ := Int.exists_eq_neg_ofNat fraction
      refine ⟨literalOf negative (m * 5 ^ k) (some (dividedBy k)), finite, ?_, ?_⟩
      · have ten : ((5 ^ k : ℕ) : ℚ) * 10 ^ (-k : ℤ) = 2 ^ (-k : ℤ) := by
          rw [zpow_neg, zpow_neg, zpow_natCast, zpow_natCast, Nat.cast_pow,
            show (10 : ℚ) = 5 * 2 by norm_num, mul_pow, mul_inv, ← mul_assoc]
          push_cast
          rw [mul_inv_cancel₀ (by positivity), one_mul]
        rw [numeral_literalOf, signed, Numeral.value]
        dsimp only
        rw [Option.elim_some, value_dividedBy, Nat.cast_mul, mul_assoc (m : ℚ), ten]
      · rw [numeral_literalOf, unpacked]
        rfl

end Json

end RootTrace
