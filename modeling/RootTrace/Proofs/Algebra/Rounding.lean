import Mathlib

/-!
# Rounding to doubles

A positive number is written with a mantissa and an exponent that is as low as the format
allows for its size. What does not fit into the mantissa is cut off, and two bits beside the
mantissa remember whether the rest is nothing, less than a half, a half, or more. Rounding by
these bits goes to the nearest double, and a number that is a double already stays what it
is.
-/

namespace RootTrace

namespace Binary64

open Float.Model UnpackedFloat

/-! ## Digits that are cut off -/

/-- What a mantissa and the two bits beside it say about the number they stand for. -/
def Brackets (digits : ExtendedMantissa) (x : ℚ) : Prop :=
  match digits.roundBit, digits.stickyBit with
  | false, false => x = digits.mantissa
  | false, true => digits.mantissa < x ∧ x < digits.mantissa + 1 / 2
  | true, false => x = digits.mantissa + 1 / 2
  | true, true => digits.mantissa + 1 / 2 < x ∧ x < digits.mantissa + 1

variable {digits : ExtendedMantissa} {x : ℚ}

theorem brackets_exact (m : ℕ) :
    Brackets (ExtendedMantissa.ofMantissaAndAccuracy m .exact) m :=
  rfl

/-- The rest of a division, compared with half of the divisor. -/
theorem brackets_fraction
    {divisor : ℕ}
    (positive : 0 < divisor)
    (dividend : ℕ) :
    Brackets (ExtendedMantissa.ofMantissaAndAccuracy (dividend / divisor)
        (accuracyOfFraction (dividend % divisor) divisor))
      (dividend / divisor) := by
  have divisorPositive : (0 : ℚ) < divisor := Nat.cast_pos.mpr positive
  have split : (dividend : ℚ) / divisor =
      (dividend / divisor : ℕ) + (dividend % divisor : ℕ) / divisor := by
    have division :
        (dividend : ℚ) = divisor * (dividend / divisor : ℕ) + (dividend % divisor : ℕ) := by
      exact_mod_cast (Nat.div_add_mod dividend divisor).symm
    rw [← mul_div_cancel_left₀ ((dividend / divisor : ℕ) : ℚ) divisorPositive.ne', ← add_div,
      ← division]
  have below : ((dividend % divisor : ℕ) : ℚ) / divisor < 1 := by
    rw [div_lt_one divisorPositive]
    exact_mod_cast Nat.mod_lt dividend positive
  rw [split]
  generalize dividend / divisor = quotient
  generalize dividend % divisor = rest at below ⊢
  unfold accuracyOfFraction
  by_cases nothing : rest = 0
  · rw [if_pos nothing, nothing]
    simp [Brackets, ExtendedMantissa.ofMantissaAndAccuracy]
  · have restPositive : (0 : ℚ) < rest / divisor :=
      div_pos (Nat.cast_pos.mpr (Nat.pos_of_ne_zero nothing)) divisorPositive
    rw [if_neg nothing]
    cases half : compare (2 * rest) divisor with
    | lt =>
        have less : ((rest : ℕ) : ℚ) / divisor < 1 / 2 := by
          rw [div_lt_div_iff₀ divisorPositive two_pos, one_mul]
          exact_mod_cast mul_comm 2 rest ▸ Nat.compare_eq_lt.mp half
        exact ⟨lt_add_of_pos_right _ restPositive, add_lt_add_right less _⟩
    | eq =>
        have same : ((rest : ℕ) : ℚ) / divisor = 1 / 2 := by
          rw [div_eq_div_iff divisorPositive.ne' two_ne_zero, one_mul]
          exact_mod_cast mul_comm 2 rest ▸ Nat.compare_eq_eq.mp half
        exact congrArg _ same
    | gt =>
        have more : 1 / 2 < ((rest : ℕ) : ℚ) / divisor := by
          rw [div_lt_div_iff₀ two_pos divisorPositive, one_mul]
          exact_mod_cast mul_comm 2 rest ▸ Nat.compare_eq_gt.mp half
        exact ⟨add_lt_add_right more _, add_lt_add_right below _⟩

namespace Brackets

theorem mantissa_le (brackets : Brackets digits x) : (digits.mantissa : ℚ) ≤ x := by
  obtain ⟨m, half, rest⟩ := digits
  cases half <;> cases rest <;> simp only [Brackets] at brackets <;> linarith

theorem lt_mantissa_add_one (brackets : Brackets digits x) : x < digits.mantissa + 1 := by
  obtain ⟨m, half, rest⟩ := digits
  cases half <;> cases rest <;> simp only [Brackets] at brackets <;> linarith

/-- One digit less. -/
theorem shiftRightOne (brackets : Brackets digits x) :
    Brackets digits.shiftRightOne (x / 2) := by
  obtain ⟨m, half, rest⟩ := digits
  have split : ((m / 2 : ℕ) : ℚ) * 2 + (m % 2 : ℕ) = m := by
    exact_mod_cast Nat.div_add_mod' m 2
  rcases Nat.mod_two_eq_zero_or_one m with even | odd
  · rw [even, Nat.cast_zero, add_zero] at split
    cases half <;> cases rest <;>
      simp only [Brackets, ExtendedMantissa.shiftRightOne, even, bne_self_eq_false,
        Bool.or_false, Bool.or_true] at brackets ⊢
    · linarith
    · constructor <;> linarith
    · constructor <;> linarith
    · constructor <;> linarith
  · rw [odd, Nat.cast_one] at split
    cases half <;> cases rest <;>
      simp only [Brackets, ExtendedMantissa.shiftRightOne, odd, Bool.or_false,
        Bool.or_true] at brackets ⊢
    · show x / 2 = _
      linarith
    all_goals
      show _ < x / 2 ∧ x / 2 < _
      constructor <;> linarith

theorem shiftRight (brackets : Brackets digits x) (count : ℕ) :
    Brackets (digits >>> count) (x / 2 ^ count) := by
  change Brackets (count.repeat ExtendedMantissa.shiftRightOne digits) _
  induction count with
  | zero => simpa [Nat.repeat] using brackets
  | succ count inductionHypothesis =>
      rw [Nat.repeat, pow_succ, ← div_div]
      exact inductionHypothesis.shiftRightOne

theorem roundedMantissa_bounds (digits : ExtendedMantissa) :
    digits.mantissa ≤ digits.roundedMantissa ∧
      digits.roundedMantissa ≤ digits.mantissa + 1 := by
  obtain ⟨m, half, rest⟩ := digits
  cases half <;> cases rest <;>
    simp only [ExtendedMantissa.roundedMantissa, ExtendedMantissa.accuracy,
      Accuracy.roundToNearestEven] <;>
    omega

/-- Rounding goes to the nearest whole number, and from half way to the even one. -/
theorem roundedMantissa_le_iff (brackets : Brackets digits x) (k : ℕ) :
    digits.roundedMantissa ≤ k ↔ x < k + 1 / 2 ∨ x = k + 1 / 2 ∧ k % 2 = 0 := by
  obtain ⟨low, high⟩ := roundedMantissa_bounds digits
  rcases lt_trichotomy digits.mantissa k with less | same | more
  · have next : (digits.mantissa : ℚ) + 1 ≤ k := by exact_mod_cast less
    have := brackets.lt_mantissa_add_one
    exact iff_of_true (high.trans less) (.inl (by linarith))
  · obtain ⟨m, half, rest⟩ := digits
    obtain rfl : m = k := same
    cases half <;> cases rest <;>
      simp only [Brackets, ExtendedMantissa.roundedMantissa, ExtendedMantissa.accuracy,
        Accuracy.roundToNearestEven] at brackets ⊢
    · exact iff_of_true le_rfl (.inl (by linarith))
    · exact iff_of_true le_rfl (.inl brackets.2)
    · rw [brackets]
      simp
    · exact iff_of_false (by omega) (by rintro (less | ⟨half, _⟩) <;> linarith)
  · have next : (k : ℚ) + 1 ≤ digits.mantissa := by exact_mod_cast more
    have := brackets.mantissa_le
    exact iff_of_false (by omega) (by rintro (less | ⟨half, _⟩) <;> linarith)

/-- Rounding to the nearest mantissa goes up by half a unit at most. -/
theorem roundedMantissa_le (brackets : Brackets digits x) :
    (digits.roundedMantissa : ℚ) ≤ x + 1 / 2 := by
  by_contra! far
  rcases Nat.eq_zero_or_pos digits.roundedMantissa with zero | positive
  · rw [zero, Nat.cast_zero] at far
    have := brackets.mantissa_le
    have := Nat.cast_nonneg (α := ℚ) digits.mantissa
    linarith
  · have previous := (brackets.roundedMantissa_le_iff (digits.roundedMantissa - 1)).mpr
    rw [Nat.cast_pred positive] at previous
    have := previous (.inl (by linarith))
    omega

theorem le_roundedMantissa (brackets : Brackets digits x) :
    x ≤ digits.roundedMantissa + 1 / 2 := by
  rcases (brackets.roundedMantissa_le_iff digits.roundedMantissa).mp le_rfl with less | ⟨half, _⟩
  · exact less.le
  · exact half.le

end Brackets

/-! ## Numbers in the form of the format -/

/-- A mantissa and an exponent as the format writes a number: with all 53 digits, or with
fewer at the lowest exponent. -/
structure Canonical (m : ℕ) (e : ℤ) : Prop where
  fits : m < 2 ^ 53
  above : -1074 ≤ e
  full : 2 ^ 52 ≤ m ∨ e = -1074

/-- Half of the smallest positive number of the format is below it. -/
theorem half_smallest_lt : (2 : ℚ) ^ (-1075 : ℤ) < 2 ^ (-1074 : ℤ) :=
  zpow_lt_zpow_right₀ one_lt_two (by norm_num)

theorem spacing_le {m : ℕ} (positive : 0 < m) (e : ℤ) : (2 : ℚ) ^ e ≤ m * 2 ^ e :=
  le_mul_of_one_le_left (by positivity) (by exact_mod_cast positive)

theorem Canonical.smallest_le {m : ℕ} {e : ℤ} (canonical : Canonical m e) (positive : 0 < m) :
    (2 : ℚ) ^ (-1074 : ℤ) ≤ m * 2 ^ e :=
  (zpow_le_zpow_right₀ one_le_two canonical.above).trans (spacing_le positive e)

/-- A double that is nearest to the absolute value `v`, of unlimited size. Right above a power
of two the number below is nearer than the spacing at the power suggests. -/
inductive Nearest (sign : Sign) (v : ℚ) : UnpackedFloat → Prop where
  | zero (tiny : v ≤ 2 ^ (-1075 : ℤ)) : Nearest sign v (.zero sign)
  | finite (m : ℕ) (e : ℤ) (positive : 0 < m)
      (canonical : Canonical m e)
      (large : 2 ^ (-1075 : ℤ) < v)
      (near : |m * 2 ^ e - v| ≤ 2 ^ e / 2)
      (low : e = -1074 ∨ (2 ^ 52 - 1 / 4) * 2 ^ e ≤ v) :
      Nearest sign v (.finite sign m e positive)

theorem targetExponent_eq (total : ℤ) :
    Format.binary64.targetExponent total = max (total - 53) (-1074) :=
  rfl

/-- A number that the format holds is the nearest to itself, and there is no other. Where its
mantissa is full, no mantissa reaches it at a lower exponent. -/
theorem Nearest.eq_of_canonical
    {sign : Sign}
    {x : UnpackedFloat}
    {m : ℕ}
    {e : ℤ}
    (nearest : Nearest sign (m * 2 ^ e) x)
    (positive : 0 < m)
    (canonical : Canonical m e) :
    x = .finite sign m e positive := by
  have room : (m : ℚ) ≤ 2 ^ 53 - 1 := by
    have := canonical.fits
    rw [le_sub_iff_add_le]
    exact_mod_cast this
  cases nearest with
  | zero tiny =>
      have large := half_smallest_lt.trans_le (canonical.smallest_le positive)
      exact absurd tiny (not_le.mpr large)
  | finite m' e' positive' canonical' large near low =>
      have room' : (m' : ℚ) ≤ 2 ^ 53 - 1 := by
        have := canonical'.fits
        rw [le_sub_iff_add_le]
        exact_mod_cast this
      have unit : (0 : ℚ) < 2 ^ e := by positivity
      have unit' : (0 : ℚ) < 2 ^ e' := by positivity
      rcases lt_trichotomy e' e with lower | rfl | higher
      · have full : (2 : ℚ) ^ 52 ≤ m := by
          have := canonical.full.resolve_right
            (fun lowest => absurd canonical'.above (not_le.mpr (lowest ▸ lower)))
          exact_mod_cast this
        have step : 2 * (2 : ℚ) ^ e' ≤ 2 ^ e := by
          rw [← zpow_one_add₀ two_ne_zero]
          exact zpow_le_zpow_right₀ one_le_two (by omega)
        have := (abs_le.mp near).1
        nlinarith
      · have : |(m' : ℚ) - m| ≤ 1 / 2 := by
          rw [← sub_mul, abs_mul, abs_of_pos unit] at near
          exact le_of_mul_le_mul_right (by linarith) unit
        obtain rfl : m' = m := by
          obtain ⟨below, above⟩ := abs_le.mp this
          have first : (m : ℚ) < m' + 1 := by linarith
          have second : (m' : ℚ) < m + 1 := by linarith
          have first : m < m' + 1 := by exact_mod_cast first
          have second : m' < m + 1 := by exact_mod_cast second
          omega
        rfl
      · have step : 2 * (2 : ℚ) ^ e ≤ 2 ^ e' := by
          rw [← zpow_one_add₀ two_ne_zero]
          exact zpow_le_zpow_right₀ one_le_two (by omega)
        have reach := low.resolve_left
          (fun lowest => absurd canonical.above (not_le.mpr (lowest ▸ higher)))
        nlinarith

/-! ## Rounding -/

/-- A mantissa that fits is not shifted, and loses no digit. -/
theorem shiftToTargetExponent_of_lt
    {m : ℕ}
    {e : ℤ}
    (fits : m < 2 ^ 53)
    (above : -1074 ≤ e) :
    shiftToTargetExponent Format.binary64 m e .exact = (⟨m, false, false⟩, e) := by
  have digits : m.log2 ≤ 52 := by
    rcases Nat.eq_zero_or_pos m with rfl | positive
    · exact Nat.zero_le _
    · exact Nat.lt_succ_iff.mp ((Nat.log2_lt positive.ne').mpr fits)
  have nothing : (Format.binary64.targetExponent (totalExponent m e) - e).toNat = 0 := by
    rw [targetExponent_eq, totalExponent]
    omega
  rw [shiftToTargetExponent, shiftToExponent, nothing]
  simp only [Nat.cast_zero, add_zero]
  rfl

/-- A mantissa that rounding has made one digit too long loses its last digit without rest. -/
theorem shiftToTargetExponent_two_pow {e : ℤ} (above : -1074 ≤ e) :
    shiftToTargetExponent Format.binary64 (2 ^ 53) e .exact = (⟨2 ^ 52, false, false⟩, e + 1) := by
  have one : (Format.binary64.targetExponent (totalExponent (2 ^ 53) e) - e).toNat = 1 := by
    rw [targetExponent_eq, totalExponent, Nat.log2_two_pow]
    omega
  rw [shiftToTargetExponent, shiftToExponent, one]
  rfl

section Rounding

variable {sign : Sign} {m : ℕ} {e : ℤ} {accuracy : Accuracy} {x : ℚ}

/-- The exponent is chosen so that the number has 53 digits before the point, or fewer at the
lowest exponent. -/
theorem scaled_bounds
    (brackets : Brackets (ExtendedMantissa.ofMantissaAndAccuracy m accuracy) x)
    (below : e ≤ Format.binary64.targetExponent (totalExponent m e)) :
    let target := Format.binary64.targetExponent (totalExponent m e)
    x * 2 ^ e < 2 ^ 53 * 2 ^ target ∧
      (target = -1074 ∨ 2 ^ 52 * 2 ^ target ≤ x * 2 ^ e) := by
  intro target
  have mantissa : (ExtendedMantissa.ofMantissaAndAccuracy m accuracy).mantissa = m := by
    unfold ExtendedMantissa.ofMantissaAndAccuracy
    split <;> rfl
  have low := brackets.mantissa_le
  have high := brackets.lt_mantissa_add_one
  rw [mantissa] at low high
  have unit : (0 : ℚ) < 2 ^ e := by positivity
  constructor
  · have digits : (m : ℚ) + 1 ≤ 2 ^ (m.log2 + 1 : ℤ) := by
      have := Nat.lt_log2_self (n := m)
      exact_mod_cast this
    calc x * 2 ^ e
      _ < 2 ^ (m.log2 + 1 : ℤ) * 2 ^ e := mul_lt_mul_of_pos_right (high.trans_le digits) unit
      _ = 2 ^ totalExponent m e := (zpow_add₀ two_ne_zero _ _).symm
      _ ≤ 2 ^ (53 + target) := by
        apply zpow_le_zpow_right₀ one_le_two
        have := targetExponent_eq (totalExponent m e)
        omega
      _ = 2 ^ 53 * 2 ^ target := zpow_add₀ two_ne_zero _ _
  · rcases le_or_gt target (-1074) with lowest | higher
    · left
      have := targetExponent_eq (totalExponent m e)
      omega
    · right
      have value : target = totalExponent m e - 53 := by
        have := targetExponent_eq (totalExponent m e)
        omega
      have positive : m ≠ 0 := by
        rintro rfl
        rw [totalExponent, Nat.log2_zero] at value
        omega
      have digits : (2 : ℚ) ^ (m.log2 : ℤ) ≤ m := by
        have := Nat.log2_self_le positive
        exact_mod_cast this
      calc (2 : ℚ) ^ 52 * 2 ^ target
        _ = 2 ^ (52 + target) := (zpow_add₀ two_ne_zero _ _).symm
        _ = 2 ^ (m.log2 + e) := by
          rw [value, totalExponent]
          congr 1
          ring
        _ = 2 ^ (m.log2 : ℤ) * 2 ^ e := zpow_add₀ two_ne_zero _ _
        _ ≤ x * 2 ^ e := mul_le_mul_of_nonneg_right (digits.trans low) unit.le

/-- What the rounding of the mantissa comes to, once the exponent is the right one. -/
theorem nearest_roundedMantissa
    {digits : ExtendedMantissa}
    (brackets : Brackets digits x)
    (above : -1074 ≤ e)
    (small : x < 2 ^ 53)
    (large : e = -1074 ∨ 2 ^ 52 ≤ x) :
    let shifted := shiftToTargetExponent Format.binary64 digits.roundedMantissa e .exact
    Nearest sign (x * 2 ^ e)
      (if zero : shifted.1.mantissa = 0 then .zero sign
       else .finite sign shifted.1.mantissa shifted.2 (Nat.pos_of_ne_zero zero)) := by
  intro shifted
  have unit : (0 : ℚ) < 2 ^ e := by positivity
  have upper := brackets.roundedMantissa_le
  have lower := brackets.le_roundedMantissa
  have near : |digits.roundedMantissa * 2 ^ e - x * 2 ^ e| ≤ (2 : ℚ) ^ e / 2 := by
    rw [← sub_mul, abs_mul, abs_of_pos unit, div_eq_inv_mul]
    exact mul_le_mul_of_nonneg_right (abs_le.mpr ⟨by linarith, by linarith⟩) unit.le
  have full : e = -1074 ∨ 2 ^ 52 ≤ digits.roundedMantissa := by
    refine large.imp_right fun large => ?_
    have : ((2 ^ 52 : ℕ) : ℚ) < digits.roundedMantissa + 1 := by
      push_cast
      linarith
    exact Nat.lt_succ_iff.mp (by exact_mod_cast this)
  have fits : digits.roundedMantissa ≤ 2 ^ 53 := by
    have : (digits.roundedMantissa : ℚ) < (2 ^ 53 : ℕ) + 1 := by
      push_cast
      linarith
    exact Nat.lt_succ_iff.mp (by exact_mod_cast this)
  have tiny : digits.roundedMantissa = 0 ↔ x ≤ 1 / 2 := by
    rw [← Nat.le_zero, brackets.roundedMantissa_le_iff, le_iff_lt_or_eq]
    simp
  have half : (2 : ℚ) ^ (-1075 : ℤ) = 1 / 2 * 2 ^ (-1074 : ℤ) := by
    rw [show (-1075 : ℤ) = -1 + -1074 by norm_num, zpow_add₀ two_ne_zero]
    norm_num
  have smallest : (2 : ℚ) ^ (-1074 : ℤ) ≤ 2 ^ e := zpow_le_zpow_right₀ one_le_two above
  have notTiny : digits.roundedMantissa ≠ 0 → (2 : ℚ) ^ (-1075 : ℤ) < x * 2 ^ e := by
    intro nonzero
    have : 1 / 2 < x := not_le.mp (mt tiny.mpr nonzero)
    rw [half]
    exact mul_lt_mul this smallest (by positivity) (by linarith)
  rcases fits.lt_or_eq with fits | long
  · have kept : shifted = (⟨digits.roundedMantissa, false, false⟩, e) :=
      shiftToTargetExponent_of_lt fits above
    rw [kept]
    split
    case isTrue zero =>
      obtain rfl : e = -1074 := full.resolve_right fun full => by
        rw [show digits.roundedMantissa = 0 from zero] at full
        omega
      refine .zero ?_
      rw [half]
      exact mul_le_mul_of_nonneg_right (tiny.mp zero) unit.le
    case isFalse nonzero =>
      refine .finite _ _ _ ⟨fits, above, full.symm⟩ (notTiny nonzero) near ?_
      exact large.imp_right fun large => mul_le_mul_of_nonneg_right (by linarith) unit.le
  · have halved : shifted = (⟨2 ^ 52, false, false⟩, e + 1) := by
      show shiftToTargetExponent Format.binary64 digits.roundedMantissa e .exact = _
      rw [long]
      exact shiftToTargetExponent_two_pow above
    have next : (2 : ℚ) ^ (e + 1) = 2 * 2 ^ e := by
      rw [zpow_add_one₀ two_ne_zero, mul_comm]
    rw [long, Nat.cast_pow, Nat.cast_ofNat] at near upper
    rw [halved, dif_neg (Nat.two_pow_pos 52).ne']
    refine .finite _ _ _ ⟨by norm_num, by omega, .inl le_rfl⟩ (notTiny (by omega)) ?_ (.inr ?_)
    · rw [next, Nat.cast_pow, Nat.cast_ofNat, ← mul_assoc, ← pow_succ]
      linarith
    · rw [next, ← mul_assoc]
      exact mul_le_mul_of_nonneg_right (by linarith) unit.le

/-- Rounding gives the nearest number of the format, if the exponent to start from is low
enough. -/
theorem nearest_roundWithAccuracy
    (brackets : Brackets (ExtendedMantissa.ofMantissaAndAccuracy m accuracy) x)
    (below : e ≤ Format.binary64.targetExponent (totalExponent m e)) :
    Nearest sign (x * 2 ^ e) (roundWithAccuracy Format.binary64 sign m e accuracy) := by
  obtain ⟨small, large⟩ := scaled_bounds brackets below
  have above : -1074 ≤ Format.binary64.targetExponent (totalExponent m e) := by
    rw [targetExponent_eq]
    omega
  unfold roundWithAccuracy
  rw [shiftToTargetExponent, shiftToExponent]
  dsimp only
  generalize Format.binary64.targetExponent (totalExponent m e) = target at *
  obtain ⟨count, rfl⟩ : ∃ count : ℕ, target = e + count := ⟨(target - e).toNat, by omega⟩
  rw [show (e + count - e).toNat = count by omega]
  have value : x * 2 ^ e = x / 2 ^ count * 2 ^ (e + count) := by
    rw [zpow_add₀ two_ne_zero, zpow_natCast]
    field_simp
  have unit : (0 : ℚ) < 2 ^ (e + count) := by positivity
  rw [value] at small large ⊢
  exact nearest_roundedMantissa (brackets.shiftRight count) above
    (lt_of_mul_lt_mul_right small unit.le)
    (large.imp_right fun large => le_of_mul_le_mul_right large unit)

/-- Appending zeros to a mantissa does not change the exponent of its first digit. -/
theorem totalExponent_decreaseExponent (positive : 0 < m) (target : ℤ) :
    totalExponent (decreaseExponent m e target).1 (decreaseExponent m e target).2 =
      totalExponent m e := by
  have digits (count : ℕ) : (m <<< count).log2 = m.log2 + count := by
    have bounds := (Nat.log2_eq_iff positive.ne').mp rfl
    rw [Nat.shiftLeft_eq, Nat.log2_eq_iff (Nat.mul_pos positive (Nat.two_pow_pos count)).ne',
      pow_add, add_right_comm, pow_add _ (_ + 1)]
    exact ⟨Nat.mul_le_mul_right _ bounds.1,
      (Nat.mul_lt_mul_right (Nat.two_pow_pos count)).mpr bounds.2⟩
  rw [totalExponent, totalExponent, decreaseExponent, digits]
  push_cast
  ring

theorem decreaseExponent_value (m : ℕ) (e target : ℤ) :
    ((decreaseExponent m e target).1 : ℚ) * 2 ^ (decreaseExponent m e target).2 = m * 2 ^ e := by
  rw [decreaseExponent, Nat.shiftLeft_eq, Nat.cast_mul, Nat.cast_pow, mul_assoc, Nat.cast_ofNat,
    ← zpow_natCast, ← zpow_add₀ two_ne_zero, add_sub_cancel]

/-- Where the exponent to start from can be too high, it is lowered first. -/
theorem nearest_round (positive : 0 < m) (e : ℤ) :
    Nearest sign (m * 2 ^ e) (UnpackedFloat.round Format.binary64 sign m e) := by
  have total := totalExponent_decreaseExponent (e := e) positive
    (Format.binary64.targetExponent (totalExponent m e))
  rw [← decreaseExponent_value m e (Format.binary64.targetExponent (totalExponent m e))]
  apply nearest_roundWithAccuracy (brackets_exact _)
  rw [total]
  unfold decreaseExponent
  dsimp only
  omega

end Rounding

end Binary64
end RootTrace
