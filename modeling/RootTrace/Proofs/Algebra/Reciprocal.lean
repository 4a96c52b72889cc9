import RootTrace.Proofs.Algebra.Values

/-!
# Reciprocals of complex doubles

The inverse of a complex number divides by the squared length, which is a double itself.
Where the squared length is neither zero nor infinite, the inverse of a finite number is
finite and not zero. But the squares of small numbers become zero and the squares of large
ones infinite, long before the numbers and their reciprocals leave the format.
-/

namespace RootTrace

open Float.Model UnpackedFloat

/-! ## Complex numbers -/

namespace Complex

open Binary64

variable {z : Complex Float}

/-- The divisor of the inverse. -/
def squaredLength (z : Complex Float) : Float :=
  z.re * z.re + z.im * z.im

/-- Whether both components are zero, of either sign. -/
def vanishes (z : Complex Float) : Bool :=
  z.re == 0 && z.im == 0

/-- The squared length is zero exactly if both squares are too small for the format. -/
theorem squaredLength_beq_zero_iff (finite : z.isFinite = true) :
    (z.squaredLength == 0) = true ↔
      exact z.re ^ 2 ≤ 2 ^ (-1075 : ℤ) ∧ exact z.im ^ 2 ≤ 2 ^ (-1075 : ℤ) := by
  obtain ⟨re, im⟩ := isFinite_eq_true_iff.mp finite
  have first := rounds_square re
  have second := rounds_square im
  have half := half_smallest_lt
  rw [← first.eq_zero_iff, ← second.eq_zero_iff, beq_zero_iff, squaredLength]
  rcases rounds_add first second with ⟨infinite, parts⟩ | ⟨finiteFirst, finiteSecond, rounds⟩
  · refine iff_of_false ?_ ?_
    · rintro ⟨sign, zero⟩
      cases infinite.symm.trans zero
    · rintro ⟨zeroFirst, zeroSecond⟩
      rcases parts with infinite | infinite
      · cases infinite.symm.trans zeroFirst
      · cases infinite.symm.trans zeroSecond
  · constructor
    · rintro ⟨sign, zero⟩
      have tiny : |exact (z.re * z.re)| + |exact (z.im * z.im)| ≤ 2 ^ (-1075 : ℤ) := by
        rw [zero] at rounds
        cases rounds with
        | zero tiny => exact tiny
      have := abs_nonneg (exact (z.re * z.re))
      have := abs_nonneg (exact (z.im * z.im))
      constructor
      · refine (first.zero_or_le_abs_value finiteFirst).resolve_right fun large => ?_
        change _ ≤ |exact (z.re * z.re)| at large
        linarith
      · refine (second.zero_or_le_abs_value finiteSecond).resolve_right fun large => ?_
        change _ ≤ |exact (z.im * z.im)| at large
        linarith
    · rintro ⟨zeroFirst, zeroSecond⟩
      refine ⟨.positive, rounds.eq_zero_iff.mpr ?_⟩
      rw [exact, exact, zeroFirst, zeroSecond, value_zero, abs_zero, add_zero]
      positivity

/-- An infinite squared length comes from a length that is too large for the format, up to the
rounding of the squares. -/
theorem le_of_squaredLength_infinite
    (finite : z.isFinite = true)
    (infinite : z.squaredLength.isFinite = false) :
    2 ^ 1024 - 3 * 2 ^ 970 ≤ exact z.re ^ 2 + exact z.im ^ 2 := by
  obtain ⟨re, im⟩ := isFinite_eq_true_iff.mp finite
  have first := rounds_square re
  have second := rounds_square im
  have unit : (0 : ℚ) < 2 ^ 970 := by positivity
  rcases rounds_add first second with ⟨_, parts⟩ | ⟨finiteFirst, finiteSecond, rounds⟩
  · have := sq_nonneg (exact z.re)
    have := sq_nonneg (exact z.im)
    rcases parts with infinite | infinite
    · rw [infinite] at first
      have := first.le_of_infinity
      generalize (2 : ℚ) ^ 1024 = bound at *
      generalize (2 : ℚ) ^ 970 = unit at *
      linarith
    · rw [infinite] at second
      have := second.le_of_infinity
      generalize (2 : ℚ) ^ 1024 = bound at *
      generalize (2 : ℚ) ^ 970 = unit at *
      linarith
  · have huge : 2 ^ 1024 - 2 ^ 970 ≤ |exact (z.re * z.re)| + |exact (z.im * z.im)| := by
      by_contra! small
      cases infinite.symm.trans (rounds.isFinite_of_lt small)
    have firstNear := (abs_le.mp (first.abs_sub_le finiteFirst (sq_nonneg _))).2
    have secondNear := (abs_le.mp (second.abs_sub_le finiteSecond (sq_nonneg _))).2
    change |exact (z.re * z.re)| - _ ≤ 2 ^ 970 at firstNear
    change |exact (z.im * z.im)| - _ ≤ 2 ^ 970 at secondNear
    generalize (2 : ℚ) ^ 1024 = bound at *
    generalize (2 : ℚ) ^ 970 = unit at *
    linarith

/-- The squared length is infinite if the exact one is beyond the largest double by more than
rounding can take back. -/
theorem squaredLength_infinite_of_lt
    (finite : z.isFinite = true)
    (large : 2 ^ 1024 + 2 ^ 970 < exact z.re ^ 2 + exact z.im ^ 2) :
    z.squaredLength.isFinite = false := by
  obtain ⟨re, im⟩ := isFinite_eq_true_iff.mp finite
  have first := rounds_square re
  have second := rounds_square im
  rcases rounds_add first second with ⟨infinite, _⟩ | ⟨finiteFirst, finiteSecond, rounds⟩
  · exact congrArg UnpackedFloat.isFinite infinite
  · refine Bool.eq_false_of_not_eq_true fun finite => ?_
    have small := rounds.le_of_isFinite finite
    have firstNear := (abs_le.mp (first.abs_sub_le finiteFirst (sq_nonneg _))).1
    have secondNear := (abs_le.mp (second.abs_sub_le finiteSecond (sq_nonneg _))).1
    change -2 ^ 970 ≤ |exact (z.re * z.re)| - _ at firstNear
    change -2 ^ 970 ≤ |exact (z.im * z.im)| - _ at secondNear
    generalize (2 : ℚ) ^ 1024 = bound at *
    generalize (2 : ℚ) ^ 970 = unit at *
    linarith

/-! ## Inverses -/

/-- A squared length that is neither zero nor infinite is at most four times too small, and at
most four times too large. -/
structure InRange (z : Complex Float) (length : ℚ) : Prop where
  smallest : 2 ^ (-1074 : ℤ) ≤ length
  re : exact z.re ^ 2 ≤ 4 * length
  im : exact z.im ^ 2 ≤ 4 * length
  upper : length ≤ 4 * (exact z.re ^ 2 + exact z.im ^ 2)

/-- A squared length that is finite and not zero is a positive number, and no rounding on the way
has lost more than a factor of four. -/
theorem inRange_squaredLength
    (finite : z.isFinite = true)
    (nonzero : (z.squaredLength == 0) = false)
    (inside : z.squaredLength.isFinite = true) :
    (∃ m e positive, z.squaredLength.toModel.unpack = .finite .positive m e positive) ∧
      InRange z |exact z.squaredLength| := by
  obtain ⟨re, im⟩ := isFinite_eq_true_iff.mp finite
  have first := rounds_square re
  have second := rounds_square im
  unfold squaredLength at *
  rcases rounds_add first second with ⟨infinite, _⟩ | ⟨finiteFirst, finiteSecond, rounds⟩
  · cases inside.symm.trans (congrArg UnpackedFloat.isFinite infinite)
  · have notZero : (z.re * z.re + z.im * z.im).toModel.unpack ≠ .zero .positive := by
      intro zero
      rw [beq_zero_iff.mpr ⟨_, zero⟩] at nonzero
      cases nonzero
    have half := half_smallest_lt
    have smallest : _ ≤ |exact (z.re * z.re + z.im * z.im)| :=
      (rounds.zero_or_le_abs_value inside).resolve_left notZero
    have lower : _ ≤ 2 * |exact (z.re * z.re + z.im * z.im)| :=
      rounds.le_abs_value inside notZero
    have upper : |exact (z.re * z.re + z.im * z.im)| ≤ _ := rounds.abs_value_le (by positivity)
    have firstUpper : |exact (z.re * z.re)| ≤ _ := first.abs_value_le (sq_nonneg _)
    have secondUpper : |exact (z.im * z.im)| ≤ _ := second.abs_value_le (sq_nonneg _)
    have firstNonnegative := abs_nonneg (exact (z.re * z.re))
    have secondNonnegative := abs_nonneg (exact (z.im * z.im))
    refine ⟨?_, smallest, ?_, ?_, by linarith⟩
    · change (z.re * z.re + z.im * z.im).toModel.unpack.isFinite = true at inside
      generalize (z.re * z.re + z.im * z.im).toModel.unpack = sum at *
      cases rounds with
      | zero => exact absurd rfl notZero
      | infinity => cases inside
      | finite m e positive => exact ⟨m, e, positive, rfl⟩
    · by_cases tiny : exact z.re ^ 2 ≤ 2 ^ (-1075 : ℤ)
      · linarith
      · have : _ ≤ 2 * |exact (z.re * z.re)| :=
          first.le_abs_value finiteFirst (mt first.eq_zero_iff.mp tiny)
        linarith
    · by_cases tiny : exact z.im ^ 2 ≤ 2 ^ (-1075 : ℤ)
      · linarith
      · have : _ ≤ 2 * |exact (z.im * z.im)| :=
          second.le_abs_value finiteSecond (mt second.eq_zero_iff.mp tiny)
        linarith

/-- A part over the squared length does not reach infinity, if its square is no larger than a
multiple of the length. -/
theorem div_lt_overflow
    {a length : ℚ}
    (smallest : 2 ^ (-1074 : ℤ) ≤ length)
    (close : a ^ 2 ≤ 4 * length) :
    |a| / length < 2 ^ 1024 - 2 ^ 970 := by
  have positive : 0 < length := LT.lt.trans_le (by positivity) smallest
  have square : (|a| / length) ^ 2 ≤ (2 ^ (538 : ℤ)) ^ 2 := by
    calc (|a| / length) ^ 2
      _ = a ^ 2 / length ^ 2 := by rw [div_pow, sq_abs]
      _ ≤ 4 * length / length ^ 2 := div_le_div_of_nonneg_right close (by positivity)
      _ = 4 / length := by field_simp
      _ ≤ 4 / 2 ^ (-1074 : ℤ) := div_le_div_of_nonneg_left (by norm_num) (by positivity) smallest
      _ = 2 ^ (2 : ℤ) / 2 ^ (-1074 : ℤ) := by norm_num
      _ = (2 ^ (538 : ℤ)) ^ 2 := by
        rw [← zpow_sub₀ two_ne_zero, sq, ← zpow_add₀ two_ne_zero]
        rfl
  calc |a| / length
    _ ≤ 2 ^ (538 : ℤ) :=
      (pow_le_pow_iff_left₀ (by positivity) (by positivity) two_ne_zero).mp square
    _ < 2 ^ 1024 - 2 ^ 970 := two_zpow_lt_overflow (by norm_num)

/-- A part over the squared length is not lost to zero, if the length is no larger than a multiple
of its square. -/
theorem lt_div
    {a length : ℚ}
    (positive : 0 < length)
    (small : |a| < 2 ^ 1024 - 2 ^ 970)
    (close : length ≤ 8 * a ^ 2) :
    2 ^ (-1075 : ℤ) < |a| / length := by
  have nonzero : 0 < |a| := by
    rw [abs_pos]
    rintro rfl
    linarith
  rw [lt_div_iff₀ positive]
  calc 2 ^ (-1075 : ℤ) * length
    _ ≤ 2 ^ (-1075 : ℤ) * (8 * |a| ^ 2) := by
      rw [sq_abs]
      exact mul_le_mul_of_nonneg_left close (by positivity)
    _ = |a| * (8 * 2 ^ (-1075 : ℤ) * |a|) := by ring
    _ < |a| * (8 * 2 ^ (-1075 : ℤ) * 2 ^ (1024 : ℤ)) := by
      apply mul_lt_mul_of_pos_left _ nonzero
      exact mul_lt_mul_of_pos_left (small.trans (sub_lt_self _ (by positivity))) (by positivity)
    _ = |a| * (8 * 2 ^ (-51 : ℤ)) := by
      rw [mul_assoc 8, ← zpow_add₀ two_ne_zero]
      rfl
    _ ≤ |a| := mul_le_of_le_one_right nonzero.le (by norm_num)

theorem inverse_re (z : Complex Float) : z.inverse.re = z.re / z.squaredLength :=
  rfl

theorem inverse_im (z : Complex Float) : z.inverse.im = -z.im / z.squaredLength :=
  rfl

/-- With a squared length that is neither zero nor infinite, the inverse is finite and not
zero: the larger component is not lost. -/
theorem inverse_of_inRange
    (finite : z.isFinite = true)
    (nonzero : (z.squaredLength == 0) = false)
    (inside : z.squaredLength.isFinite = true) :
    z.inverse.isFinite = true ∧ z.inverse.vanishes = false := by
  obtain ⟨re, im⟩ := isFinite_eq_true_iff.mp finite
  obtain ⟨⟨m, e, positive, unpacked⟩, inRange⟩ := inRange_squaredLength finite nonzero inside
  obtain ⟨reSign, first⟩ := rounds_div re unpacked
  obtain ⟨imSign, second⟩ := rounds_div (isFinite_neg im) unpacked
  rw [abs_exact_neg im] at second
  have length : 0 < |exact z.squaredLength| := LT.lt.trans_le (by positivity) inRange.smallest
  have upper := inRange.upper
  constructor
  · exact isFinite_eq_true_iff.mpr
      ⟨first.isFinite_of_lt (div_lt_overflow inRange.smallest inRange.re),
        second.isFinite_of_lt (div_lt_overflow inRange.smallest inRange.im)⟩
  · refine Bool.eq_false_of_not_eq_true fun vanishes => ?_
    obtain ⟨zeroFirst, zeroSecond⟩ := Bool.and_eq_true_iff.mp vanishes
    obtain ⟨_, zeroFirst⟩ := beq_zero_iff.mp zeroFirst
    obtain ⟨_, zeroSecond⟩ := beq_zero_iff.mp zeroSecond
    rw [inverse_re] at zeroFirst
    rw [inverse_im] at zeroSecond
    rw [zeroFirst] at first
    rw [zeroSecond] at second
    rcases le_total (exact z.im ^ 2) (exact z.re ^ 2) with larger | larger
    · have := lt_div length (abs_exact_lt re) (by linarith)
      cases first with
      | zero tiny => linarith
    · have := lt_div length (abs_exact_lt im) (by linarith)
      cases second with
      | zero tiny => linarith

theorem isFinite_inverse_of_zero (zero : (z.squaredLength == 0) = true) :
    z.inverse.isFinite = false := by
  obtain ⟨sign, zero⟩ := beq_zero_iff.mp zero
  refine Bool.eq_false_of_not_eq_true fun finite => ?_
  have re : (Float.Model.pack (UnpackedFloat.div Format.binary64 z.re.toModel.unpack
      z.squaredLength.toModel.unpack)).isFinite = true := (isFinite_eq_true_iff.mp finite).1
  replace re := isFinite_of_pack re
  rw [zero] at re
  cases unpacked : z.re.toModel.unpack <;> rw [unpacked] at re <;> cases re

/-- What is divided by an infinite number becomes zero. -/
theorem vanishes_inverse_of_infinite
    (finite : z.isFinite = true)
    (infinite : z.squaredLength.isFinite = false) :
    z.inverse.vanishes = true := by
  obtain ⟨re, im⟩ := isFinite_eq_true_iff.mp finite
  have unpacked : z.squaredLength.toModel.unpack = .infinity .positive := by
    rcases rounds_add (rounds_square re) (rounds_square im) with ⟨same, _⟩ | ⟨_, _, rounds⟩
    · exact same
    · change Rounds _ _ z.squaredLength.toModel.unpack at rounds
      change z.squaredLength.toModel.unpack.isFinite = false at infinite
      generalize z.squaredLength.toModel.unpack = sum at *
      cases rounds with
      | zero | finite => cases infinite
      | infinity => rfl
  have lost {x : Float} (finite : Magnitude.isFinite x = true) :
      (x / z.squaredLength == 0) = true := by
    rw [beq_zero_iff]
    change ∃ sign, (Float.Model.pack (UnpackedFloat.div Format.binary64 x.toModel.unpack
      z.squaredLength.toModel.unpack)).unpack = .zero sign
    change x.toModel.unpack.isFinite = true at finite
    rw [unpacked]
    generalize x.toModel.unpack = a at *
    cases a with
    | infinity | notANumber => cases finite
    | zero | finite => exact ⟨_, unpack_pack_zero _⟩
  exact Bool.and_eq_true_iff.mpr ⟨lost re, lost (isFinite_neg im)⟩

/-- As the left factor of a product, one neither makes nor removes an infinite component. -/
theorem isFinite_one_mul (w : Complex Float) : (1 * w).isFinite = w.isFinite := by
  refine Bool.eq_iff_iff.mpr ⟨fun finite => (isFinite_of_mul finite).2, fun finite => ?_⟩
  obtain ⟨re, im⟩ := isFinite_eq_true_iff.mp finite
  obtain ⟨_, reZero⟩ := unpack_zero_mul re
  obtain ⟨_, imZero⟩ := unpack_zero_mul im
  exact isFinite_eq_true_iff.mpr
    ⟨(isFinite_add_sub_of_zero (isFinite_one_mul_of_isFinite re) imZero).2,
      (isFinite_add_sub_of_zero (isFinite_one_mul_of_isFinite im) reZero).1⟩

/-- Where the inverse of a finite number fails. If the squared length is neither zero nor
infinite, the inverse is finite and not zero. If the squared length is zero, some component of
the inverse is no finite number, and if it is infinite, the inverse is zero. The former happens
exactly where both exact squares are too small for the format, and the latter where their sum
is too large for it, up to the rounding of the squares. One divided by the number is finite
wherever the inverse is. -/
theorem inverse_fails_where_squared_length_leaves_range
    (z : Complex Float)
    (finite : z.isFinite = true) :
    ((z.squaredLength == 0) = false → z.squaredLength.isFinite = true →
      z.inverse.isFinite = true ∧ z.inverse.vanishes = false) ∧
    ((z.squaredLength == 0) = true → z.inverse.isFinite = false) ∧
    (z.squaredLength.isFinite = false → z.inverse.vanishes = true) ∧
    ((z.squaredLength == 0) = true ↔
      exact z.re ^ 2 ≤ 2 ^ (-1075 : ℤ) ∧ exact z.im ^ 2 ≤ 2 ^ (-1075 : ℤ)) ∧
    (z.squaredLength.isFinite = false →
      2 ^ 1024 - 3 * 2 ^ 970 ≤ exact z.re ^ 2 + exact z.im ^ 2) ∧
    (2 ^ 1024 + 2 ^ 970 < exact z.re ^ 2 + exact z.im ^ 2 →
      z.squaredLength.isFinite = false) ∧
    (divide 1 z).isFinite = z.inverse.isFinite :=
  ⟨inverse_of_inRange finite, isFinite_inverse_of_zero, vanishes_inverse_of_infinite finite,
    squaredLength_beq_zero_iff finite, le_of_squaredLength_infinite finite,
    squaredLength_infinite_of_lt finite, isFinite_one_mul z.inverse⟩

/-- Two to the power of minus 600 and of 600. -/
def farApart : Float × Float :=
  (Float.ofBits 0x1a70000000000000, Float.ofBits 0x6570000000000000)

/-- Of three numbers with reciprocals in the middle of the range, only the first has an inverse
that is finite and not zero. -/
theorem inverse_fails_at_two_of_three :
    ((inverse ⟨3, 4⟩ : Complex Float).isFinite = true ∧
        (inverse ⟨3, 4⟩ : Complex Float).vanishes = false) ∧
      (inverse ⟨farApart.1, 0⟩).isFinite = false ∧
      (inverse ⟨farApart.2, 0⟩).vanishes = true := by
  refine ⟨?_, ?_, ?_⟩
  · exact (inverse_fails_where_squared_length_leaves_range ⟨3, 4⟩ (by decide +kernel)).1
      (by decide +kernel) (by decide +kernel)
  · exact (inverse_fails_where_squared_length_leaves_range ⟨farApart.1, 0⟩
      (by decide +kernel)).2.1 (by decide +kernel)
  · exact (inverse_fails_where_squared_length_leaves_range ⟨farApart.2, 0⟩
      (by decide +kernel)).2.2.1 (by decide +kernel)

/-- The number that a finite complex double stands for. -/
def rational (z : Complex Float) : Complex ℚ :=
  ⟨exact z.re, exact z.im⟩

/-- A finite number that is not zero need not have a finite inverse, although its exact
reciprocal is far from both ends of the range. -/
theorem not_isFinite_inverse_of_reciprocal_in_range :
    ¬ ∀ z : Complex Float, z.isFinite = true → z.vanishes = false →
      |z.rational.inverse.re| ≤ (2 ^ 53 - 1) * 2 ^ (971 : ℤ) →
      |z.rational.inverse.im| ≤ (2 ^ 53 - 1) * 2 ^ (971 : ℤ) →
      (2 ^ (-1022 : ℤ) ≤ |z.rational.inverse.re| ∨
        2 ^ (-1022 : ℤ) ≤ |z.rational.inverse.im|) →
      z.inverse.isFinite = true ∧ z.inverse.vanishes = false := by
  intro claimed
  have small : farApart.1.toModel.unpack =
      .finite .positive (2 ^ 52) (-652) (Nat.two_pow_pos 52) := rfl
  have re : exact farApart.1 = 2 ^ (-600 : ℤ) := by
    rw [exact, small, value, Sign.apply, Int.cast_natCast, Nat.cast_pow, Nat.cast_ofNat,
      ← zpow_natCast, ← zpow_add₀ two_ne_zero]
    rfl
  have im : exact 0 = 0 := rfl
  have reciprocal : (rational ⟨farApart.1, 0⟩).inverse = ⟨2 ^ (600 : ℤ), 0⟩ := by
    have power : (2 : ℚ) ^ (-600 : ℤ) / (2 ^ (-600 : ℤ) * 2 ^ (-600 : ℤ)) = 2 ^ (600 : ℤ) := by
      rw [div_mul_cancel_left₀ (zpow_ne_zero _ two_ne_zero), ← zpow_neg]
      rfl
    rw [rational, re, im, inverse, mul_zero, add_zero, neg_zero, zero_div, power]
  have inside : |(2 : ℚ) ^ (600 : ℤ)| ≤ (2 ^ 53 - 1) * 2 ^ (971 : ℤ) := by
    rw [abs_of_pos (by positivity)]
    exact (zpow_le_zpow_right₀ one_le_two (by norm_num)).trans
      (le_mul_of_one_le_left (by positivity) (by norm_num))
  have large : (2 : ℚ) ^ (-1022 : ℤ) ≤ |2 ^ (600 : ℤ)| := by
    rw [abs_of_pos (by positivity)]
    exact zpow_le_zpow_right₀ one_le_two (by norm_num)
  have finite := (claimed ⟨farApart.1, 0⟩ (by decide +kernel) (by decide +kernel)
    (by rw [reciprocal]; exact inside)
    (by rw [reciprocal, abs_zero]; exact (abs_nonneg _).trans inside)
    (by rw [reciprocal]; exact .inl large)).1
  have infinite : (inverse ⟨farApart.1, 0⟩).isFinite = false := by decide +kernel
  cases finite.symm.trans infinite

end Complex

end RootTrace
