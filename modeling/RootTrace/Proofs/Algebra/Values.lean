import RootTrace.Proofs.Algebra.Packing

/-!
# Exact values of doubles

Every finite double stands for a rational number. Products, quotients, and sums of numbers
that are not below zero are rounded once: the result is nearest to the exact one, zero if that
is too small for the format, and infinite if it is too large.
-/

namespace RootTrace

namespace Binary64

open Float.Model UnpackedFloat

/-- The number that a finite double stands for. -/
def value : UnpackedFloat → ℚ
  | .finite sign m e _ => sign.apply m * 2 ^ e
  | _ => 0

/-- The number that a finite double stands for. -/
def exact (x : Float) : ℚ :=
  value x.toModel.unpack

@[simp] theorem value_zero (sign : Sign) : value (.zero sign) = 0 :=
  rfl

@[simp] theorem value_infinity (sign : Sign) : value (.infinity sign) = 0 :=
  rfl

theorem abs_value_finite {sign : Sign} {m : ℕ} {e : ℤ} {positive : 0 < m} :
    |value (.finite sign m e positive)| = m * 2 ^ e := by
  have unit : (0 : ℚ) ≤ m * 2 ^ e := by positivity
  cases sign with
  | negative =>
      rw [value, Sign.apply, Int.cast_neg, neg_mul, abs_neg, Int.cast_natCast,
        abs_of_nonneg unit]
  | positive => rw [value, Sign.apply, Int.cast_natCast, abs_of_nonneg unit]

/-! ## What a number is rounded to -/

/-- A double that a number of the absolute value `v` is rounded to. -/
inductive Rounds (sign : Sign) (v : ℚ) : UnpackedFloat → Prop where
  | zero (tiny : v ≤ 2 ^ (-1075 : ℤ)) : Rounds sign v (.zero sign)
  | finite (m : ℕ) (e : ℤ) (positive : 0 < m)
      (canonical : Canonical m e)
      (inside : e ≤ 971)
      (large : 2 ^ (-1075 : ℤ) < v)
      (near : |m * 2 ^ e - v| ≤ 2 ^ e / 2) :
      Rounds sign v (.finite sign m e positive)
  | infinity (huge : 2 ^ 1024 - 2 ^ 970 ≤ v) : Rounds sign v (.infinity sign)

/-- Half way from the largest double to the next power of two. -/
theorem overflow_eq : (2 : ℚ) ^ 1024 - 2 ^ 970 = (2 ^ 54 - 1) * 2 ^ (970 : ℤ) := by
  rw [show 1024 = 54 + 970 by rfl, pow_add, sub_mul, one_mul]
  rfl

theorem two_zpow_lt_overflow {e : ℤ} (small : e < 970) : (2 : ℚ) ^ e < 2 ^ 1024 - 2 ^ 970 := by
  rw [overflow_eq]
  calc (2 : ℚ) ^ e
    _ < 2 ^ (970 : ℤ) := zpow_lt_zpow_right₀ one_lt_two small
    _ ≤ (2 ^ 54 - 1) * 2 ^ (970 : ℤ) := le_mul_of_one_le_left (by positivity) (by norm_num)

section Rounds

variable {sign : Sign} {v : ℚ} {x : UnpackedFloat} {m : ℕ} {e : ℤ}

/-- The nearest number is what rounding gives, also once it has been packed into a word. -/
theorem Nearest.rounds (nearest : Nearest sign v x) :
    Rounds sign v (Float.Model.pack x).unpack := by
  cases nearest with
  | zero tiny =>
      rw [unpack_pack_zero]
      exact .zero tiny
  | finite m e positive canonical large near low =>
      rcases le_or_gt e 971 with inside | outside
      · rw [unpack_pack_finite canonical inside]
        exact .finite m e positive canonical inside large near
      · rw [unpack_pack_overflow (by omega)]
        refine .infinity ?_
        calc (2 : ℚ) ^ 1024 - 2 ^ 970
          _ = (2 ^ 52 - 1 / 4) * 2 ^ (972 : ℤ) := by
            rw [overflow_eq, show (972 : ℤ) = 2 + 970 by rfl, zpow_add₀ two_ne_zero, ← mul_assoc]
            norm_num
          _ ≤ (2 ^ 52 - 1 / 4) * 2 ^ e := by
            apply mul_le_mul_of_nonneg_left _ (by norm_num)
            exact zpow_le_zpow_right₀ one_le_two (by omega)
          _ ≤ v := low.resolve_left (by omega)

/-- A double is what its own value is rounded to. -/
theorem Rounds.refl (canonical : Canonical m e) (inside : e ≤ 971) (positive : 0 < m) :
    Rounds sign (m * 2 ^ e) (.finite sign m e positive) := by
  refine .finite m e positive canonical inside ?_ ?_
  · exact half_smallest_lt.trans_le (canonical.smallest_le positive)
  · rw [sub_self, abs_zero]
    positivity

/-- The largest finite doubles stay below the numbers that become infinite. -/
theorem Canonical.lt_overflow (canonical : Canonical m e) (inside : e ≤ 971) :
    (m : ℚ) * 2 ^ e + 2 ^ e / 2 ≤ 2 ^ 1024 - 2 ^ 970 := by
  have room : (m : ℚ) + 1 ≤ 2 ^ 53 := by exact_mod_cast canonical.fits
  calc (m : ℚ) * 2 ^ e + 2 ^ e / 2
    _ = (m + 1 / 2) * 2 ^ e := by ring
    _ ≤ (2 ^ 53 - 1 / 2) * 2 ^ (971 : ℤ) := by
      apply mul_le_mul (by linarith) (zpow_le_zpow_right₀ one_le_two inside) <;> positivity
    _ = 2 ^ 1024 - 2 ^ 970 := by
      rw [overflow_eq, show (971 : ℤ) = 1 + 970 by rfl, zpow_add₀ two_ne_zero, ← mul_assoc]
      norm_num

theorem Rounds.isFinite_of_lt (rounds : Rounds sign v x) (small : v < 2 ^ 1024 - 2 ^ 970) :
    x.isFinite = true := by
  cases rounds with
  | zero | finite => rfl
  | infinity huge => exact absurd small (not_lt.mpr huge)

theorem Rounds.eq_zero_iff (rounds : Rounds sign v x) :
    x = .zero sign ↔ v ≤ 2 ^ (-1075 : ℤ) := by
  cases rounds with
  | zero tiny => exact iff_of_true rfl tiny
  | finite m e positive canonical inside large near =>
      exact iff_of_false nofun (not_le.mpr large)
  | infinity huge =>
      exact iff_of_false nofun (not_le.mpr ((two_zpow_lt_overflow (by norm_num)).trans_le huge))

/-- Rounding at most doubles a number. -/
theorem Rounds.abs_value_le (rounds : Rounds sign v x) (nonnegative : 0 ≤ v) :
    |value x| ≤ 2 * v := by
  cases rounds with
  | zero =>
      rw [value_zero, abs_zero]
      exact mul_nonneg two_pos.le nonnegative
  | infinity =>
      rw [value_infinity, abs_zero]
      exact mul_nonneg two_pos.le nonnegative
  | finite m e positive canonical inside large near =>
      have unit := spacing_le positive e
      rw [abs_value_finite]
      have := (abs_le.mp near).2
      linarith

/-- Rounding at most halves a number that does not vanish. -/
theorem Rounds.le_abs_value
    (rounds : Rounds sign v x)
    (finite : x.isFinite = true)
    (nonzero : x ≠ .zero sign) :
    v ≤ 2 * |value x| := by
  cases rounds with
  | zero => exact absurd rfl nonzero
  | infinity => cases finite
  | finite m e positive canonical inside large near =>
      have unit := spacing_le positive e
      rw [abs_value_finite]
      have := (abs_le.mp near).1
      have : (0 : ℚ) < 2 ^ e := by positivity
      linarith

/-- Rounding to a finite double moves a number by no more than half of the largest spacing. -/
theorem Rounds.abs_sub_le
    (rounds : Rounds sign v x)
    (finite : x.isFinite = true)
    (nonnegative : 0 ≤ v) :
    |(|value x|) - v| ≤ 2 ^ 970 := by
  rw [← zpow_natCast, Nat.cast_ofNat]
  cases rounds with
  | infinity => cases finite
  | zero tiny =>
      rw [value_zero, abs_zero, zero_sub, abs_neg, abs_of_nonneg nonnegative]
      exact tiny.trans (zpow_le_zpow_right₀ one_le_two (by norm_num))
  | finite m e positive canonical inside large near =>
      rw [abs_value_finite]
      refine near.trans ?_
      rw [div_le_iff₀ two_pos, ← zpow_add_one₀ two_ne_zero]
      exact zpow_le_zpow_right₀ one_le_two (by omega)

/-- The smallest double that is not zero. -/
theorem Rounds.zero_or_le_abs_value (rounds : Rounds sign v x) (finite : x.isFinite = true) :
    x = .zero sign ∨ 2 ^ (-1074 : ℤ) ≤ |value x| := by
  cases rounds with
  | zero => exact .inl rfl
  | infinity => cases finite
  | finite m e positive canonical inside large near =>
      right
      rw [abs_value_finite]
      exact canonical.smallest_le positive

/-- Only values up to the midpoint between the largest double and the power of two behind it are
rounded to finite numbers. -/
theorem Rounds.le_of_isFinite (rounds : Rounds sign v x) (finite : x.isFinite = true) :
    v ≤ 2 ^ 1024 - 2 ^ 970 := by
  cases rounds with
  | infinity => cases finite
  | zero tiny => exact tiny.trans (two_zpow_lt_overflow (by norm_num)).le
  | finite m e positive canonical inside large near =>
      have := (abs_le.mp near).1
      exact le_trans (by linarith) (canonical.lt_overflow inside)

theorem Rounds.le_of_infinity (rounds : Rounds sign v (.infinity sign)) :
    2 ^ 1024 - 2 ^ 970 ≤ v := by
  cases rounds with
  | infinity huge => exact huge

end Rounds

/-! ## Operations -/

section Operations

variable {s₁ s₂ : Sign} {m₁ m₂ : ℕ} {e₁ e₂ : ℤ} {positive₁ : 0 < m₁} {positive₂ : 0 < m₂}

theorem nearest_mul_of_le
    (below : e₁ + e₂ ≤ Format.binary64.targetExponent (totalExponent (m₁ * m₂) (e₁ + e₂))) :
    Nearest (s₁ * s₂) (m₁ * 2 ^ e₁ * (m₂ * 2 ^ e₂))
      (UnpackedFloat.mul Format.binary64 (.finite s₁ m₁ e₁ positive₁)
        (.finite s₂ m₂ e₂ positive₂)) := by
  have value : (m₁ : ℚ) * 2 ^ e₁ * (m₂ * 2 ^ e₂) = (m₁ * m₂ : ℕ) * 2 ^ (e₁ + e₂) := by
    rw [zpow_add₀ two_ne_zero]
    push_cast
    ring
  rw [value]
  exact nearest_roundWithAccuracy (brackets_exact _) below

/-- A product is the exact one, rounded once. -/
theorem nearest_mul (first : Canonical m₁ e₁) (second : Canonical m₂ e₂) :
    Nearest (s₁ * s₂) (m₁ * 2 ^ e₁ * (m₂ * 2 ^ e₂))
      (UnpackedFloat.mul Format.binary64 (.finite s₁ m₁ e₁ positive₁)
        (.finite s₂ m₂ e₂ positive₂)) := by
  apply nearest_mul_of_le
  rw [targetExponent_eq, totalExponent]
  have product := Nat.mul_pos positive₁ positive₂
  by_cases long : 2 ^ 52 ≤ m₁ * m₂
  · have := (Nat.le_log2 product.ne').mpr long
    omega
  · have := first.full.resolve_left fun full =>
      long (full.trans (Nat.le_mul_of_pos_right m₁ positive₂))
    have := second.full.resolve_left fun full =>
      long (full.trans (Nat.le_mul_of_pos_left m₂ positive₁))
    omega

/-- A sum of positive numbers is the exact one, rounded once. The terms are first brought to the
lower of their exponents. -/
theorem nearest_add_of_positive :
    Nearest .positive (m₁ * 2 ^ e₁ + m₂ * 2 ^ e₂)
      (UnpackedFloat.add Format.binary64 (.finite .positive m₁ e₁ positive₁)
        (.finite .positive m₂ e₂ positive₂)) := by
  have aligned (m : ℕ) (e : ℤ) (lower : min e₁ e₂ ≤ e) :
      (m : ℚ) * 2 ^ e = (decreaseExponent m e (min e₁ e₂)).1 * 2 ^ min e₁ e₂ := by
    rw [← decreaseExponent_value m e (min e₁ e₂)]
    congr 2
    unfold decreaseExponent
    dsimp only
    omega
  have shifted (m : ℕ) (e : ℤ) (positive : 0 < m) : 0 < (decreaseExponent m e (min e₁ e₂)).1 := by
    unfold decreaseExponent
    dsimp only
    rw [Nat.shiftLeft_eq]
    exact Nat.mul_pos positive (Nat.two_pow_pos _)
  rw [aligned m₁ e₁ (min_le_left _ _), aligned m₂ e₂ (min_le_right _ _), ← add_mul]
  have first := shifted m₁ e₁ positive₁
  have second := shifted m₂ e₂ positive₂
  unfold UnpackedFloat.add
  dsimp only
  generalize (decreaseExponent m₁ e₁ (min e₁ e₂)).1 = n₁ at *
  generalize (decreaseExponent m₂ e₂ (min e₁ e₂)).1 = n₂ at *
  have total : Sign.positive.apply n₁ + Sign.positive.apply n₂ = ((n₁ + n₂ : ℕ) : ℤ) := rfl
  have above : compare ((n₁ + n₂ : ℕ) : ℤ) 0 = .gt := compare_gt_iff_gt.mpr (by omega)
  rw [total, UnpackedFloat.normalize, above, Int.toNat_natCast, ← Nat.cast_add]
  exact nearest_round (by omega) _

/-- The quotient of the mantissas has all digits that the format asks for. -/
theorem nearest_div :
    Nearest (s₁ / s₂) (m₁ * 2 ^ e₁ / (m₂ * 2 ^ e₂))
      (UnpackedFloat.div Format.binary64 (.finite s₁ m₁ e₁ positive₁)
        (.finite s₂ m₂ e₂ positive₂)) := by
  unfold UnpackedFloat.div divCore
  dsimp only
  generalize position : totalExponent m₁ e₁ - totalExponent m₂ e₂ = total
  generalize chosen : min (e₁ - e₂) (Format.binary64.targetExponent total) = scale
  obtain ⟨count, shift⟩ : ∃ count : ℕ, e₁ - e₂ - scale = count :=
    ⟨(e₁ - e₂ - scale).toNat, by omega⟩
  rw [shift, Int.toNat_natCast]
  have value : (m₁ : ℚ) * 2 ^ e₁ / (m₂ * 2 ^ e₂) = (m₁ <<< count : ℕ) / m₂ * 2 ^ scale := by
    rw [Nat.shiftLeft_eq, Nat.cast_mul, Nat.cast_pow, Nat.cast_ofNat, mul_div_mul_comm,
      ← zpow_sub₀ two_ne_zero, show e₁ - e₂ = count + scale by omega, zpow_add₀ two_ne_zero,
      zpow_natCast]
    ring
  rw [value]
  apply nearest_roundWithAccuracy (brackets_fraction positive₂ _)
  rw [targetExponent_eq] at chosen ⊢
  by_cases lowest : scale ≤ -1074
  · omega
  · have digits : 2 ^ (total - 1 - scale).toNat ≤ (m₁ <<< count) / m₂ := by
      rw [Nat.le_div_iff_mul_le positive₂, Nat.shiftLeft_eq]
      calc 2 ^ (total - 1 - scale).toNat * m₂
        _ ≤ 2 ^ (total - 1 - scale).toNat * 2 ^ (m₂.log2 + 1) :=
          Nat.mul_le_mul_left _ Nat.lt_log2_self.le
        _ = 2 ^ m₁.log2 * 2 ^ count := by
          rw [← pow_add, ← pow_add]
          congr 1
          rw [totalExponent, totalExponent] at position
          omega
        _ ≤ m₁ * 2 ^ count := Nat.mul_le_mul_right _ (Nat.log2_self_le positive₁.ne')
    have := (Nat.le_log2 ((Nat.two_pow_pos _).trans_le digits).ne').mpr digits
    rw [totalExponent]
    omega

end Operations

/-! ## Operations of finite doubles -/

section Operations

variable {x y : Float}

theorem exact_sq_of_finite
    {sign : Sign} {m : ℕ} {e : ℤ} {positive : 0 < m}
    (unpacked : x.toModel.unpack = .finite sign m e positive) :
    exact x ^ 2 = m * 2 ^ e * (m * 2 ^ e) := by
  rw [exact, unpacked, ← sq_abs, abs_value_finite, sq]

theorem rounds_square (finite : Magnitude.isFinite x = true) :
    Rounds .positive (exact x ^ 2) (x * x).toModel.unpack := by
  change Rounds .positive (exact x ^ 2)
    (Float.Model.pack (UnpackedFloat.mul Format.binary64 x.toModel.unpack x.toModel.unpack)).unpack
  have same (sign : Sign) : sign * sign = .positive := by cases sign <;> rfl
  rcases unpack_of_isFinite finite with
    ⟨sign, unpacked⟩ | ⟨sign, m, e, positive, unpacked, canonical, _⟩
  · rw [exact, unpacked, UnpackedFloat.mul, unpack_pack_zero, same]
    exact .zero (by rw [value_zero]; positivity)
  · rw [exact_sq_of_finite unpacked, unpacked, ← same sign]
    exact (nearest_mul canonical canonical).rounds

/-- Two numbers that are not below zero are added to infinity, if one of them is infinite,
and else their sum is rounded. -/
theorem rounds_add
    {v w : ℚ}
    (first : Rounds .positive v x.toModel.unpack)
    (second : Rounds .positive w y.toModel.unpack) :
    (x + y).toModel.unpack = .infinity .positive ∧
        (x.toModel.unpack = .infinity .positive ∨ y.toModel.unpack = .infinity .positive) ∨
      x.toModel.unpack.isFinite = true ∧ y.toModel.unpack.isFinite = true ∧
        Rounds .positive (|exact x| + |exact y|) (x + y).toModel.unpack := by
  change (Float.Model.pack (UnpackedFloat.add Format.binary64 x.toModel.unpack
      y.toModel.unpack)).unpack = _ ∧ _ ∨ _ ∧ _ ∧ Rounds _ _ (Float.Model.pack
        (UnpackedFloat.add Format.binary64 x.toModel.unpack y.toModel.unpack)).unpack
  unfold exact
  generalize x.toModel.unpack = a at *
  generalize y.toModel.unpack = b at *
  cases first with
  | infinity =>
      refine .inl ⟨?_, .inl rfl⟩
      cases second <;> exact unpack_pack_infinity _
  | zero =>
      cases second with
      | infinity => exact .inl ⟨unpack_pack_infinity _, .inr rfl⟩
      | zero =>
          refine .inr ⟨rfl, rfl, ?_⟩
          simp only [value_zero, abs_zero, add_zero]
          exact (Nearest.zero (by positivity) : Nearest .positive 0 (.zero .positive)).rounds
      | finite m e positive canonical inside =>
          refine .inr ⟨rfl, rfl, ?_⟩
          change Rounds _ _ (Float.Model.pack (.finite .positive m e positive)).unpack
          rw [value_zero, abs_zero, zero_add, abs_value_finite, unpack_pack_finite canonical inside]
          exact .refl canonical inside positive
  | finite m e positive canonical inside =>
      cases second with
      | infinity => exact .inl ⟨unpack_pack_infinity _, .inr rfl⟩
      | zero =>
          refine .inr ⟨rfl, rfl, ?_⟩
          change Rounds _ _ (Float.Model.pack (.finite .positive m e positive)).unpack
          rw [value_zero, abs_zero, add_zero, abs_value_finite, unpack_pack_finite canonical inside]
          exact .refl canonical inside positive
      | finite n f positive' =>
          refine .inr ⟨rfl, rfl, ?_⟩
          rw [abs_value_finite, abs_value_finite]
          exact nearest_add_of_positive.rounds

/-- A quotient of doubles is the exact one, rounded once, with some sign. -/
theorem rounds_div
    (dividend : Magnitude.isFinite x = true)
    {sign : Sign} {m : ℕ} {e : ℤ} {positive : 0 < m}
    (divisor : y.toModel.unpack = .finite sign m e positive) :
    ∃ sign, Rounds sign (|exact x| / |exact y|) (x / y).toModel.unpack := by
  change ∃ sign, Rounds sign (|exact x| / |exact y|)
    (Float.Model.pack (UnpackedFloat.div Format.binary64 x.toModel.unpack y.toModel.unpack)).unpack
  unfold exact
  rw [divisor, abs_value_finite]
  rcases unpack_of_isFinite dividend with ⟨s, unpacked⟩ | ⟨s, m, e, positive, unpacked, _⟩
  · refine ⟨s / sign, ?_⟩
    rw [unpacked, UnpackedFloat.div, unpack_pack_zero, value_zero, abs_zero, zero_div]
    exact .zero (by positivity)
  · refine ⟨s / sign, ?_⟩
    rw [unpacked, abs_value_finite]
    exact nearest_div.rounds

theorem beq_zero_iff : (x == 0) = true ↔ ∃ sign, x.toModel.unpack = .zero sign := by
  change (x.toModel.unpack.compare (.zero .positive) == some .eq) = true ↔ _
  generalize x.toModel.unpack = a
  rcases a with (_ | _) | _ | sign | ⟨_ | _, m, e, positive⟩
  case zero => exact iff_of_true rfl ⟨sign, rfl⟩
  all_goals exact iff_of_false nofun nofun

theorem unpack_neg (finite : Magnitude.isFinite x = true) :
    (-x).toModel.unpack = x.toModel.unpack.neg := by
  change (Float.Model.pack x.toModel.unpack.neg).unpack = _
  rcases unpack_of_isFinite finite with
    ⟨sign, unpacked⟩ | ⟨sign, m, e, positive, unpacked, canonical, inside⟩
  · rw [unpacked]
    exact unpack_pack_zero _
  · rw [unpacked]
    exact unpack_pack_finite canonical inside

theorem isFinite_neg (finite : Magnitude.isFinite x = true) : Magnitude.isFinite (-x) = true := by
  change (-x).toModel.unpack.isFinite = true
  rw [unpack_neg finite]
  rcases unpack_of_isFinite finite with ⟨sign, unpacked⟩ | ⟨sign, m, e, positive, unpacked, _⟩
  · rw [unpacked]
    rfl
  · rw [unpacked]
    rfl

theorem abs_exact_neg (finite : Magnitude.isFinite x = true) : |exact (-x)| = |exact x| := by
  rw [exact, exact, unpack_neg finite]
  rcases unpack_of_isFinite finite with ⟨sign, unpacked⟩ | ⟨sign, m, e, positive, unpacked, _⟩
  · rw [unpacked]
    rfl
  · rw [unpacked]
    exact abs_value_finite.trans abs_value_finite.symm

theorem abs_exact_lt (finite : Magnitude.isFinite x = true) : |exact x| < 2 ^ 1024 - 2 ^ 970 := by
  unfold exact
  rcases unpack_of_isFinite finite with
    ⟨sign, unpacked⟩ | ⟨sign, m, e, positive, unpacked, canonical, inside⟩
  · rw [unpacked, value_zero, abs_zero, overflow_eq]
    exact mul_pos (by norm_num) (by positivity)
  · rw [unpacked, abs_value_finite]
    exact (lt_add_of_pos_right _ (by positivity)).trans_le (canonical.lt_overflow inside)

theorem isFinite_one_mul_of_isFinite (finite : Magnitude.isFinite x = true) :
    Magnitude.isFinite (1 * x) = true := by
  have one : (1 : Float).toModel.unpack =
      .finite .positive (2 ^ 52) (-52) (Nat.two_pow_pos 52) := rfl
  have oneCanonical : Canonical (2 ^ 52) (-52) := ⟨by norm_num, by norm_num, .inl le_rfl⟩
  change (Float.Model.pack (UnpackedFloat.mul Format.binary64 (1 : Float).toModel.unpack
    x.toModel.unpack)).unpack.isFinite = true
  rcases unpack_of_isFinite finite with
    ⟨sign, unpacked⟩ | ⟨sign, m, e, positive, unpacked, canonical, inside⟩
  · rw [one, unpacked]
    exact congrArg UnpackedFloat.isFinite (unpack_pack_zero _)
  · rw [one, unpacked]
    refine (nearest_mul oneCanonical canonical).rounds.isFinite_of_lt ?_
    calc ((2 ^ 52 : ℕ) : ℚ) * 2 ^ (-52 : ℤ) * (m * 2 ^ e)
      _ = |exact x| := by
        rw [exact, unpacked, abs_value_finite]
        norm_num
      _ < 2 ^ 1024 - 2 ^ 970 := abs_exact_lt finite

theorem unpack_zero_mul (finite : Magnitude.isFinite x = true) :
    ∃ sign, (0 * x).toModel.unpack = .zero sign := by
  change ∃ sign, (Float.Model.pack (UnpackedFloat.mul Format.binary64 (.zero .positive)
    x.toModel.unpack)).unpack = .zero sign
  rcases unpack_of_isFinite finite with ⟨sign, unpacked⟩ | ⟨sign, m, e, positive, unpacked, _⟩
  · rw [unpacked]
    exact ⟨_, unpack_pack_zero _⟩
  · rw [unpacked]
    exact ⟨_, unpack_pack_zero _⟩

/-- Adding or taking away zero leaves a finite number finite. -/
theorem isFinite_add_sub_of_zero
    (finite : Magnitude.isFinite x = true)
    {sign : Sign}
    (zero : y.toModel.unpack = .zero sign) :
    Magnitude.isFinite (x + y) = true ∧ Magnitude.isFinite (x - y) = true := by
  change (Float.Model.pack (UnpackedFloat.add Format.binary64 x.toModel.unpack
      y.toModel.unpack)).unpack.isFinite = true ∧
    (Float.Model.pack (UnpackedFloat.sub Format.binary64 x.toModel.unpack
      y.toModel.unpack)).unpack.isFinite = true
  rw [zero]
  rcases unpack_of_isFinite finite with
    ⟨other, unpacked⟩ | ⟨other, m, e, positive, unpacked, canonical, inside⟩
  · rw [unpacked]
    cases sign <;> cases other <;> exact ⟨rfl, rfl⟩
  · rw [unpacked]
    have kept : (Float.Model.pack (.finite other m e positive)).unpack.isFinite = true :=
      congrArg UnpackedFloat.isFinite (unpack_pack_finite canonical inside)
    exact ⟨kept, kept⟩

end Operations

end Binary64
end RootTrace
