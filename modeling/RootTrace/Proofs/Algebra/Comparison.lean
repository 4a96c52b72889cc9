import Mathlib

/-!
# The order of doubles

Doubles that are numbers are ordered by sign, exponent and mantissa, in the direction that
the sign gives. An indeterminate double compares with nothing. Whatever stands below a bound
therefore stands below every higher bound, as over an ordered field.
-/

namespace RootTrace

open Float.Model

namespace Binary64

/-- Where an unpacked double stands: by its sign, then by its exponent, then by its mantissa.
Both zeros stand at the same place. -/
def rank : UnpackedFloat → ℤ ×ₗ ℤ ×ₗ ℤ
  | .notANumber => toLex (0, toLex (0, 0))
  | .infinity .negative => toLex (-2, toLex (0, 0))
  | .finite .negative m e _ => toLex (-1, toLex (-e, -m))
  | .zero _ => toLex (0, toLex (0, 0))
  | .finite .positive m e _ => toLex (1, toLex (e, m))
  | .infinity .positive => toLex (2, toLex (0, 0))

variable {x y z : UnpackedFloat}

theorem compare_neg_neg (a b : ℤ) : compare (-a) (-b) = compare b a := by
  rw [← cmp_eq_compare, ← cmp_eq_compare]
  exact StrictAnti.cmp_map_eq (fun _ _ => neg_lt_neg) a b

theorem compare_natCast (a b : ℕ) : compare (a : ℤ) (b : ℤ) = compare a b := by
  rw [← cmp_eq_compare, ← cmp_eq_compare]
  exact Nat.strictMono_cast.cmp_map_eq a b

theorem ne_notANumber_of_compare
    {order : Ordering}
    (compared : x.compare y = some order) :
    x ≠ .notANumber ∧ y ≠ .notANumber := by
  constructor
  · rintro rfl
    cases compared
  · rintro rfl
    cases x <;> cases compared

/-- Two numbers are compared by their ranks. Numbers of the same kind and sign are compared by
exponent and mantissa, and all others by kind and sign alone. -/
theorem compare_eq_compare_rank
    (first : x ≠ .notANumber)
    (second : y ≠ .notANumber) :
    x.compare y = some (compare (rank x) (rank y)) := by
  rcases x with (_ | _) | _ | _ | ⟨_ | _, m, e, _⟩
  case notANumber => exact absurd rfl first
  all_goals rcases y with (_ | _) | _ | _ | ⟨_ | _, m', e', _⟩
  case finite.negative.finite.negative =>
    change some ((compare e e').then (compare m m')).swap =
      some ((compare (-e) (-e')).then (compare (-(m : ℤ)) (-(m' : ℤ))))
    rw [Ordering.swap_then, ← Std.OrientedOrd.eq_swap, ← Std.OrientedOrd.eq_swap,
      compare_neg_neg, compare_neg_neg, compare_natCast]
  case finite.positive.finite.positive =>
    change some ((compare e e').then (compare m m')) =
      some ((compare e e').then (compare (m : ℤ) (m' : ℤ)))
    rw [compare_natCast]
  any_goals exact absurd rfl second
  all_goals rfl

/-- Being less is being less in rank, for numbers. -/
theorem lt_iff_rank_lt :
    x.lt y = true ↔ x ≠ .notANumber ∧ y ≠ .notANumber ∧ rank x < rank y := by
  constructor
  · intro below
    have compared : x.compare y = some .lt := beq_iff_eq.mp below
    obtain ⟨first, second⟩ := ne_notANumber_of_compare compared
    rw [compare_eq_compare_rank first second] at compared
    exact ⟨first, second, compare_lt_iff_lt.mp (Option.some.inj compared)⟩
  · rintro ⟨first, second, below⟩
    rw [UnpackedFloat.lt, compare_eq_compare_rank first second, compare_lt_iff_lt.mpr below]
    rfl

theorem rank_le_of_le (atMost : x.le y = true) :
    x ≠ .notANumber ∧ y ≠ .notANumber ∧ rank x ≤ rank y := by
  obtain ⟨order, compared, notAbove⟩ := (Option.any_eq_true _ _).mp atMost
  obtain ⟨first, second⟩ := ne_notANumber_of_compare compared
  rw [compare_eq_compare_rank first second, Option.some.injEq] at compared
  rw [← compared] at notAbove
  exact ⟨first, second, compare_le_iff_le.mp (Ordering.isLE_iff_ne_gt.mp notAbove)⟩

/-- An indeterminate double stands neither below a bound nor beside one. -/
theorem lt_of_lt_of_le (first : x.lt y = true) (second : y.le z = true) : x.lt z = true := by
  obtain ⟨number, _, below⟩ := lt_iff_rank_lt.mp first
  obtain ⟨_, number', atMost⟩ := rank_le_of_le second
  exact lt_iff_rank_lt.mpr ⟨number, number', below.trans_le atMost⟩

end Binary64

instance Binary64.transLtLe : Trans (LT.lt : Float → Float → Prop) (LE.le : Float → Float → Prop)
    (LT.lt : Float → Float → Prop) where
  trans below atMost := by
    have first : UnpackedFloat.lt _ _ = true := of_decide_eq_true below
    have second : UnpackedFloat.le _ _ = true := of_decide_eq_true atMost
    exact decide_eq_true (Binary64.lt_of_lt_of_le first second)

end RootTrace
