import Mathlib.Data.Rat.Floor
import Mathlib.Algebra.Order.Round
import Mathlib.Tactic.Linarith
import Mathlib.Tactic.Positivity
import Mathlib.Tactic.FieldSimp

/-!
# Decimal rounding

Rational numbers rounded to a number of decimals, in the two ways a program and its database do.

* `roundHalfEven`          the nearest integer, ties to the even one;
* `roundTo n`              `round(·, n)`: ties to even at `n` decimals;
* `roundHalfAway`          the nearest integer, ties away from zero;
* `numericTo n`            storage in a column of `n` decimals: ties away from zero.

A decimal of `n` places is kept, and rounding is monotone, so that a bound of `n` places which
holds before rounding holds after it (`le_roundTo`, `roundTo_le`).  Neither way moves a number by
more than half a unit (`roundTo_le_add`, `abs_numericTo_sub_le`), and a tie goes up exactly to an
even one (`even_le_roundTo`).
-/

namespace Kit

/-- the nearest integer, ties to the even one -/
def roundHalfEven (q : ℚ) : ℤ :=
  if q - ⌊q⌋ < 1 / 2 then ⌊q⌋
  else if 1 / 2 < q - ⌊q⌋ then ⌊q⌋ + 1
  else if ⌊q⌋ % 2 = 0 then ⌊q⌋
  else ⌊q⌋ + 1

/-- `round(q, n)` -/
def roundTo (n : ℕ) (q : ℚ) : ℚ := roundHalfEven (q * 10 ^ n) / 10 ^ n

/-- the nearest integer, ties away from zero -/
def roundHalfAway (q : ℚ) : ℤ := if 0 ≤ q then ⌊q + 1 / 2⌋ else ⌈q - 1 / 2⌉

/-- storage with `n` decimals -/
def numericTo (n : ℕ) (q : ℚ) : ℚ := roundHalfAway (q * 10 ^ n) / 10 ^ n

theorem roundHalfEven_intCast (k : ℤ) : roundHalfEven (k : ℚ) = k := by
  unfold roundHalfEven
  rw [Int.floor_intCast, if_pos (by norm_num)]

theorem floor_le_roundHalfEven (q : ℚ) : ⌊q⌋ ≤ roundHalfEven q := by
  unfold roundHalfEven
  split
  · exact le_refl _
  · split
    · omega
    · split <;> omega

theorem roundHalfEven_le_floor_add_one (q : ℚ) : roundHalfEven q ≤ ⌊q⌋ + 1 := by
  unfold roundHalfEven
  split
  · omega
  · split
    · exact le_refl _
    · split <;> omega

/-- an integer bound from below survives rounding -/
theorem le_roundHalfEven {k : ℤ} {q : ℚ} (h : (k : ℚ) ≤ q) : k ≤ roundHalfEven q :=
  le_trans (Int.le_floor.mpr h) (floor_le_roundHalfEven q)

theorem roundHalfEven_le {k : ℤ} {q : ℚ} (h : q ≤ k) : roundHalfEven q ≤ k := by
  rcases lt_or_eq_of_le h with hlt | heq
  · have : ⌊q⌋ < k := Int.floor_lt.mpr hlt
    have := roundHalfEven_le_floor_add_one q
    omega
  · rw [heq, roundHalfEven_intCast]

theorem roundHalfEven_mono {p q : ℚ} (h : p ≤ q) : roundHalfEven p ≤ roundHalfEven q := by
  rcases lt_or_eq_of_le (Int.floor_mono h) with hlt | heq
  · have h1 := roundHalfEven_le_floor_add_one p
    have h2 := floor_le_roundHalfEven q
    omega
  · -- on one floor, the larger number is the first to go up
    unfold roundHalfEven
    rw [heq]
    by_cases hq : q - ⌊q⌋ < 1 / 2
    · rw [if_pos hq, if_pos (by linarith)]
    · rw [if_neg hq]
      by_cases hq' : 1 / 2 < q - ⌊q⌋
      · rw [if_pos hq']
        split
        · omega
        · split
          · exact le_refl _
          · split <;> omega
      · have hp' : ¬1 / 2 < p - ⌊q⌋ := by
          intro hp
          exact hq' (lt_of_lt_of_le hp (by linarith))
        rw [if_neg hq', if_neg hp']
        split
        · split <;> omega
        · exact le_refl _

theorem roundTo_mono (n : ℕ) {p q : ℚ} (h : p ≤ q) : roundTo n p ≤ roundTo n q := by
  have h10 : (0 : ℚ) < 10 ^ n := by positivity
  unfold roundTo
  rw [div_le_div_iff_of_pos_right h10]
  exact_mod_cast roundHalfEven_mono (mul_le_mul_of_nonneg_right h (le_of_lt h10))

/-- **A lower bound with `n` decimals survives rounding to `n` decimals.** -/
theorem le_roundTo {n : ℕ} {k : ℤ} {q : ℚ} (h : (k : ℚ) / 10 ^ n ≤ q) :
    (k : ℚ) / 10 ^ n ≤ roundTo n q := by
  have h10 : (0 : ℚ) < 10 ^ n := by positivity
  unfold roundTo
  rw [div_le_div_iff_of_pos_right h10]
  exact_mod_cast le_roundHalfEven ((div_le_iff₀ h10).mp h)

/-- **An upper bound with `n` decimals survives rounding to `n` decimals.** -/
theorem roundTo_le {n : ℕ} {k : ℤ} {q : ℚ} (h : q ≤ (k : ℚ) / 10 ^ n) :
    roundTo n q ≤ (k : ℚ) / 10 ^ n := by
  have h10 : (0 : ℚ) < 10 ^ n := by positivity
  unfold roundTo
  rw [div_le_div_iff_of_pos_right h10]
  exact_mod_cast roundHalfEven_le ((le_div_iff₀ h10).mp h)

theorem roundHalfEven_le_add_half (q : ℚ) : (roundHalfEven q : ℚ) ≤ q + 1 / 2 := by
  have hfloor := Int.floor_le q
  unfold roundHalfEven
  split
  · linarith
  · next hge =>
    have hup : ((⌊q⌋ + 1 : ℤ) : ℚ) ≤ q + 1 / 2 := by
      push_cast
      linarith [not_lt.mp hge]
    split
    · exact hup
    · split
      · linarith
      · exact hup

/-- an even integer is reached from half a unit below it -/
theorem even_le_roundHalfEven {k : ℤ} {q : ℚ} :
    2 * k ≤ roundHalfEven q ↔ ((2 * k : ℤ) : ℚ) - 1 / 2 ≤ q := by
  constructor
  · intro h
    have hq := roundHalfEven_le_add_half q
    have hk : ((2 * k : ℤ) : ℚ) ≤ roundHalfEven q := by exact_mod_cast h
    linarith
  · intro h
    by_cases hk : ((2 * k : ℤ) : ℚ) ≤ q
    · exact le_roundHalfEven hk
    · -- the floor is the odd integer below, and a tie leaves it
      have hfloor : ⌊q⌋ = 2 * k - 1 := by
        rw [Int.floor_eq_iff]
        push_cast at h hk ⊢
        constructor <;> linarith [not_le.mp hk]
      unfold roundHalfEven
      rw [hfloor]
      have hhalf : ¬q - ((2 * k - 1 : ℤ) : ℚ) < 1 / 2 := by
        push_cast at h ⊢
        linarith
      rw [if_neg hhalf]
      split
      · omega
      · rw [if_neg (by omega)]
        omega

/-- rounding to `n` decimals raises a number by half a unit at most -/
theorem roundTo_le_add (n : ℕ) (q : ℚ) : roundTo n q ≤ q + 1 / (2 * 10 ^ n) := by
  have h10 : (0 : ℚ) < 10 ^ n := by positivity
  have h := roundHalfEven_le_add_half (q * 10 ^ n)
  unfold roundTo
  rw [div_le_iff₀ h10]
  have hexp : (q + 1 / (2 * 10 ^ n)) * 10 ^ n = q * 10 ^ n + 1 / 2 := by field_simp
  rw [hexp]
  exact h

/-- **A number is rounded to an even decimal or above it from half a unit below.** -/
theorem even_le_roundTo {n : ℕ} {k : ℤ} {q : ℚ} :
    ((2 * k : ℤ) : ℚ) / 10 ^ n ≤ roundTo n q ↔
      ((2 * k : ℤ) : ℚ) / 10 ^ n - 1 / (2 * 10 ^ n) ≤ q := by
  have h10 : (0 : ℚ) < 10 ^ n := by positivity
  have hexp : ((2 * k : ℤ) : ℚ) / 10 ^ n - 1 / (2 * 10 ^ n) =
      (((2 * k : ℤ) : ℚ) - 1 / 2) / 10 ^ n := by
    field_simp
  unfold roundTo
  rw [div_le_div_iff_of_pos_right h10, hexp, div_le_iff₀ h10, ← even_le_roundHalfEven]
  norm_cast

theorem roundHalfAway_intCast (k : ℤ) : roundHalfAway (k : ℚ) = k := by
  unfold roundHalfAway
  split
  · rw [Int.floor_eq_iff]
    constructor <;> linarith
  · rw [Int.ceil_eq_iff]
    constructor <;> linarith

theorem abs_roundHalfAway_sub_le (q : ℚ) : |(roundHalfAway q : ℚ) - q| ≤ 1 / 2 := by
  unfold roundHalfAway
  split
  · have h1 := Int.floor_le (q + 1 / 2)
    have h2 := Int.lt_floor_add_one (q + 1 / 2)
    rw [abs_le]
    constructor <;> linarith
  · have h1 := Int.le_ceil (q - 1 / 2)
    have h2 := Int.ceil_lt_add_one (q - 1 / 2)
    rw [abs_le]
    constructor <;> linarith

/-- **A column of `n` decimals is off by half a unit at most.** -/
theorem abs_numericTo_sub_le (n : ℕ) (q : ℚ) : |numericTo n q - q| ≤ 1 / (2 * 10 ^ n) := by
  have h10 : (0 : ℚ) < 10 ^ n := by positivity
  have h := abs_roundHalfAway_sub_le (q * 10 ^ n)
  have hexp : numericTo n q - q = ((roundHalfAway (q * 10 ^ n) : ℚ) - q * 10 ^ n) / 10 ^ n := by
    unfold numericTo
    field_simp
  rw [hexp, abs_div, abs_of_pos h10, div_le_iff₀ h10]
  have hunit : 1 / (2 * (10 : ℚ) ^ n) * 10 ^ n = 1 / 2 := by field_simp
  rw [hunit]
  exact h

/-- **A column of `n` decimals keeps what was rounded to `n` decimals.** -/
theorem numericTo_roundTo (n : ℕ) (q : ℚ) : numericTo n (roundTo n q) = roundTo n q := by
  have h10 : (10 : ℚ) ^ n ≠ 0 := by positivity
  unfold numericTo roundTo
  rw [div_mul_cancel₀ _ h10, roundHalfAway_intCast]

end Kit
