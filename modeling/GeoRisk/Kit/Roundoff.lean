import Mathlib.Algebra.Order.Ring.Pow
import GeoRisk.Kit.Double

/-!
# Rounding errors

How far a number of double precision is from the exact value of the expression that it was computed
with, where the expression adds and multiplies numbers that are not negative.  The error is relative,
so that it needs no bound on the numbers; they are zero or not too small.

* `unitRoundoff`                      `2 ^ -53`;
* `abs_round64_sub_le`                one rounding moves a number by that part of it;
* `Computed n x y`                    `x` stands for `y` after at most `n` roundings;
* `Computed.round`, `add`, `mul`      one more rounding, a sum, a product;
* `Computed.abs_sub_le`               the relative error of up to `2 ^ 10` roundings.
-/

namespace Kit

def unitRoundoff : ℚ := 1 / 2 ^ 53

theorem unitRoundoff_pos : 0 < unitRoundoff := by
  unfold unitRoundoff
  positivity

theorem unitRoundoff_lt_one : unitRoundoff < 1 := by
  unfold unitRoundoff
  norm_num

theorem abs_roundHalfEven_sub_le (q : ℚ) : |(roundHalfEven q : ℚ) - q| ≤ 1 / 2 := by
  have hup := roundHalfEven_le_add_half q
  have hlt := Int.lt_floor_add_one q
  have hlow : q - 1 / 2 ≤ roundHalfEven q := by
    unfold roundHalfEven
    split
    · linarith
    · split
      · push_cast
        linarith
      · next hge hle =>
        split
        · linarith [not_lt.mp hle]
        · push_cast
          linarith
  rw [abs_le]
  constructor <;> linarith

/-- a rounding moves a number by half a place -/
theorem abs_round64_sub_le_place (q : ℚ) : |round64 q - q| ≤ 2 ^ lastPlace q / 2 := by
  have hpos : (0 : ℚ) < 2 ^ lastPlace q := zpow_pos two_pos _
  have hexp : round64 q - q =
      ((roundHalfEven (q / 2 ^ lastPlace q) : ℚ) - q / 2 ^ lastPlace q) * 2 ^ lastPlace q := by
    unfold round64
    rw [sub_mul, div_mul_cancel₀ _ hpos.ne']
  rw [hexp, abs_mul, abs_of_pos hpos]
  have h := mul_le_mul_of_nonneg_right (abs_roundHalfEven_sub_le (q / 2 ^ lastPlace q)) hpos.le
  linarith

/-- **One rounding moves a number that is not too small by a unit at most.** -/
theorem abs_round64_sub_le {q : ℚ} (h : 2 ^ (-1022 : ℤ) ≤ |q|) :
    |round64 q - q| ≤ |q| * unitRoundoff := by
  have hpos : 0 < |q| := lt_of_lt_of_le (zpow_pos two_pos _) h
  have hlog : (-1022 : ℤ) ≤ Int.log 2 |q| := by
    rw [← Int.zpow_le_iff_le_log (by norm_num) hpos]
    exact_mod_cast h
  have hplace : lastPlace q = Int.log 2 |q| - 52 := max_eq_left (by omega)
  have hle : (2 : ℚ) ^ Int.log 2 |q| ≤ |q| := by
    have := Int.zpow_log_le_self (b := 2) (by norm_num) hpos
    exact_mod_cast this
  refine (abs_round64_sub_le_place q).trans ?_
  rw [hplace, zpow_sub₀ two_ne_zero]
  unfold unitRoundoff
  have hunit : (2 : ℚ) ^ Int.log 2 |q| / 2 ^ (52 : ℤ) / 2 = 2 ^ Int.log 2 |q| * (1 / 2 ^ 53) := by
    rw [show (2 : ℚ) ^ (52 : ℤ) = 2 ^ 52 from by norm_cast]
    ring
  rw [hunit]
  exact mul_le_mul_of_nonneg_right hle (by positivity)

/-- `x` is `y` after at most `n` roundings -/
structure Computed (n : ℕ) (x y : ℚ) : Prop where
  lower : y * (1 - unitRoundoff) ^ n ≤ x
  upper : x ≤ y * (1 + unitRoundoff) ^ n
  size : y = 0 ∨ 2 ^ (-1021 : ℤ) ≤ y

section
variable {n m : ℕ} {x y x' y' : ℚ}

theorem one_sub_pow_nonneg (n : ℕ) : 0 ≤ (1 - unitRoundoff) ^ n :=
  pow_nonneg (sub_nonneg.mpr unitRoundoff_lt_one.le) n

theorem one_add_pow_pos (n : ℕ) : 0 < (1 + unitRoundoff) ^ n :=
  pow_pos (add_pos one_pos unitRoundoff_pos) n

theorem Computed.nonneg (h : Computed n x y) : 0 ≤ y := by
  rcases h.size with h | h
  · exact h.ge
  · exact (zpow_pos two_pos _).le.trans h

/-- an exact number -/
theorem Computed.exact (h : y = 0 ∨ 2 ^ (-1021 : ℤ) ≤ y) : Computed 0 y y :=
  ⟨by rw [pow_zero, mul_one], by rw [pow_zero, mul_one], h⟩

theorem Computed.mono (h : Computed n x y) (hnm : n ≤ m) : Computed m x y := by
  have hu := unitRoundoff_pos
  refine ⟨le_trans ?_ h.lower, h.upper.trans ?_, h.size⟩
  · refine mul_le_mul_of_nonneg_left ?_ h.nonneg
    exact pow_le_pow_of_le_one (sub_nonneg.mpr unitRoundoff_lt_one.le) (by linarith) hnm
  · exact mul_le_mul_of_nonneg_left (pow_le_pow_right₀ (by linarith) hnm) h.nonneg

/-- what is lost in `n` roundings -/
theorem one_sub_mul_le (n : ℕ) : 1 - n * unitRoundoff ≤ (1 - unitRoundoff) ^ n := by
  have h := one_add_mul_le_pow (a := -unitRoundoff) (by linarith [unitRoundoff_lt_one]) n
  rw [← sub_eq_add_neg] at h
  linarith

theorem mul_unitRoundoff_le (hn : n ≤ 2 ^ 10) : n * unitRoundoff ≤ 1 / 2 := by
  have hcast : (n : ℚ) ≤ 2 ^ 10 := by exact_mod_cast hn
  refine (mul_le_mul_of_nonneg_right hcast unitRoundoff_pos.le).trans ?_
  unfold unitRoundoff
  norm_num

/-- few roundings do not halve a number -/
theorem half_le_pow (hn : n ≤ 2 ^ 10) : 1 / 2 ≤ (1 - unitRoundoff) ^ n := by
  linarith [one_sub_mul_le n, mul_unitRoundoff_le hn]

/-- **One more rounding.** -/
theorem Computed.round (h : Computed n x y) (hn : n ≤ 2 ^ 10) : Computed (n + 1) (round64 x) y := by
  rcases h.size with rfl | hsize
  · -- zero stays zero
    have hx : x = 0 := by
      have h1 := h.lower
      have h2 := h.upper
      rw [zero_mul] at h1 h2
      exact le_antisymm h2 h1
    have hzero : round64 x = 0 := by
      rw [hx]
      exact_mod_cast round64_intCast (k := 0) (by norm_num)
    rw [hzero]
    exact ⟨by rw [zero_mul], by rw [zero_mul], Or.inl rfl⟩
  · have hy : 0 < y := (zpow_pos two_pos _).trans_le hsize
    have hbig : 2 ^ (-1022 : ℤ) ≤ x := by
      refine le_trans ?_ h.lower
      have hhalf := mul_le_mul hsize (half_le_pow hn) (by norm_num) hy.le
      refine le_trans (le_of_eq ?_) hhalf
      rw [show (-1021 : ℤ) = -1022 + 1 from rfl, zpow_add₀ two_ne_zero, zpow_one]
      ring
    have hx : 0 < x := (zpow_pos two_pos _).trans_le hbig
    have herr := abs_round64_sub_le (q := x) (by rw [abs_of_pos hx]; exact hbig)
    rw [abs_of_pos hx, abs_le] at herr
    have hu := unitRoundoff_lt_one
    have hu0 := unitRoundoff_pos
    refine ⟨?_, ?_, Or.inr hsize⟩
    · calc y * (1 - unitRoundoff) ^ (n + 1) = y * (1 - unitRoundoff) ^ n * (1 - unitRoundoff) := by
            rw [pow_succ, mul_assoc]
        _ ≤ x * (1 - unitRoundoff) := mul_le_mul_of_nonneg_right h.lower (by linarith)
        _ ≤ round64 x := by linarith
    · calc round64 x ≤ x * (1 + unitRoundoff) := by linarith
        _ ≤ y * (1 + unitRoundoff) ^ n * (1 + unitRoundoff) :=
            mul_le_mul_of_nonneg_right h.upper (by linarith)
        _ = y * (1 + unitRoundoff) ^ (n + 1) := by rw [pow_succ, mul_assoc]

theorem Computed.add (h : Computed n x y) (k : Computed n x' y') :
    Computed n (x + x') (y + y') := by
  refine ⟨?_, ?_, ?_⟩
  · rw [add_mul]
    exact add_le_add h.lower k.lower
  · rw [add_mul]
    exact add_le_add h.upper k.upper
  · rcases h.size with rfl | hsize
    · rw [zero_add]
      exact k.size
    · exact Or.inr (hsize.trans (le_add_of_nonneg_right k.nonneg))

/-- a product, where it is not too small -/
theorem Computed.mul (h : Computed n x y) (k : Computed m x' y')
    (hsize : y * y' = 0 ∨ 2 ^ (-1021 : ℤ) ≤ y * y') : Computed (n + m) (x * x') (y * y') := by
  have hx : 0 ≤ x := le_trans (mul_nonneg h.nonneg (one_sub_pow_nonneg n)) h.lower
  refine ⟨?_, ?_, hsize⟩
  · calc y * y' * (1 - unitRoundoff) ^ (n + m)
          = y * (1 - unitRoundoff) ^ n * (y' * (1 - unitRoundoff) ^ m) := by
            rw [pow_add]
            ring
      _ ≤ x * x' := mul_le_mul h.lower k.lower (mul_nonneg k.nonneg (one_sub_pow_nonneg m)) hx
  · calc x * x' ≤ y * (1 + unitRoundoff) ^ n * (y' * (1 + unitRoundoff) ^ m) := by
            refine mul_le_mul h.upper k.upper ?_ (mul_nonneg h.nonneg (one_add_pow_pos n).le)
            exact le_trans (mul_nonneg k.nonneg (one_sub_pow_nonneg m)) k.lower
      _ = y * y' * (1 + unitRoundoff) ^ (n + m) := by
            rw [pow_add]
            ring

/-- the growth of few roundings -/
theorem one_add_pow_le (hn : n ≤ 2 ^ 10) :
    (1 + unitRoundoff) ^ n ≤ 1 + 2 * n * unitRoundoff := by
  have hu0 := unitRoundoff_pos
  have hinv : (1 + unitRoundoff) ^ n * (1 - unitRoundoff) ^ n ≤ 1 := by
    rw [← mul_pow]
    have hsq : (1 + unitRoundoff) * (1 - unitRoundoff) = 1 - unitRoundoff ^ 2 := by ring
    rw [hsq]
    have h1 : unitRoundoff ^ 2 ≤ 1 := pow_le_one₀ hu0.le unitRoundoff_lt_one.le
    exact pow_le_one₀ (by linarith) (by linarith [sq_nonneg unitRoundoff])
  have hsmall := mul_unitRoundoff_le hn
  have hnu : 0 ≤ (n : ℚ) * unitRoundoff := by positivity
  have hpos := one_add_pow_pos n
  -- `1 / (1 - t) ≤ 1 + 2 t` up to one half
  have hprod : (1 + unitRoundoff) ^ n * (1 - n * unitRoundoff) ≤ 1 := by
    refine le_trans ?_ hinv
    exact mul_le_mul_of_nonneg_left (one_sub_mul_le n) hpos.le
  have hone : 1 ≤ (1 + 2 * n * unitRoundoff) * (1 - n * unitRoundoff) := by
    have hexp : (1 + 2 * n * unitRoundoff) * (1 - n * unitRoundoff) =
        1 + n * unitRoundoff * (1 - 2 * (n * unitRoundoff)) := by ring
    rw [hexp]
    have := mul_nonneg hnu (show (0 : ℚ) ≤ 1 - 2 * (n * unitRoundoff) by linarith)
    linarith
  have hfac : (0 : ℚ) < 1 - n * unitRoundoff := by linarith
  exact le_of_mul_le_mul_right (hprod.trans hone) hfac

/-- **The relative error of few roundings.** -/
theorem Computed.abs_sub_le (h : Computed n x y) (hn : n ≤ 2 ^ 10) :
    |x - y| ≤ y * (2 * n * unitRoundoff) := by
  have hu0 := unitRoundoff_pos
  have hy := h.nonneg
  have hlow := (mul_le_mul_of_nonneg_left (one_sub_mul_le n) hy).trans h.lower
  have hup := h.upper.trans (mul_le_mul_of_nonneg_left (one_add_pow_le hn) hy)
  have hslack : 0 ≤ y * (n * unitRoundoff) := mul_nonneg hy (by positivity)
  rw [abs_le]
  constructor <;> linarith

end

end Kit
