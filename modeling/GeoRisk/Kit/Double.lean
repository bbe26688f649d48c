import Mathlib.Data.Int.Log
import GeoRisk.Kit.Rounding

/-!
# Double precision numbers

The numbers of the binary64 format and the operations on them whose results are the rounded exact
ones.  A finite number carries that it has the format; the sign of a zero, which no comparison
sees, is left out.

* `round64`            the nearest number of 53 bits, ties to even, with no bound above;
* `Double.ofRat`       a rational number rounded, infinite from `2 ^ 1024` on;
* `Double.lt`, `le`    the comparisons: they are false of not-a-number;
* `Double.min`, `max`  the first argument, unless the second is smaller (greater);
* `Double.pow`         a power, which fails where it overflows.

`round64_mul_two_zpow` says which numbers are kept, among them every rounded one
(`round64_round64`); `Double.le_min_iff` what a cap does to a number.
-/

namespace Kit

/-- the exponent of the last binary place that is kept -/
def lastPlace (q : ℚ) : ℤ := max (Int.log 2 |q| - 52) (-1074)

/-- the nearest number of 53 bits, ties to even -/
def round64 (q : ℚ) : ℚ := roundHalfEven (q / 2 ^ lastPlace q) * 2 ^ lastPlace q

theorem round64_of_mul {m : ℤ} {q : ℚ} (h : q = m * 2 ^ lastPlace q) : round64 q = q := by
  have h2 : (2 : ℚ) ^ lastPlace q ≠ 0 := zpow_ne_zero _ two_ne_zero
  have hm : q / 2 ^ lastPlace q = m := by rw [div_eq_iff h2]; exact h
  unfold round64
  rw [hm, roundHalfEven_intCast]
  exact h.symm

/-- the last place of a multiple of `2 ^ e` with a mantissa of 53 bits -/
theorem lastPlace_mul_two_zpow {k e : ℤ} (h0 : k ≠ 0) (hk : |k| ≤ 2 ^ 53) (he : -1074 ≤ e) :
    lastPlace (k * 2 ^ e) ≤ e ∨ lastPlace (k * 2 ^ e) ≤ e + 1 ∧ 2 ∣ k := by
  have hpos : (0 : ℚ) < 2 ^ e := zpow_pos two_pos e
  have habs : |(k * 2 ^ e : ℚ)| = (|k| : ℤ) * 2 ^ e := by
    rw [abs_mul, abs_of_pos hpos, Int.cast_abs]
  have hne : (0 : ℚ) < |(k * 2 ^ e : ℚ)| := by
    rw [abs_pos]
    exact mul_ne_zero (Int.cast_ne_zero.mpr h0) (ne_of_gt hpos)
  -- the logarithm is below `e` and the bits of the mantissa
  have hlog : ∀ b : ℕ, |k| < 2 ^ b → Int.log 2 |(k * 2 ^ e : ℚ)| < e + b := by
    intro b hb
    rw [← Int.lt_zpow_iff_log_lt (by norm_num) hne, habs, Nat.cast_ofNat,
      zpow_add₀ two_ne_zero, mul_comm]
    refine mul_lt_mul_of_pos_left ?_ hpos
    rw [zpow_natCast]
    exact_mod_cast hb
  unfold lastPlace
  rcases lt_or_eq_of_le hk with hlt | heq
  · left
    have := hlog 53 hlt
    push_cast at this
    omega
  · right
    have := hlog 54 (by omega)
    push_cast at this
    refine ⟨by omega, ?_⟩
    rw [← dvd_abs, heq]
    exact ⟨2 ^ 52, by norm_num⟩

/-- **What has 53 bits is kept.** -/
theorem round64_mul_two_zpow {k e : ℤ} (hk : |k| ≤ 2 ^ 53) (he : -1074 ≤ e) :
    round64 (k * 2 ^ e) = k * 2 ^ e := by
  have h2 : (2 : ℚ) ≠ 0 := two_ne_zero
  rcases eq_or_ne k 0 with rfl | h0
  · refine round64_of_mul (m := 0) ?_
    rw [Int.cast_zero, zero_mul, zero_mul]
  · -- a smaller place divides a larger one
    have hplace : ∀ (m : ℤ) (f : ℤ), (k : ℚ) * 2 ^ e = m * 2 ^ f →
        lastPlace (k * 2 ^ e) ≤ f → round64 (k * 2 ^ e) = k * 2 ^ e := by
      intro m f heq hf
      obtain ⟨n, hn⟩ := Int.eq_ofNat_of_zero_le (sub_nonneg.mpr hf)
      refine round64_of_mul (m := m * 2 ^ n) ?_
      have hsplit : f = n + lastPlace (k * 2 ^ e) := by omega
      conv_lhs => rw [heq, hsplit, zpow_add₀ h2, zpow_natCast]
      push_cast
      ring
    rcases lastPlace_mul_two_zpow h0 hk he with h | ⟨h, m, rfl⟩
    · exact hplace k e rfl h
    · refine hplace m (e + 1) ?_ h
      rw [zpow_add₀ h2, zpow_one]
      push_cast
      ring

theorem round64_intCast {k : ℤ} (hk : |k| ≤ 2 ^ 53) : round64 k = k := by
  have h := round64_mul_two_zpow (e := 0) hk (by norm_num)
  rwa [zpow_zero, mul_one] at h

theorem round64_two_pow (n : ℕ) : round64 (2 ^ n) = 2 ^ n := by
  have h := round64_mul_two_zpow (k := 1) (e := n) (by norm_num) (by omega)
  rwa [Int.cast_one, one_mul, zpow_natCast] at h

theorem abs_div_lastPlace_le (q : ℚ) : |q / 2 ^ lastPlace q| ≤ 2 ^ 53 := by
  have hpos : (0 : ℚ) < 2 ^ lastPlace q := zpow_pos two_pos _
  rw [abs_div, abs_of_pos hpos, div_le_iff₀ hpos]
  refine le_of_lt (lt_of_lt_of_le (Int.lt_zpow_succ_log_self (b := 2) (by norm_num) |q|) ?_)
  rw [Nat.cast_ofNat, ← zpow_natCast (2 : ℚ) 53, ← zpow_add₀ two_ne_zero]
  refine zpow_le_zpow_right₀ one_le_two ?_
  have : Int.log 2 |q| - 52 ≤ lastPlace q := le_max_left ..
  push_cast
  omega

/-- **Rounding again changes nothing.** -/
theorem round64_round64 (q : ℚ) : round64 (round64 q) = round64 q := by
  have h := abs_le.mp (abs_div_lastPlace_le q)
  refine round64_mul_two_zpow ?_ (le_max_right ..)
  rw [abs_le]
  constructor
  · refine le_roundHalfEven ?_
    push_cast
    exact h.1
  · refine roundHalfEven_le ?_
    push_cast
    exact h.2

/-- a number of the binary64 format -/
inductive Double
  | nan
  | infinite (negative : Bool)
  | finite (q : ℚ) (format : round64 q = q ∧ |q| < 2 ^ 1024)
  deriving DecidableEq

namespace Double

/-- a rational number, rounded -/
def ofRat (q : ℚ) : Double :=
  if h : |round64 q| < 2 ^ 1024 then finite (round64 q) ⟨round64_round64 q, h⟩
  else infinite (decide (q < 0))

/-- an integer of 53 bits -/
def ofInt (k : ℤ) (h : |k| ≤ 2 ^ 53) : Double :=
  finite k ⟨round64_intCast h, by
    have h53 : |(k : ℚ)| ≤ 2 ^ 53 := by exact_mod_cast h
    exact lt_of_le_of_lt h53 (pow_lt_pow_right₀ one_lt_two (by norm_num))⟩

instance : Zero Double := ⟨ofInt 0 (by norm_num)⟩

theorem ofRat_eq_finite {q : ℚ} (h : round64 q = q ∧ |q| < 2 ^ 1024) : ofRat q = finite q h := by
  have hq : |round64 q| < 2 ^ 1024 := by rw [h.1]; exact h.2
  unfold ofRat
  rw [dif_pos hq]
  congr 1
  exact h.1

theorem ofRat_intCast {k : ℤ} (h : |k| ≤ 2 ^ 53) : ofRat k = ofInt k h := ofRat_eq_finite _

theorem ofRat_ne_nan (q : ℚ) : ofRat q ≠ nan := by
  unfold ofRat
  split <;> exact Double.noConfusion

def lt : Double → Double → Bool
  | nan, _ => false
  | _, nan => false
  | infinite a, infinite b => a && !b
  | infinite a, finite _ _ => a
  | finite _ _, infinite b => !b
  | finite p _, finite q _ => decide (p < q)

instance : LT Double := ⟨fun x y => lt x y = true⟩
instance (x y : Double) : Decidable (x < y) := inferInstanceAs (Decidable (lt x y = true))

/-- neither is not-a-number, and the second is not smaller -/
instance : LE Double := ⟨fun x y => x ≠ nan ∧ y ≠ nan ∧ ¬y < x⟩
instance (x y : Double) : Decidable (x ≤ y) :=
  inferInstanceAs (Decidable (x ≠ nan ∧ y ≠ nan ∧ ¬y < x))

/-- `min(x, y)` -/
def min (x y : Double) : Double := if y < x then y else x

/-- `max(x, y)` -/
def max (x y : Double) : Double := if x < y then y else x

/-- a power; `none` where a finite base overflows -/
def pow (x : Double) (n : ℕ) : Option Double :=
  match x with
  | nan => some (if n = 0 then ofInt 1 (by norm_num) else nan)
  | infinite negative =>
    some (if n = 0 then ofInt 1 (by norm_num) else infinite (negative && decide (n % 2 = 1)))
  | finite q _ =>
    match ofRat (q ^ n) with
    | infinite _ => none
    | y => some y

theorem lt_irrefl (x : Double) : ¬x < x := by
  change ¬lt x x = true
  cases x <;> simp [lt]

theorem lt_trans {x y z : Double} (h : x < y) (k : y < z) : x < z := by
  change lt x y = true at h
  change lt y z = true at k
  change lt x z = true
  cases x <;> cases y <;> cases z <;> simp_all [lt]
  exact h.trans k

theorem ne_nan_of_lt {x y : Double} (h : x < y) : x ≠ nan ∧ y ≠ nan := by
  change lt x y = true at h
  constructor
  · rintro rfl
    cases h
  · rintro rfl
    cases x <;> cases h

theorem le_refl {x : Double} (h : x ≠ nan) : x ≤ x := ⟨h, h, lt_irrefl x⟩

theorem le_of_lt {x y : Double} (h : x < y) : x ≤ y :=
  ⟨(ne_nan_of_lt h).1, (ne_nan_of_lt h).2, fun k => lt_irrefl x (lt_trans h k)⟩

/-- **A cap at `b` lets a number below `a ≤ b` through, and only such a one.** -/
theorem le_min_iff {a b x : Double} (h : a ≤ b) : a ≤ min x b ↔ a ≤ x := by
  unfold min
  split
  · next hb =>
    constructor
    · intro _
      exact ⟨h.1, (ne_nan_of_lt hb).2, fun k => h.2.2 (lt_trans hb k)⟩
    · intro _
      exact h
  · exact Iff.rfl

theorem min_le {b x : Double} (hx : x ≠ nan) (hb : b ≠ nan) : min x b ≤ b := by
  unfold min
  split
  · exact le_refl hb
  · next h => exact ⟨hx, hb, h⟩

theorem le_max_left {a : Double} (h : a ≠ nan) (x : Double) : a ≤ max a x := by
  unfold max
  split
  · next hx => exact le_of_lt hx
  · exact le_refl h

theorem ofRat_nonneg {q : ℚ} (h : 0 ≤ q) : 0 ≤ ofRat q := by
  have hround : 0 ≤ round64 q := by
    have hplace : (0 : ℚ) ≤ 2 ^ lastPlace q := zpow_nonneg two_pos.le _
    refine mul_nonneg (Int.cast_nonneg (le_roundHalfEven ?_)) hplace
    rw [Int.cast_zero]
    exact div_nonneg h hplace
  refine ⟨Double.noConfusion, ofRat_ne_nan q, ?_⟩
  change ¬lt (ofRat q) (ofInt 0 _) = true
  unfold ofRat
  split
  · change ¬decide (round64 q < ((0 : ℤ) : ℚ)) = true
    rw [decide_eq_true_eq, Int.cast_zero, not_lt]
    exact hround
  · change ¬decide (q < 0) = true
    rw [decide_eq_true_eq, not_lt]
    exact h

/-- the powers of two as far as they go -/
theorem exists_pow_two {n : ℕ} (h2 : |(2 : ℤ)| ≤ 2 ^ 53) (h : n < 1024) :
    ∃ y, pow (ofInt 2 h2) n = some y ∧ 0 ≤ y := by
  have hlt : |(2 : ℚ) ^ n| < 2 ^ 1024 := by
    rw [abs_of_pos (by positivity)]
    exact pow_lt_pow_right₀ one_lt_two h
  have hr := ofRat_eq_finite ⟨round64_two_pow n, hlt⟩
  refine ⟨finite (2 ^ n) ⟨round64_two_pow n, hlt⟩, ?_, ?_⟩
  · unfold pow ofInt
    simp only [Int.cast_ofNat]
    rw [hr]
  · rw [← hr]
    exact ofRat_nonneg (by positivity)

end Double

end Kit
