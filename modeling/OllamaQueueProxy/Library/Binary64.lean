import Mathlib.Algebra.Order.Field.Power
import Mathlib.Data.Int.Log
import Mathlib.Data.Rat.Floor
import Mathlib.Tactic.Linarith
import Mathlib.Tactic.NormNum
import Mathlib.Tactic.Positivity

/-!
# Double-precision rounding

Rounding of a rational number to the nearest number with a 53-bit significand, ties to the
even one, as the operations of double-precision arithmetic round their exact results.
Numbers below the normal range round to multiples of `2 ^ (-1074)`; overflow is not
represented.

Rounding is monotone (`round_monotone`): within a range of equal spacing it is so because the
rounding to integers is, and the powers of two between two ranges are rounded to themselves.
Negative numbers are rounded as their absolute values are (`round_neg`).
-/

namespace Binary64

/-- The integer nearest to `q`, the even one when two are equally near. -/
def roundHalfEven (q : ℚ) : ℤ :=
  if q - ⌊q⌋ < 1 / 2 then ⌊q⌋
  else if 1 / 2 < q - ⌊q⌋ then ⌊q⌋ + 1
  else if ⌊q⌋ % 2 = 0 then ⌊q⌋
  else ⌊q⌋ + 1

/-- The exponent of the spacing of the representable numbers around `q`. -/
def spacing (q : ℚ) : ℤ := max (Int.log 2 |q| - 52) (-1074)

/-- The representable number nearest to `q`. -/
def round (q : ℚ) : ℚ := roundHalfEven (q / 2 ^ spacing q) * 2 ^ spacing q

/-- The quotient of two integers, rounded. -/
def divInt (a b : ℤ) : ℚ := round (a / b)

/-- The product of two representable numbers, rounded. -/
def mul (x y : ℚ) : ℚ := round (x * y)

/-- The difference of two representable numbers, rounded. -/
def sub (x y : ℚ) : ℚ := round (x - y)

/-! ### Monotonicity -/

theorem floor_le_roundHalfEven (q : ℚ) :
  ⌊q⌋ ≤ roundHalfEven q
  := by
  unfold roundHalfEven
  split_ifs <;> omega

theorem roundHalfEven_le_floor_add_one (q : ℚ) :
  roundHalfEven q ≤ ⌊q⌋ + 1
  := by
  unfold roundHalfEven
  split_ifs <;> omega

theorem roundHalfEven_intCast (n : ℤ) :
  roundHalfEven n = n
  := by
  rw [roundHalfEven, Int.floor_intCast, sub_self, if_pos (by norm_num)]

theorem roundHalfEven_mono {p q : ℚ} (h : p ≤ q) :
  roundHalfEven p ≤ roundHalfEven q
  := by
  obtain hlt | heq := (Int.floor_le_floor h).lt_or_eq
  · have hp := roundHalfEven_le_floor_add_one p
    have hq := floor_le_roundHalfEven q
    omega
  · unfold roundHalfEven
    rw [heq]
    split_ifs <;> first | omega | linarith

theorem round_zero :
  round 0 = 0
  := by
  have hzero := roundHalfEven_intCast 0
  rw [Int.cast_zero] at hzero
  rw [round, zero_div, hzero, Int.cast_zero, zero_mul]

theorem round_nonneg {q : ℚ} (h : 0 ≤ q) :
  0 ≤ round q
  := by
  have hzero := roundHalfEven_intCast 0
  rw [Int.cast_zero] at hzero
  have hint : 0 ≤ roundHalfEven (q / 2 ^ spacing q) := by
    rw [← hzero]
    apply roundHalfEven_mono
    positivity
  have hcast : (0 : ℚ) ≤ roundHalfEven (q / 2 ^ spacing q) := by exact_mod_cast hint
  unfold round
  positivity

theorem exists_zpow_div {q : ℚ} {e : ℤ} (hspacing : spacing q ≤ e) :
  ∃ n : ℤ, (2 : ℚ) ^ e / 2 ^ spacing q = n
  := by
  obtain ⟨k, hk⟩ := Int.eq_ofNat_of_zero_le (sub_nonneg.mpr hspacing)
  use 2 ^ k
  rw [← zpow_sub₀ two_ne_zero, hk]
  push_cast
  exact zpow_natCast 2 k

/-- A power of two that bounds a number, and is a multiple of the spacing around it, bounds the
rounded number. -/
theorem round_le_zpow {q : ℚ} {e : ℤ} (h : q ≤ 2 ^ e) (hspacing : spacing q ≤ e) :
  round q ≤ 2 ^ e
  := by
  obtain ⟨n, hpower⟩ := exists_zpow_div hspacing
  have hle : roundHalfEven (q / 2 ^ spacing q) ≤ n := by
    rw [← roundHalfEven_intCast n, ← hpower]
    apply roundHalfEven_mono
    gcongr
  have hcast : (roundHalfEven (q / 2 ^ spacing q) : ℚ) ≤ 2 ^ e / 2 ^ spacing q := by
    rw [hpower]
    exact_mod_cast hle
  have hpos : (0 : ℚ) < 2 ^ spacing q := by positivity
  rw [round]
  exact (le_div_iff₀ hpos).mp hcast

theorem zpow_le_round {q : ℚ} {e : ℤ} (h : 2 ^ e ≤ q) (hspacing : spacing q ≤ e) :
  2 ^ e ≤ round q
  := by
  obtain ⟨n, hpower⟩ := exists_zpow_div hspacing
  have hle : n ≤ roundHalfEven (q / 2 ^ spacing q) := by
    rw [← roundHalfEven_intCast n, ← hpower]
    apply roundHalfEven_mono
    gcongr
  have hcast : (2 : ℚ) ^ e / 2 ^ spacing q ≤ roundHalfEven (q / 2 ^ spacing q) := by
    rw [hpower]
    exact_mod_cast hle
  have hpos : (0 : ℚ) < 2 ^ spacing q := by positivity
  rw [round]
  exact (div_le_iff₀ hpos).mp hcast

/-- Rounding is monotone on the numbers that are not negative. -/
theorem round_mono {p q : ℚ} (hp : 0 ≤ p) (h : p ≤ q) :
  round p ≤ round q
  := by
  obtain rfl | hpos := hp.eq_or_lt
  · rw [round_zero]
    exact round_nonneg h
  have hq : 0 < q := hpos.trans_le h
  have hlog : Int.log 2 p ≤ Int.log 2 q := Int.log_mono_right hpos h
  have hsp : spacing p = max (Int.log 2 p - 52) (-1074) := by rw [spacing, abs_of_pos hpos]
  have hsq : spacing q = max (Int.log 2 q - 52) (-1074) := by rw [spacing, abs_of_pos hq]
  obtain hlt | heq := (show spacing p ≤ spacing q by omega).lt_or_eq
  · -- a power of two lies between the two ranges
    have hbelow : p ≤ 2 ^ Int.log 2 q := by
      have hupper := (Int.lt_zpow_succ_log_self (b := 2) (by decide) p).le
      refine hupper.trans ?_
      apply zpow_le_zpow_right₀ (by norm_num)
      omega
    calc round p
        ≤ 2 ^ Int.log 2 q := round_le_zpow hbelow (by omega)
      _ ≤ round q := zpow_le_round (Int.zpow_log_le_self (by decide) hq) (by omega)
  · have hint : roundHalfEven (p / 2 ^ spacing q) ≤ roundHalfEven (q / 2 ^ spacing q) := by
      apply roundHalfEven_mono
      gcongr
    have hcast : (roundHalfEven (p / 2 ^ spacing q) : ℚ) ≤ roundHalfEven (q / 2 ^ spacing q) := by
      exact_mod_cast hint
    rw [round, round, heq]
    gcongr

theorem roundHalfEven_neg (q : ℚ) :
  roundHalfEven (-q) = -roundHalfEven q
  := by
  obtain hfract | hfract := (Int.fract_nonneg q).eq_or_lt
  · have hint : q = ⌊q⌋ := by
      rw [Int.fract] at hfract
      linarith
    rw [hint, ← Int.cast_neg, roundHalfEven_intCast, roundHalfEven_intCast]
  · have hfloor : ⌊-q⌋ = -⌊q⌋ - 1 := by
      rw [Int.floor_eq_iff]
      push_cast
      have hlt := Int.fract_lt_one q
      rw [Int.fract] at hfract hlt
      constructor <;> linarith
    unfold roundHalfEven
    rw [hfloor]
    push_cast
    split_ifs <;> first | omega | linarith

theorem round_neg (q : ℚ) :
  round (-q) = -round q
  := by
  have hspacing : spacing (-q) = spacing q := by rw [spacing, spacing, abs_neg]
  rw [round, hspacing, neg_div, roundHalfEven_neg, Int.cast_neg, neg_mul, round]

theorem round_monotone :
  Monotone round
  := by
  intro p q h
  obtain hp | hp := le_total 0 p
  · exact round_mono hp h
  obtain hq | hq := le_total 0 q
  · have hneg : 0 ≤ round (-p) := round_nonneg (neg_nonneg.mpr hp)
    rw [round_neg, neg_nonneg] at hneg
    exact hneg.trans (round_nonneg hq)
  · have hneg := round_mono (neg_nonneg.mpr hq) (neg_le_neg h)
    rw [round_neg, round_neg] at hneg
    exact neg_le_neg_iff.mp hneg

/-- The later the minuend, the greater the difference that is computed. -/
theorem sub_monotone (y : ℚ) :
  Monotone fun x => sub x y
  := fun _ _ h => round_monotone (sub_le_sub_right h y)

end Binary64
