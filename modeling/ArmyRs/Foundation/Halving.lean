import Mathlib.Tactic

/-!
# Integers halved again and again

Halving rounds down, so after some halvings a number has been divided by a power of two
and rounded down once.  For a negative number this rounds away from zero: the halvings of
`-x` are those of `x` with the other sign as long as nothing is rounded, and differ by one
afterwards.

When two numbers are halved as often as each other, their ratio moves; how far is bounded
by the sizes that are left (`abs_halved_sub_le`).
-/

namespace ArmyRs
namespace Foundation

variable {x n d : ℤ} {k : ℕ}

theorem ediv_two_pow_succ (x : ℤ) (k : ℕ) : x / 2 ^ (k + 1) = x / 2 ^ k / 2 := by
  rw [pow_succ, Int.ediv_ediv_of_nonneg (by positivity)]

/-- A number that is large after the halvings was larger before. -/
theorem ediv_two_pow_add (x : ℤ) (j k : ℕ) : x / 2 ^ (j + k) = x / 2 ^ j / 2 ^ k := by
  rw [pow_add, Int.ediv_ediv_of_nonneg (by positivity)]

/-- As long as nothing is rounded, the sign makes no difference. -/
theorem neg_ediv_two_pow_of_dvd (h : (2 : ℤ) ^ k ∣ x) : -x / 2 ^ k = -(x / 2 ^ k) :=
  Int.neg_ediv_of_dvd h

/-- When something is rounded, a negative number ends up one below. -/
theorem neg_ediv_two_pow_of_not_dvd (h : ¬ (2 : ℤ) ^ k ∣ x) : -x / 2 ^ k = -(x / 2 ^ k) - 1 := by
  have hpos : (0 : ℤ) < 2 ^ k := by positivity
  have hrest : 0 < x % 2 ^ k := by
    have hnonneg := Int.emod_nonneg x hpos.ne'
    have hne : x % 2 ^ k ≠ 0 := fun hzero => h (Int.dvd_of_emod_eq_zero hzero)
    omega
  have hless := Int.emod_lt_of_pos x hpos
  have hsplit := Int.mul_ediv_add_emod x (2 ^ k)
  rw [Int.ediv_eq_iff_of_pos hpos]
  constructor <;> nlinarith

/-- The ratio of two numbers that are still large moves by a small part only. -/
theorem abs_halved_sub_le {c : ℤ} (hc : 1 ≤ c) (hd : 2 * c ≤ d / 2 ^ k)
    (hn : 2 * c ≤ n / 2 ^ k ∨ n / 2 ^ k ≤ -(2 * c + 1)) :
    (c - 1) * |n / 2 ^ k * d - n * (d / 2 ^ k)| ≤ |n| * (d / 2 ^ k) := by
  have hpos : (0 : ℤ) < 2 ^ k := by positivity
  have hnRest := Int.emod_nonneg n hpos.ne'
  have hnLess := Int.emod_lt_of_pos n hpos
  have hdRest := Int.emod_nonneg d hpos.ne'
  have hdLess := Int.emod_lt_of_pos d hpos
  have hnSplit := Int.mul_ediv_add_emod n (2 ^ k)
  have hdSplit := Int.mul_ediv_add_emod d (2 ^ k)
  generalize (2 : ℤ) ^ k = p at *
  generalize n / p = m at *
  generalize d / p = e at *
  generalize n % p = r at *
  generalize d % p = s at *
  subst hnSplit hdSplit
  have hdiff : m * (p * e + s) - (p * m + r) * e = m * s - r * e := by ring
  rw [hdiff]
  have he : 0 ≤ e := by omega
  rcases hn with hm | hm
  · -- a positive number has become smaller, and so has the other
    have hm0 : 0 < m := by omega
    have hpm : 0 < p * m := mul_pos hpos hm0
    have hr : 0 ≤ r * e := mul_nonneg hnRest he
    have hs : 0 ≤ m * s := mul_nonneg hm0.le hdRest
    have hfirst : (c - 1) * (m * s) ≤ p * m * e := by
      have hms : m * s ≤ m * p := mul_le_mul_of_nonneg_left hdLess.le hm0.le
      calc (c - 1) * (m * s) ≤ e * (m * p) := mul_le_mul (by omega) hms hs he
        _ = p * m * e := by ring
    have hsecond : (c - 1) * (r * e) ≤ p * m * e := by
      have hre : r * e ≤ p * e := mul_le_mul_of_nonneg_right hnLess.le he
      calc (c - 1) * (r * e) ≤ m * (p * e) := mul_le_mul (by omega) hre hr hm0.le
        _ = p * m * e := by ring
    rw [abs_of_pos (by omega : 0 < p * m + r), ← abs_of_nonneg (by omega : 0 ≤ c - 1), ← abs_mul,
      abs_le]
    constructor <;> nlinarith
  · -- a negative one has become larger, so both errors add up
    obtain ⟨q, rfl⟩ : ∃ q, m = -q := ⟨-m, by ring⟩
    have hq : 2 * c + 1 ≤ q := by omega
    have hneg : p * -q + r < 0 := by nlinarith
    have hsum : -q * s - r * e ≤ 0 := by nlinarith [mul_nonneg hnRest he]
    rw [abs_of_neg hneg, abs_of_nonpos hsum]
    have hparts : (c - 1) * (q + e) ≤ (q - 1) * e := by nlinarith
    have hfirst : q * s ≤ p * q := by nlinarith
    have hsecond : r * e ≤ p * e := by nlinarith
    calc (c - 1) * -(-q * s - r * e) = (c - 1) * (q * s + r * e) := by ring
      _ ≤ (c - 1) * (p * q + p * e) :=
          mul_le_mul_of_nonneg_left (add_le_add hfirst hsecond) (by omega)
      _ = p * ((c - 1) * (q + e)) := by ring
      _ ≤ p * ((q - 1) * e) := mul_le_mul_of_nonneg_left hparts hpos.le
      _ = (p * q - p) * e := by ring
      _ ≤ -(p * -q + r) * e := mul_le_mul_of_nonneg_right (by linarith) he

/-- From the cross products of two fractions to their relative difference. -/
theorem abs_div_sub_div_le {c m e n d : ℤ} (hc : 0 < c) (he : 0 < e) (hd : 0 < d)
    (h : c * |m * d - n * e| ≤ |n| * e) : |(m : ℚ) / e - n / d| ≤ |(n : ℚ) / d| / c := by
  have hcQ : (0 : ℚ) < c := by exact_mod_cast hc
  have heQ : (0 : ℚ) < e := by exact_mod_cast he
  have hdQ : (0 : ℚ) < d := by exact_mod_cast hd
  have hQ : (c : ℚ) * |(m : ℚ) * d - n * e| ≤ |(n : ℚ)| * e := by exact_mod_cast h
  have hdiff : (m : ℚ) / e - n / d = (m * d - n * e) / (e * d) := by
    field_simp
  rw [hdiff, abs_div, abs_div, abs_of_pos hdQ, abs_of_pos (mul_pos heQ hdQ), div_div,
    div_le_div_iff₀ (mul_pos heQ hdQ) (mul_pos hdQ hcQ)]
  calc |(m : ℚ) * d - n * e| * (d * c) = c * |(m : ℚ) * d - n * e| * d := by ring
    _ ≤ |(n : ℚ)| * e * d := mul_le_mul_of_nonneg_right hQ hdQ.le
    _ = |(n : ℚ)| * (e * d) := by ring

end Foundation
end ArmyRs
