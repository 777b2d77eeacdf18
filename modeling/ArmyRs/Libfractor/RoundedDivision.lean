import ArmyRs.Foundation.CheckedInts
import ArmyRs.Foundation.Rounding

/-!
# Rounded division

`Fractor::div64` and `Fractor::div32` add half of the divisor to the dividend before they
divide.  The sign of that half comes from the sign bits of the operands, which a mask picks
out of their exclusive or.  The quotient is the nearest integer, and a half is rounded away
from zero; both hold wherever no expression overflows.
-/

namespace ArmyRs
namespace Libfractor

open Foundation

namespace Fractor

/-- `num2`: `-1` where the sign bits of `a` and `b` differ, and `1` where they agree. -/
def halfSign (w : ℕ) (mask a b : ℤ) : ℤ :=
  let num : ℤ :=
    (((BitVec.ofInt w a ^^^ BitVec.ofInt w b) &&& BitVec.ofInt w mask) >>> (w - 1)).toNat
  num * -2 + 1

/-- `a + b / 2 * num2` -/
def halfSum (w : ℕ) (mask a b : ℤ) : ℤ := a + b.tdiv 2 * halfSign w mask a b

def roundedDiv (w : ℕ) (mask a b : ℤ) : Except Fault ℤ := do
  let half ← checkedIn w (b.tdiv 2 * halfSign w mask a b)
  let sum ← checkedIn w (a + half)
  if b = 0 then .error .divByZero else checkedIn w (sum.tdiv b)

def mask64 : ℤ := -9223372036854775807

/-- The mask is a `long`; of the masked value only the low 32 bits are shifted. -/
def mask32 : ℤ := -2147483648

def div64 (a b : ℤ) : Except Fault ℤ := roundedDiv 64 mask64 a b

def div32 (a b : ℤ) : Except Fault ℤ := roundedDiv 32 mask32 a b

/-! ## The sign of the half -/

section

variable {w : ℕ} {mask a b : ℤ}

theorem toNat_ushiftRight_eq_msb (x : BitVec w) : (x >>> (w - 1)).toNat = x.msb.toNat := by
  have hsplit : 2 ^ w ≤ 2 * 2 ^ (w - 1) := by
    rw [← pow_succ']
    exact Nat.pow_le_pow_right (by decide) (by omega)
  have hx : x.toNat < 2 ^ w := x.isLt
  have hpos : 0 < 2 ^ (w - 1) := by positivity
  rw [BitVec.toNat_ushiftRight, Nat.shiftRight_eq_div_pow, BitVec.msb_eq_decide]
  by_cases hle : 2 ^ (w - 1) ≤ x.toNat
  · rw [decide_eq_true hle, Bool.toNat_true]
    exact Nat.div_eq_of_lt_le (by omega) (by omega)
  · rw [decide_eq_false hle, Bool.toNat_false]
    exact Nat.div_eq_of_lt (by omega)

theorem msb_ofInt_of_fits (hw : 0 < w) (ha : FitsInt w a) :
    (BitVec.ofInt w a).msb = decide (a < 0) := by
  rw [BitVec.msb_eq_toInt, BitVec.toInt_ofInt_eq_self hw ha.1 ha.2]

theorem halfSign_eq (hw : 0 < w) (hmask : (BitVec.ofInt w mask).msb = true)
    (ha : FitsInt w a) (hb : FitsInt w b) :
    halfSign w mask a b = if (a < 0 ↔ b < 0) then 1 else -1 := by
  simp only [halfSign, toNat_ushiftRight_eq_msb, BitVec.msb_and, BitVec.msb_xor, hmask,
    msb_ofInt_of_fits hw ha, msb_ofInt_of_fits hw hb, Bool.and_true]
  by_cases hna : a < 0
  · by_cases hnb : b < 0
    · simp [hna, hnb]
    · simp [hna, hnb]
  · by_cases hnb : b < 0
    · simp [hna, hnb]
    · simp [hna, hnb]

/-! ## The quotient -/

/-- The quotient with the sign of `a / b` and the rounded size. -/
def nearestQuot (a b : ℤ) : ℤ :=
  (if (a < 0 ↔ b < 0) then 1 else -1) * (((a.natAbs + b.natAbs / 2) / b.natAbs : ℕ) : ℤ)

/-- The quotient of the sizes, from the sum of the sizes. -/
theorem tdiv_sum_natCast (m n : ℕ) :
    ((m : ℤ) + (n : ℤ).tdiv 2).tdiv n = (((m + n / 2) / n : ℕ) : ℤ) := by
  have hhalf : (n : ℤ).tdiv 2 = ((n / 2 : ℕ) : ℤ) := rfl
  rw [hhalf, ← Nat.cast_add]
  rfl

/-- The half points the way of `a`, so the sum has the sign of `a` and its size is the sum
of the sizes.  Where `a` is zero, the sum is less than `b` in size. -/
theorem tdiv_halfSum (hw : 0 < w) (hmask : (BitVec.ofInt w mask).msb = true)
    (ha : FitsInt w a) (hb : FitsInt w b) :
    (halfSum w mask a b).tdiv b = nearestQuot a b := by
  rw [halfSum, halfSign_eq hw hmask ha hb, nearestQuot]
  by_cases hna : a < 0
  · obtain ⟨m, rfl⟩ : ∃ m : ℕ, a = -m := ⟨a.natAbs, by omega⟩
    by_cases hnb : b < 0
    · obtain ⟨n, rfl⟩ : ∃ n : ℕ, b = -n := ⟨b.natAbs, by omega⟩
      have hsum : -(m : ℤ) + (-(n : ℤ)).tdiv 2 * 1 = -((m : ℤ) + (n : ℤ).tdiv 2) := by
        rw [Int.neg_tdiv]
        ring
      rw [if_pos (iff_of_true hna hnb), hsum, Int.neg_tdiv, Int.tdiv_neg, neg_neg,
        tdiv_sum_natCast, Int.natAbs_neg, Int.natAbs_neg, Int.natAbs_natCast,
        Int.natAbs_natCast, one_mul]
    · obtain ⟨n, rfl⟩ : ∃ n : ℕ, b = n := ⟨b.natAbs, by omega⟩
      have hsum : -(m : ℤ) + (n : ℤ).tdiv 2 * -1 = -((m : ℤ) + (n : ℤ).tdiv 2) := by ring
      rw [if_neg (by tauto), hsum, Int.neg_tdiv, tdiv_sum_natCast, Int.natAbs_neg,
        Int.natAbs_natCast, Int.natAbs_natCast, neg_one_mul]
  · obtain ⟨m, rfl⟩ : ∃ m : ℕ, a = m := ⟨a.natAbs, by omega⟩
    by_cases hnb : b < 0
    · obtain ⟨n, rfl⟩ : ∃ n : ℕ, b = -n := ⟨b.natAbs, by omega⟩
      have hsum : (m : ℤ) + (-(n : ℤ)).tdiv 2 * -1 = (m : ℤ) + (n : ℤ).tdiv 2 := by
        rw [Int.neg_tdiv]
        ring
      rw [if_neg (by tauto), hsum, Int.tdiv_neg, tdiv_sum_natCast, Int.natAbs_neg,
        Int.natAbs_natCast, Int.natAbs_natCast, neg_one_mul]
    · obtain ⟨n, rfl⟩ : ∃ n : ℕ, b = n := ⟨b.natAbs, by omega⟩
      rw [if_pos (iff_of_false hna hnb), mul_one, tdiv_sum_natCast, Int.natAbs_natCast,
        Int.natAbs_natCast, one_mul]

theorem nearestAway_nearestQuot (hb : b ≠ 0) :
    NearestAway ((a : ℚ) / b) (nearestQuot a b) := by
  have hsizes : NearestAway ((a.natAbs : ℚ) / b.natAbs)
      (((a.natAbs + b.natAbs / 2) / b.natAbs : ℕ) : ℤ) :=
    nearestAway_div (Int.natAbs_pos.mpr hb)
  rw [Nat.cast_natAbs, Nat.cast_natAbs, Int.cast_abs, Int.cast_abs, ← abs_div] at hsizes
  rw [nearestQuot]
  by_cases hsigns : a < 0 ↔ b < 0
  · have hnonneg : (0 : ℚ) ≤ a / b := by
      by_cases hna : a < 0
      · have hnb : (b : ℚ) < 0 := by exact_mod_cast hsigns.mp hna
        exact div_nonneg_of_nonpos (by exact_mod_cast hna.le) hnb.le
      · have hnb : ¬ b < 0 := fun h => hna (hsigns.mpr h)
        exact div_nonneg (by exact_mod_cast not_lt.mp hna) (by exact_mod_cast not_lt.mp hnb)
    rw [if_pos hsigns, one_mul]
    rwa [abs_of_nonneg hnonneg] at hsizes
  · have hnonpos : (a : ℚ) / b ≤ 0 := by
      by_cases hna : a < 0
      · have hnb : ¬ b < 0 := fun h => hsigns (iff_of_true hna h)
        exact div_nonpos_of_nonpos_of_nonneg (by exact_mod_cast hna.le)
          (by exact_mod_cast not_lt.mp hnb)
      · have hnb : b < 0 := by
          by_contra hnb
          exact hsigns (iff_of_false hna hnb)
        exact div_nonpos_of_nonneg_of_nonpos (by exact_mod_cast not_lt.mp hna)
          (by exact_mod_cast hnb.le)
    rw [if_neg hsigns, neg_one_mul]
    rw [abs_of_nonpos hnonpos] at hsizes
    simpa using hsizes.neg

/-! ## Where the division is defined -/

theorem quot_sizes_le {m n : ℕ} (hn : 0 < n) : (m + n / 2) / n ≤ m := by
  have hmul : m ≤ n * m := Nat.le_mul_of_pos_left m hn
  apply Nat.le_of_lt_succ
  rw [Nat.div_lt_iff_lt_mul hn, Nat.succ_mul, Nat.mul_comm m n]
  omega

/-- A divisor of two or more makes every dividend smaller, but for one half. -/
theorem quot_sizes_lt {m n : ℕ} (hn : 2 ≤ n) (hm : 2 ≤ m) : (m + n / 2) / n < m := by
  rw [Nat.div_lt_iff_lt_mul (by omega)]
  obtain ⟨k, rfl⟩ : ∃ k, m = k + 2 := ⟨m - 2, by omega⟩
  have hmul : 2 * k ≤ k * n := by
    rw [Nat.mul_comm k n]
    exact Nat.mul_le_mul_right k hn
  rw [Nat.add_mul]
  omega

theorem two_le_two_pow (hw : 1 < w) : (2 : ℤ) ≤ 2 ^ (w - 1) := by
  have hpow : (2 : ℤ) ^ 1 ≤ 2 ^ (w - 1) := pow_le_pow_right₀ (by norm_num) (by omega)
  simpa using hpow

/-- The quotient is as large as the least integer only for a divisor of one, and then it
has the sign of the least integer unless the divisor is negative. -/
theorem fits_nearestQuot (hw : 1 < w) (ha : FitsInt w a) (hne : b ≠ 0)
    (hquot : ¬ (a = -2 ^ (w - 1) ∧ b = -1)) : FitsInt w (nearestQuot a b) := by
  have hn : 0 < b.natAbs := Int.natAbs_pos.mpr hne
  have hle : (a.natAbs + b.natAbs / 2) / b.natAbs ≤ a.natAbs := quot_sizes_le hn
  have hlt : 2 ≤ b.natAbs → 2 ≤ a.natAbs →
      (a.natAbs + b.natAbs / 2) / b.natAbs < a.natAbs := quot_sizes_lt
  have hbig : (2 : ℤ) ≤ 2 ^ (w - 1) := two_le_two_pow hw
  obtain ⟨hlow, hhigh⟩ := ha
  -- what remains is arithmetic in the sizes and the bound
  rw [FitsInt, nearestQuot]
  generalize (a.natAbs + b.natAbs / 2) / b.natAbs = size at *
  generalize (2 : ℤ) ^ (w - 1) = bound at *
  split
  · rw [one_mul]
    omega
  · rw [neg_one_mul]
    omega

theorem fits_half (hw : 1 < w) (hmask : (BitVec.ofInt w mask).msb = true)
    (ha : FitsInt w a) (hb : FitsInt w b) : FitsInt w (b.tdiv 2 * halfSign w mask a b) := by
  have hsize : (b.tdiv 2).natAbs = b.natAbs / 2 := Int.natAbs_tdiv b 2
  have hbig : (2 : ℤ) ≤ 2 ^ (w - 1) := two_le_two_pow hw
  rw [halfSign_eq (by omega) hmask ha hb]
  obtain ⟨hlow, hhigh⟩ := hb
  rw [FitsInt]
  generalize b.tdiv 2 = half at *
  generalize (2 : ℤ) ^ (w - 1) = bound at *
  split
  · omega
  · omega

theorem roundedDiv_eq (hw : 1 < w) (hmask : (BitVec.ofInt w mask).msb = true)
    (ha : FitsInt w a) (hb : FitsInt w b) (hne : b ≠ 0) (hsum : FitsInt w (halfSum w mask a b))
    (hquot : ¬ (a = -2 ^ (w - 1) ∧ b = -1)) :
    roundedDiv w mask a b = .ok (nearestQuot a b) := by
  rw [roundedDiv, checkedIn_of_fits (fits_half hw hmask ha hb), ok_bind, ← halfSum,
    checkedIn_of_fits hsum, ok_bind, if_neg hne, tdiv_halfSum (by omega) hmask ha hb]
  exact checkedIn_of_fits (fits_nearestQuot hw ha hne hquot)

/-- The result is the nearest integer, and nothing else is. -/
theorem roundedDiv_eq_ok_iff {q : ℤ} (hw : 1 < w) (hmask : (BitVec.ofInt w mask).msb = true)
    (ha : FitsInt w a) (hb : FitsInt w b) (hne : b ≠ 0) (hsum : FitsInt w (halfSum w mask a b))
    (hquot : ¬ (a = -2 ^ (w - 1) ∧ b = -1)) :
    roundedDiv w mask a b = .ok q ↔ NearestAway ((a : ℚ) / b) q := by
  have hnearest : NearestAway ((a : ℚ) / b) (nearestQuot a b) := nearestAway_nearestQuot hne
  rw [roundedDiv_eq hw hmask ha hb hne hsum hquot]
  constructor
  · intro h
    cases h
    exact hnearest
  · intro h
    rw [hnearest.unique h]

end

/-! ## The two divisions -/

theorem msb_mask64 : (BitVec.ofInt 64 mask64).msb = true := by decide

theorem msb_mask32 : (BitVec.ofInt 32 mask32).msb = true := by decide

def halfSum64 (a b : ℤ) : ℤ := halfSum 64 mask64 a b

def halfSum32 (a b : ℤ) : ℤ := halfSum 32 mask32 a b

theorem div64_eq {a b : ℤ} (ha : FitsInt 64 a) (hb : FitsInt 64 b) (hne : b ≠ 0)
    (hsum : FitsInt 64 (halfSum64 a b)) (hquot : ¬ (a = -2 ^ 63 ∧ b = -1)) :
    div64 a b = .ok (nearestQuot a b) :=
  roundedDiv_eq (by decide) msb_mask64 ha hb hne hsum hquot

theorem div32_eq {a b : ℤ} (ha : FitsInt 32 a) (hb : FitsInt 32 b) (hne : b ≠ 0)
    (hsum : FitsInt 32 (halfSum32 a b)) (hquot : ¬ (a = -2 ^ 31 ∧ b = -1)) :
    div32 a b = .ok (nearestQuot a b) :=
  roundedDiv_eq (by decide) msb_mask32 ha hb hne hsum hquot

/-- Both divisions round to the nearest integer, and a half away from zero, wherever the sum
and the quotient fit.  Only the least integer divided by minus one has a sum that fits and a
quotient that does not. -/
theorem div_nearestAway {a b : ℤ} (hne : b ≠ 0) :
    (FitsInt 64 a → FitsInt 64 b → FitsInt 64 (halfSum64 a b) →
      ¬ (a = -2 ^ 63 ∧ b = -1) →
      ∃ q, div64 a b = .ok q ∧ NearestAway ((a : ℚ) / b) q) ∧
    (FitsInt 32 a → FitsInt 32 b → FitsInt 32 (halfSum32 a b) →
      ¬ (a = -2 ^ 31 ∧ b = -1) →
      ∃ q, div32 a b = .ok q ∧ NearestAway ((a : ℚ) / b) q) := by
  constructor
  · intro ha hb hsum hquot
    exact ⟨nearestQuot a b, div64_eq ha hb hne hsum hquot, nearestAway_nearestQuot hne⟩
  · intro ha hb hsum hquot
    exact ⟨nearestQuot a b, div32_eq ha hb hne hsum hquot, nearestAway_nearestQuot hne⟩

theorem div_nearestAway_minus_seven_halves :
    (∃ q, div64 (-7) 2 = .ok q ∧ NearestAway (((-7 : ℤ) : ℚ) / (2 : ℤ)) q) ∧
    (∃ q, div32 (-7) 2 = .ok q ∧ NearestAway (((-7 : ℤ) : ℚ) / (2 : ℤ)) q) :=
  ⟨(div_nearestAway (by decide)).1 (by decide) (by decide) (by decide) (by decide),
    (div_nearestAway (by decide)).2 (by decide) (by decide) (by decide) (by decide)⟩

example : div64 (-7) 2 = .ok (-4) := by decide

example : div32 7 (-3) = .ok (-2) := by decide

/-- The sum fits, but the quotient is one more than the greatest integer. -/
theorem div64_undefined_least :
    FitsInt 64 (halfSum64 (-2 ^ 63) (-1)) ∧
      ¬ ∃ q, div64 (-2 ^ 63) (-1) = .ok q ∧
        NearestAway (((-2 ^ 63 : ℤ) : ℚ) / (-1 : ℤ)) q := by
  have hfault : div64 (-2 ^ 63) (-1) = .error .overflow := by decide
  refine ⟨by decide, ?_⟩
  rintro ⟨q, hq, -⟩
  rw [hfault] at hq
  cases hq

end Fractor
end Libfractor
end ArmyRs
