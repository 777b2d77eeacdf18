import Mathlib.Tactic

/-!
# The nearest integer

Rounding a fraction to the nearest integer, a half away from zero.  The quotient of
natural numbers is rounded so when half of the divisor is added to the dividend first.
-/

namespace ArmyRs
namespace Foundation

/-- `q` is the integer nearest to `x`, and the one away from zero when two are. -/
def NearestAway (x : ℚ) (q : ℤ) : Prop :=
  |x - q| ≤ 1 / 2 ∧ (|x - q| = 1 / 2 → |x| < |(q : ℚ)|)

namespace NearestAway

variable {x : ℚ} {p q : ℤ}

theorem neg (h : NearestAway x q) : NearestAway (-x) (-q) := by
  have hdiff : |-x - ((-q : ℤ) : ℚ)| = |x - q| := by
    rw [← abs_neg]
    push_cast
    ring_nf
  rw [NearestAway, hdiff]
  push_cast
  rw [abs_neg, abs_neg]
  exact h

/-- Two nearest integers are both at a distance of one half, on two sides of `x`, and then
only one of them is farther from zero than `x`. -/
theorem unique (hp : NearestAway x p) (hq : NearestAway x q) : p = q := by
  wlog hlt : p < q generalizing p q
  · rcases lt_trichotomy p q with h | h | h
    · exact this hp hq h
    · exact h
    · exact (this hq hp h).symm
  have hgap : (p : ℚ) + 1 ≤ q := by exact_mod_cast hlt
  obtain ⟨-, hpright⟩ := abs_le.mp hp.1
  obtain ⟨hqleft, -⟩ := abs_le.mp hq.1
  have hxp : x = p + 1 / 2 := by linarith
  have hxq : x = q - 1 / 2 := by linarith
  have hfarp : |x| < |(p : ℚ)| := hp.2 (by rw [hxp]; norm_num)
  have hfarq : |x| < |(q : ℚ)| := hq.2 (by rw [hxq]; norm_num)
  -- `p` lies left of `x`, so it is farther from zero only when `x` is negative
  rcases le_or_gt 0 x with hx | hx
  · have hp0 : (p : ℚ) < 0 := by
      by_contra hp0
      rw [abs_of_nonneg hx, abs_of_nonneg (not_lt.mp hp0)] at hfarp
      linarith
    have hpint : p ≤ -1 := by
      have : p < 0 := by exact_mod_cast hp0
      omega
    have : (p : ℚ) ≤ -1 := by exact_mod_cast hpint
    linarith
  · have hq0 : 0 < (q : ℚ) := by
      by_contra hq0
      rw [abs_of_neg hx, abs_of_nonpos (not_lt.mp hq0)] at hfarq
      linarith
    have hqint : 1 ≤ q := by
      have : 0 < q := by exact_mod_cast hq0
      omega
    have : (1 : ℚ) ≤ q := by exact_mod_cast hqint
    linarith

end NearestAway

/-- The quotient of `a + b / 2` by `b` lies within one half of `a / b`, and above it when
`a / b` lies in the middle of two integers. -/
theorem nearestAway_div {a b : ℕ} (hb : 0 < b) :
    NearestAway (a / b) (((a + b / 2) / b : ℕ) : ℤ) := by
  set q := (a + b / 2) / b with hq
  have hdiv : b * q + (a + b / 2) % b = a + b / 2 := Nat.div_add_mod _ _
  have hmod : (a + b / 2) % b < b := Nat.mod_lt _ hb
  have hlow : 2 * (b * q) ≤ 2 * a + b := by omega
  have hhigh : 2 * a < 2 * (b * q) + b := by omega
  have hbq : (0 : ℚ) < b := by exact_mod_cast hb
  have hlowq : 2 * ((b : ℚ) * q) ≤ 2 * a + b := by exact_mod_cast hlow
  have hhighq : 2 * (a : ℚ) < 2 * (b * q) + b := by exact_mod_cast hhigh
  have hleft : -(1 / 2) ≤ (a : ℚ) / b - q := by
    have : (q : ℚ) - 1 / 2 ≤ a / b := by
      rw [le_div_iff₀ hbq]
      linarith
    linarith
  have hright : (a : ℚ) / b - q < 1 / 2 := by
    have : (a : ℚ) / b < q + 1 / 2 := by
      rw [div_lt_iff₀ hbq]
      linarith
    linarith
  have hnonneg : (0 : ℚ) ≤ a / b := by positivity
  refine ⟨?_, fun htie => ?_⟩
  · rw [Int.cast_natCast]
    exact abs_le.mpr ⟨hleft, hright.le⟩
  · rw [Int.cast_natCast] at htie ⊢
    rw [abs_of_nonneg hnonneg, abs_of_nonneg (Nat.cast_nonneg q)]
    -- a distance of one half can only be one to the left
    rcases abs_choice ((a : ℚ) / b - q) with hsign | hsign
    · linarith
    · linarith

end Foundation
end ArmyRs
