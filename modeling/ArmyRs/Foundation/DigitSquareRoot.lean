import Mathlib.Data.Nat.Sqrt
import Mathlib.Tactic

/-!
# Square roots digit by digit

A number is read in base four from its leading digit.  Of the digits read so far the loop
keeps twice the root and what is left after the square of the root; a further digit makes
the root twice as large, and one larger when the rest allows it.
-/

namespace ArmyRs
namespace Foundation

/-- Twice the root of the digits read, and what is left of them. -/
structure RootAndRest where
  rest : ℕ
  twice : ℕ
  deriving DecidableEq, Repr

namespace RootAndRest

def next (s : RootAndRest) (digit : ℕ) : RootAndRest :=
  if 2 * s.twice < 4 * s.rest + digit then
    ⟨4 * s.rest + digit - (2 * s.twice + 1), 2 * s.twice + 2⟩
  else ⟨4 * s.rest + digit, 2 * s.twice⟩

/-- `a` is the square of the root and the rest, and the rest is too small for a larger
root. -/
def RootOf (s : RootAndRest) (a : ℕ) : Prop :=
  ∃ r, s.twice = 2 * r ∧ s.rest + r * r = a ∧ s.rest ≤ 2 * r

variable {s : RootAndRest} {a digit h : ℕ}

theorem rootOf_zero : RootOf ⟨0, 0⟩ 0 := ⟨0, rfl, rfl, le_rfl⟩

theorem RootOf.next (hs : s.RootOf a) (hdigit : digit < 4) :
    (s.next digit).RootOf (4 * a + digit) := by
  obtain ⟨r, htwice, hsquare, hrest⟩ := hs
  rw [RootAndRest.next]
  by_cases hlt : 2 * s.twice < 4 * s.rest + digit
  · rw [if_pos hlt]
    refine ⟨2 * r + 1, by simp only []; omega, ?_, by simp only []; omega⟩
    have hgrow : (2 * r + 1) * (2 * r + 1) = 4 * (r * r) + 4 * r + 1 := by ring
    simp only []
    omega
  · rw [if_neg hlt]
    refine ⟨2 * r, by simp only []; omega, ?_, by simp only []; omega⟩
    have hgrow : 2 * r * (2 * r) = 4 * (r * r) := by ring
    simp only []
    omega

theorem RootOf.twice_eq (hs : s.RootOf a) : s.twice = 2 * Nat.sqrt a := by
  obtain ⟨r, htwice, hsquare, hrest⟩ := hs
  have hroot : r = Nat.sqrt a := by
    apply Nat.eq_sqrt.mpr
    have hgrow : (r + 1) * (r + 1) = r * r + 2 * r + 1 := by ring
    omega
  rw [htwice, hroot]

/-- The rest is no more than twice the root. -/
theorem RootOf.rest_le (hs : s.RootOf a) : s.rest ≤ 2 * Nat.sqrt a := by
  have htwice := hs.twice_eq
  obtain ⟨r, htwice', -, hrest⟩ := hs
  omega

/-! ## The digits of a number -/

/-- A number with its last `j` digits cut off, and with its last `j + 1` cut off. -/
theorem div_four_pow_eq (n j : ℕ) : n / 4 ^ j = 4 * (n / 4 ^ (j + 1)) + n / 4 ^ j % 4 := by
  have hcut : n / 4 ^ (j + 1) = n / 4 ^ j / 4 := by
    rw [pow_succ, Nat.div_div_eq_div_mul]
  omega

/-- The leading digit, when the first `k` of `k + j + 1` digits have been shifted out. -/
theorem leading_digit (n k j : ℕ) :
    n * 4 ^ k % 4 ^ (k + j + 1) / 4 ^ (k + j) = n / 4 ^ j % 4 := by
  have hsplit : 4 ^ (k + j + 1) = 4 ^ k * (4 * 4 ^ j) := by ring
  rw [hsplit, pow_add, Nat.mul_comm n, Nat.mul_mod_mul_left,
    Nat.mul_div_mul_left _ _ (by positivity), Nat.mod_mul_left_div_self]

theorem sqrt_lt_two_pow {k : ℕ} (ha : a < 4 ^ k) : Nat.sqrt a < 2 ^ k := by
  rw [Nat.sqrt_lt', ← pow_mul, Nat.mul_comm, pow_mul]
  exact ha

end RootAndRest

end Foundation
end ArmyRs
