import Mathlib.Data.Int.Log
import Mathlib.Data.Rat.Floor
import Mathlib.Tactic

/-!
# Doubles

A number is rounded to the nearest one with 53 bits, in the middle to the even one.  Numbers
that are too large or too small for the exponent of a double are left out.

Between two powers of two the doubles are a grid (`double_of_binade`), and rounding to it
commutes with the translations that keep the grid and the evenness (`onGrid_add`).
-/

namespace ArmyRs
namespace Foundation

/-! ## The nearest integer -/

/-- The nearest integer, in the middle the even one. -/
def nearestEven (x : ℚ) : ℤ :=
  if x - ⌊x⌋ < 1 / 2 ∨ x - ⌊x⌋ = 1 / 2 ∧ ⌊x⌋ % 2 = 0 then ⌊x⌋ else ⌊x⌋ + 1

theorem floor_le_nearestEven (x : ℚ) : ⌊x⌋ ≤ nearestEven x := by
  unfold nearestEven
  split <;> omega

theorem nearestEven_le_floor_add_one (x : ℚ) : nearestEven x ≤ ⌊x⌋ + 1 := by
  unfold nearestEven
  split <;> omega

@[simp] theorem nearestEven_intCast (n : ℤ) : nearestEven n = n := by
  simp [nearestEven]

theorem abs_sub_nearestEven_le (x : ℚ) : |x - nearestEven x| ≤ 1 / 2 := by
  have hfloor := Int.floor_le x
  have hnext := Int.lt_floor_add_one x
  unfold nearestEven
  rw [abs_le]
  split
  · next hnear =>
    have hhalf : x - ⌊x⌋ ≤ 1 / 2 := by
      rcases hnear with h | h
      · exact h.le
      · exact h.1.le
    constructor <;> linarith
  · next hfar =>
    rw [not_or] at hfar
    push_cast
    constructor <;> linarith [hfar.1]

theorem nearestEven_mono {x y : ℚ} (hle : x ≤ y) : nearestEven x ≤ nearestEven y := by
  rcases (Int.floor_mono hle).lt_or_eq with hlt | heq
  · have hx := nearestEven_le_floor_add_one x
    have hy := floor_le_nearestEven y
    omega
  · -- of two numbers with one floor, the larger is rounded up when the smaller is
    unfold nearestEven
    rw [heq]
    split
    · split <;> omega
    · next hfar =>
      rw [not_or, not_and] at hfar
      have hhalf := not_lt.mp hfar.1
      rw [if_neg]
      rintro (hless | ⟨hmiddle, heven⟩)
      · linarith
      · exact hfar.2 (by linarith) heven

/-- Rounding commutes with the translations that keep the evenness. -/
theorem nearestEven_add (x : ℚ) {n : ℤ} (heven : n % 2 = 0) :
    nearestEven (x + n) = nearestEven x + n := by
  have hparity : (⌊x⌋ + n) % 2 = ⌊x⌋ % 2 := by omega
  unfold nearestEven
  rw [Int.floor_add_intCast, hparity]
  push_cast
  rw [add_sub_add_right_eq_sub]
  split <;> ring

/-! ## Grids -/

/-- The nearest multiple of a power of two. -/
def onGrid (e : ℤ) (x : ℚ) : ℚ := nearestEven (x / 2 ^ e) * 2 ^ e

section

variable {e : ℤ} {x y : ℚ}

theorem onGrid_mono (hle : x ≤ y) : onGrid e x ≤ onGrid e y := by
  have hpow : (0 : ℚ) < 2 ^ e := by positivity
  have hnear : nearestEven (x / 2 ^ e) ≤ nearestEven (y / 2 ^ e) :=
    nearestEven_mono (by gcongr)
  unfold onGrid
  gcongr

@[simp] theorem onGrid_mul (n : ℤ) : onGrid e (n * 2 ^ e) = n * 2 ^ e := by
  have hpow : (2 : ℚ) ^ e ≠ 0 := by positivity
  rw [onGrid, mul_div_cancel_right₀ _ hpow, nearestEven_intCast]

theorem onGrid_add (x : ℚ) {n : ℤ} (heven : n % 2 = 0) :
    onGrid e (x + n * 2 ^ e) = onGrid e x + n * 2 ^ e := by
  have hpow : (2 : ℚ) ^ e ≠ 0 := by positivity
  unfold onGrid
  rw [add_div, mul_div_cancel_right₀ _ hpow, nearestEven_add _ heven]
  push_cast
  ring

theorem onGrid_onGrid (x : ℚ) : onGrid e (onGrid e x) = onGrid e x :=
  onGrid_mul (nearestEven (x / 2 ^ e))

theorem abs_sub_onGrid_le (e : ℤ) (x : ℚ) : |x - onGrid e x| ≤ 2 ^ (e - 1) := by
  have hpow : (0 : ℚ) < 2 ^ e := by positivity
  have hdiff : x - onGrid e x = (x / 2 ^ e - nearestEven (x / 2 ^ e)) * 2 ^ e := by
    unfold onGrid
    rw [sub_mul, div_mul_cancel₀ _ hpow.ne']
  have hhalf : (2 : ℚ) ^ (e - 1) = 1 / 2 * 2 ^ e := by
    rw [zpow_sub_one₀ two_ne_zero]
    ring
  rw [hdiff, abs_mul, abs_of_pos hpow, hhalf]
  exact mul_le_mul_of_nonneg_right (abs_sub_nearestEven_le _) hpow.le

/-- A power of two is on every finer grid. -/
theorem onGrid_zpow {f : ℤ} (hle : e ≤ f) : onGrid e (2 ^ f) = 2 ^ f := by
  obtain ⟨n, hn⟩ : ∃ n : ℕ, f - e = n := ⟨(f - e).toNat, by omega⟩
  have hmul : (2 : ℚ) ^ f = ((2 ^ n : ℤ) : ℚ) * 2 ^ e := by
    push_cast
    rw [← zpow_natCast, ← hn, ← zpow_add₀ two_ne_zero, sub_add_cancel]
  rw [hmul]
  exact onGrid_mul _

theorem onGrid_nonneg (hx : 0 ≤ x) : 0 ≤ onGrid e x := by
  have hzero : onGrid e 0 = 0 := by simpa using @onGrid_mul e 0
  rw [← hzero]
  exact onGrid_mono hx

end

/-! ## Rounding to 53 bits -/

/-- The double nearest to a number. -/
def double (x : ℚ) : ℚ :=
  if 0 ≤ x then onGrid (Int.log 2 x - 52) x else -onGrid (Int.log 2 (-x) - 52) (-x)

section

variable {e : ℤ} {x y : ℚ}

theorem double_of_nonneg (hx : 0 ≤ x) : double x = onGrid (Int.log 2 x - 52) x := if_pos hx

theorem double_nonneg (hx : 0 ≤ x) : 0 ≤ double x := by
  rw [double_of_nonneg hx]
  exact onGrid_nonneg hx

theorem double_neg (hx : 0 < x) : double (-x) = -double x := by
  rw [double, if_neg (by linarith), neg_neg, double_of_nonneg hx.le]

theorem log_eq_of_binade (hlow : 2 ^ e ≤ x) (hhigh : x < 2 ^ (e + 1)) : Int.log 2 x = e := by
  have hpos : 0 < x := lt_of_lt_of_le (by positivity) hlow
  have hle : e ≤ Int.log 2 x := (Int.zpow_le_iff_le_log one_lt_two hpos).mp (by exact_mod_cast hlow)
  have hlt : Int.log 2 x < e + 1 :=
    (Int.lt_zpow_iff_log_lt one_lt_two hpos).mp (by exact_mod_cast hhigh)
  omega

/-- Between two powers of two the doubles are a grid. -/
theorem double_of_binade (hlow : 2 ^ e ≤ x) (hhigh : x < 2 ^ (e + 1)) :
    double x = onGrid (e - 52) x := by
  have hpos : 0 < x := lt_of_lt_of_le (by positivity) hlow
  rw [double_of_nonneg hpos.le, log_eq_of_binade hlow hhigh]

theorem double_mono_of_pos (hx : 0 < x) (hle : x ≤ y) : double x ≤ double y := by
  have hy : 0 < y := hx.trans_le hle
  rw [double_of_nonneg hx.le, double_of_nonneg hy.le]
  have hlog : Int.log 2 x ≤ Int.log 2 y := Int.log_mono_right hx hle
  rcases hlog.lt_or_eq with hlt | heq
  · -- the powers of two between the binades are doubles
    have hxhigh : x ≤ 2 ^ (Int.log 2 x + 1) := by
      exact_mod_cast (Int.lt_zpow_succ_log_self one_lt_two x).le
    have hylow : 2 ^ Int.log 2 y ≤ y := by
      exact_mod_cast Int.zpow_log_le_self one_lt_two hy
    calc onGrid (Int.log 2 x - 52) x
        ≤ onGrid (Int.log 2 x - 52) (2 ^ (Int.log 2 x + 1)) := onGrid_mono hxhigh
      _ = 2 ^ (Int.log 2 x + 1) := onGrid_zpow (by omega)
      _ ≤ 2 ^ Int.log 2 y := zpow_le_zpow_right₀ one_le_two (by omega)
      _ = onGrid (Int.log 2 y - 52) (2 ^ Int.log 2 y) := (onGrid_zpow (by omega)).symm
      _ ≤ onGrid (Int.log 2 y - 52) y := onGrid_mono hylow
  · rw [heq]
    exact onGrid_mono hle

theorem double_mono (hle : x ≤ y) : double x ≤ double y := by
  rcases lt_or_ge x 0 with hx | hx
  · have hneg : double x = -double (-x) := by rw [← double_neg (by linarith), neg_neg]
    rw [hneg]
    rcases lt_or_ge y 0 with hy | hy
    · have hneg' : double y = -double (-y) := by rw [← double_neg (by linarith), neg_neg]
      rw [hneg', neg_le_neg_iff]
      exact double_mono_of_pos (by linarith) (by linarith)
    · have hx' : 0 ≤ double (-x) := double_nonneg (by linarith)
      have hy' : 0 ≤ double y := double_nonneg hy
      linarith
  · rcases hx.lt_or_eq with hpos | rfl
    · exact double_mono_of_pos hpos hle
    · have hzero : double 0 = 0 := by
        rw [double_of_nonneg le_rfl]
        simpa using @onGrid_mul (Int.log 2 (0 : ℚ) - 52) 0
      rw [hzero]
      exact double_nonneg hle

/-- A nonnegative number below a power of two is rounded by half a unit of that binade
at most. -/
theorem abs_sub_double_le (hx : 0 < x) (hhigh : x < 2 ^ (e + 1)) :
    |x - double x| ≤ 2 ^ (e - 53) := by
  have hlog : Int.log 2 x < e + 1 :=
    (Int.lt_zpow_iff_log_lt one_lt_two hx).mp (by exact_mod_cast hhigh)
  rw [double_of_nonneg hx.le]
  calc |x - onGrid (Int.log 2 x - 52) x| ≤ 2 ^ (Int.log 2 x - 52 - 1) := abs_sub_onGrid_le _ x
    _ ≤ 2 ^ (e - 53) := zpow_le_zpow_right₀ one_le_two (by omega)

end

end Foundation
end ArmyRs
