import ArmyRs.Libfractor.Fractor

/-!
# The error of `strip`

Dividing by the greatest common divisor changes no value.  A shift is only made while
both parts exceed `upper`, so after the last one both are still at least 5000, and all
the shifts together move the value by a small part of it (`strip_spec`).
-/

namespace ArmyRs
namespace Libfractor
namespace Fractor

open Foundation

variable {f g : Fractor} {k : ℕ}

/-! ## Lowest terms -/

theorem gcd_pos (hden : f.den ≠ 0) : (0 : ℤ) < Int.gcd f.nom f.den := by
  have hpos := Int.gcd_pos_of_ne_zero_right f.nom hden
  omega

theorem nom_reduced_mul (f : Fractor) : f.reduced.nom * Int.gcd f.nom f.den = f.nom :=
  Int.ediv_mul_cancel (Int.gcd_dvd_left ..)

theorem den_reduced_mul (f : Fractor) : f.reduced.den * Int.gcd f.nom f.den = f.den :=
  Int.ediv_mul_cancel (Int.gcd_dvd_right ..)

theorem den_reduced_ne_zero (hden : f.den ≠ 0) : f.reduced.den ≠ 0 := by
  intro hzero
  apply hden
  rw [← den_reduced_mul f, hzero, zero_mul]

theorem den_reduced_pos (hden : 0 < f.den) : 0 < f.reduced.den := by
  have hmul := den_reduced_mul f
  have hpos := gcd_pos hden.ne'
  rw [← hmul] at hden
  exact pos_of_mul_pos_left hden hpos.le

theorem value_reduced (hden : f.den ≠ 0) : f.reduced.value = f.value := by
  have hpos : ((Int.gcd f.nom f.den : ℤ) : ℚ) ≠ 0 := by exact_mod_cast (gcd_pos hden).ne'
  have hnomQ : (f.nom : ℚ) = f.reduced.nom * (Int.gcd f.nom f.den : ℤ) := by
    exact_mod_cast (nom_reduced_mul f).symm
  have hdenQ : (f.den : ℚ) = f.reduced.den * (Int.gcd f.nom f.den : ℤ) := by
    exact_mod_cast (den_reduced_mul f).symm
  unfold value
  rw [hnomQ, hdenQ, mul_div_mul_right _ _ hpos]

/-! ## Shifts -/

/-- The numerator of `g` has the sign of that of `f`, and the value is almost the same. -/
structure Approximates (g f : Fractor) : Prop where
  den : 0 < g.den
  sign : g.nom.sign = f.nom.sign
  value : |g.value - f.value| ≤ |f.value| / 2499

theorem Approximates.refl (hden : 0 < f.den) : f.Approximates f where
  den := hden
  sign := rfl
  value := by
    rw [sub_self, abs_zero]
    positivity

/-- After a shift both parts are at least half as large as `upper`. -/
theorem Large.halved_succ (hden : 0 < f.den) (h : (f.halved k).Large) :
    5000 ≤ f.den / 2 ^ (k + 1) ∧
      (5000 ≤ f.nom / 2 ^ (k + 1) ∨ f.nom / 2 ^ (k + 1) ≤ -5001) := by
  obtain ⟨hnomLarge, hdenLarge⟩ := h
  have hdenPos : 0 ≤ f.den / 2 ^ k := Int.ediv_nonneg hden.le (by positivity)
  rw [ediv_two_pow_succ, ediv_two_pow_succ]
  unfold halved upper at hnomLarge hdenLarge
  dsimp only at hnomLarge hdenLarge
  rw [abs_of_nonneg hdenPos] at hdenLarge
  refine ⟨by omega, ?_⟩
  rcases le_total 0 (f.nom / 2 ^ k) with hsign | hsign
  · rw [abs_of_nonneg hsign] at hnomLarge
    exact .inl (by omega)
  · rw [abs_of_nonpos hsign] at hnomLarge
    exact .inr (by omega)

/-- The quotient keeps the sign unless it is too small. -/
theorem sign_ediv_two_pow {n : ℤ} (h : 5000 ≤ n / 2 ^ k ∨ n / 2 ^ k ≤ -5001) :
    (n / 2 ^ k).sign = n.sign := by
  have hpos : (0 : ℤ) < 2 ^ k := by positivity
  rcases h with hlarge | hsmall
  · have hn : 0 < n := by
      by_contra hnot
      have hle := Int.ediv_le_ediv hpos (not_lt.mp hnot)
      rw [Int.zero_ediv] at hle
      omega
    rw [Int.sign_eq_one_of_pos hn, Int.sign_eq_one_of_pos (by omega)]
  · have hn : n < 0 := by
      by_contra hnot
      have hnonneg := Int.ediv_nonneg (not_lt.mp hnot) hpos.le
      omega
    rw [Int.sign_eq_neg_one_of_neg hn, Int.sign_eq_neg_one_of_neg (by omega)]

theorem approximates_shifted (hden : 0 < f.den) : f.shifted.Approximates f := by
  obtain ⟨k, hshifted, hlarge, -⟩ := shifted_eq_halved f
  rw [hshifted]
  cases k with
  | zero =>
      have hsame : f.halved 0 = f := by simp [halved]
      rw [hsame]
      exact Approximates.refl hden
  | succ k =>
      obtain ⟨hd, hn⟩ := (hlarge k (Nat.lt_succ_self k)).halved_succ hden
      have hpos : 0 < f.den / 2 ^ (k + 1) := by omega
      refine ⟨hpos, sign_ediv_two_pow hn, ?_⟩
      have hcross : 2499 * |f.nom / 2 ^ (k + 1) * f.den - f.nom * (f.den / 2 ^ (k + 1))| ≤
          |f.nom| * (f.den / 2 ^ (k + 1)) :=
        abs_halved_sub_le (c := 2500) (by norm_num) (by omega) (by omega)
      have hvalue := abs_div_sub_div_le (by norm_num) hpos hden hcross
      have hcast : ((2499 : ℤ) : ℚ) = 2499 := by norm_num
      rw [hcast] at hvalue
      exact hvalue

/-! ## The result of `strip` -/

theorem value_eq_zero_iff (hden : f.den ≠ 0) : f.value = 0 ↔ f.nom = 0 := by
  have hdenQ : (f.den : ℚ) ≠ 0 := by exact_mod_cast hden
  rw [value, div_eq_zero_iff, or_iff_left hdenQ, Int.cast_eq_zero]

theorem cutOff_iff (hden : 0 < f.den) :
    f.CutOff ↔ f.nom = 0 ∨ 100000 ≤ f.den / |f.nom| := by
  have hquot : f.den / |f.nom| = ((f.den.natAbs / f.nom.natAbs : ℕ) : ℤ) := by
    rw [Int.abs_eq_natAbs, Int.natCast_ediv, Int.natAbs_of_nonneg hden.le]
  rw [hquot]
  unfold CutOff
  omega

/-- `strip` ends without a fault.  Its result is zero exactly for small values, and else
has the sign of the fraction and differs from it by a small part of its value. -/
theorem strip_spec (hden : 0 < f.den) (hnom : -2 ^ 63 < f.nom) :
    ∃ g, f.strip = .ok g ∧ 0 < g.den ∧
      (g.value = 0 ↔ f.nom = 0 ∨ 100000 ≤ f.den / |f.nom|) ∧
      (¬ (f.nom = 0 ∨ 100000 ≤ f.den / |f.nom|) →
        g.nom.sign = f.nom.sign ∧ |g.value - f.value| ≤ |f.value| / 2499) := by
  have hfault : ¬ (f.nom ≤ -2 ^ 63 ∨ f.den ≤ -2 ^ 63) := by omega
  rw [strip_eq, if_neg hfault, ← cutOff_iff hden]
  by_cases hcut : f.CutOff
  · rw [if_pos hcut]
    exact ⟨zero, rfl, one_pos, iff_of_true (by simp [value, zero]) hcut, fun h => absurd hcut h⟩
  · rw [if_neg hcut, if_neg hden.ne']
    have hnomZero : f.nom ≠ 0 := fun hzero => hcut (.inl hzero)
    have happrox := approximates_shifted (den_reduced_pos hden)
    have hsign : f.reduced.nom.sign = f.nom.sign := by
      have hmul := congrArg Int.sign (nom_reduced_mul f)
      rwa [Int.sign_mul, Int.sign_eq_one_of_pos (gcd_pos hden.ne'), mul_one] at hmul
    have hvalue := happrox.value
    rw [value_reduced hden.ne'] at hvalue
    refine ⟨_, rfl, happrox.den, ?_, fun _ => ⟨happrox.sign.trans hsign, hvalue⟩⟩
    refine iff_of_false (fun hzero => hnomZero ?_) hcut
    rw [value_eq_zero_iff happrox.den.ne', ← Int.sign_eq_zero_iff_zero, happrox.sign, hsign,
      Int.sign_eq_zero_iff_zero] at hzero
    exact hzero

theorem strip_spec_half :
    ∃ g, (⟨5000, 10000⟩ : Fractor).strip = .ok g ∧ 0 < g.den ∧
      (g.value = 0 ↔ (5000 : ℤ) = 0 ∨ 100000 ≤ (10000 : ℤ) / |5000|) ∧
      (¬ ((5000 : ℤ) = 0 ∨ 100000 ≤ (10000 : ℤ) / |5000|) →
        g.nom.sign = (5000 : ℤ).sign ∧
          |g.value - (⟨5000, 10000⟩ : Fractor).value| ≤ |(⟨5000, 10000⟩ : Fractor).value| / 2499) :=
  strip_spec (f := ⟨5000, 10000⟩) (by decide) (by decide)

end Fractor
end Libfractor
end ArmyRs
