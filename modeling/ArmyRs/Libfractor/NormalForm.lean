import ArmyRs.Libfractor.Strip

/-!
# Normalising once more

Adding zero to the result of an operator, or multiplying it by one, calls `strip` on it
again.  Nothing is shifted then, but the shifts of the first call may have made the value
so small that the second call cuts it off.  The value stays as it is exactly when that is
not the case (`unmoved_iff`).
-/

namespace ArmyRs
namespace Libfractor

open Foundation

namespace Fractor

variable {f x y : Fractor} {k : ℕ}

/-! ## Shifted fractions -/

theorem shifted_of_not_large (h : ¬ f.Large) : f.shifted = f := by
  unfold shifted
  rw [shiftLoop, dif_neg (show ¬ (upper < |f.nom| ∧ upper < |f.den|) from h)]

theorem shifted_of_large (h : f.Large) : f.shifted = (f.halved 1).shifted := by
  have hshift : ∀ x : ℤ, x >>> (1 : ℕ) = x / 2 ^ 1 := fun x => Int.shiftRight_eq_div_pow x 1
  unfold shifted
  rw [shiftLoop, dif_pos (show upper < |f.nom| ∧ upper < |f.den| from h), hshift, hshift]
  rfl

theorem not_large_shifted (f : Fractor) : ¬ f.shifted.Large := by
  obtain ⟨k, hshifted, -, hdone⟩ := shifted_eq_halved f
  rwa [hshifted]

theorem den_shifted_ne_zero (hden : f.den ≠ 0) : f.shifted.den ≠ 0 := by
  obtain ⟨k, hshifted, hlarge, -⟩ := shifted_eq_halved f
  rw [hshifted]
  cases k with
  | zero => simpa [halved] using hden
  | succ k =>
      have hbefore := (hlarge k (Nat.lt_succ_self k)).2
      unfold halved upper at *
      dsimp only at hbefore ⊢
      rw [ediv_two_pow_succ]
      intro hzero
      rcases abs_cases (f.den / 2 ^ k) with ⟨habs, -⟩ | ⟨habs, -⟩ <;> omega

/-- Lower terms are no larger. -/
theorem Large.of_reduced (h : f.reduced.Large) : f.Large := by
  unfold Large reduced at *
  dsimp only at h
  rw [Int.abs_eq_natAbs, Int.abs_eq_natAbs] at *
  have hnom := Int.natAbs_ediv_le_natAbs f.nom (Int.gcd f.nom f.den)
  have hden := Int.natAbs_ediv_le_natAbs f.den (Int.gcd f.nom f.den)
  omega

/-! ## Results of `strip` -/

/-- Both parts have an absolute value that is a 64-bit integer. -/
def Bounded (f : Fractor) : Prop := f.nom.natAbs < 2 ^ 63 ∧ f.den.natAbs < 2 ^ 63

/-- When `strip` answers, the parts were not least, and the value is cut off or shifted. -/
theorem strip_cases (h : f.strip = .ok x) :
    -2 ^ 63 < f.nom ∧ -2 ^ 63 < f.den ∧
      (f.CutOff ∧ x = zero ∨ ¬ f.CutOff ∧ f.den ≠ 0 ∧ x = f.reduced.shifted) := by
  rw [strip_eq] at h
  split at h
  · cases h
  · next hfault =>
    refine ⟨by omega, by omega, ?_⟩
    split at h
    · next hcut =>
      cases h
      exact .inl ⟨hcut, rfl⟩
    · next hcut =>
      split at h
      · cases h
      · next hden =>
        cases h
        exact .inr ⟨hcut, hden, rfl⟩

/-- A fraction whose lowest terms are not too large is only reduced. -/
theorem strip_eq_reduced (hnom : -2 ^ 63 < f.nom) (hden : 0 < f.den) (hcut : ¬ f.CutOff)
    (hsmall : ¬ f.reduced.Large) : f.strip = .ok f.reduced := by
  rw [strip_eq, if_neg (by omega), if_neg hcut, if_neg hden.ne', shifted_of_not_large hsmall]

/-- One shift is enough. -/
theorem strip_eq_halved (hnom : -2 ^ 63 < f.nom) (hden : 0 < f.den) (hcut : ¬ f.CutOff)
    (hlarge : f.reduced.Large) (hsmall : ¬ (f.reduced.halved 1).Large) :
    f.strip = .ok (f.reduced.halved 1) := by
  rw [strip_eq, if_neg (by omega), if_neg hcut, if_neg hden.ne', shifted_of_large hlarge,
    shifted_of_not_large hsmall]

theorem bounded_of_strip (hfits : f.Fits) (h : f.strip = .ok x) : x.Bounded := by
  obtain ⟨hnom, hden, ⟨-, rfl⟩ | ⟨-, -, rfl⟩⟩ := strip_cases h
  · exact ⟨by decide, by decide⟩
  · obtain ⟨⟨-, hnomLess⟩, -, hdenLess⟩ := hfits
    obtain ⟨k, hshifted, -, -⟩ := shifted_eq_halved f.reduced
    rw [hshifted]
    have hle : ∀ n : ℤ, (n / Int.gcd f.nom f.den / 2 ^ k).natAbs ≤ n.natAbs := fun n =>
      (Int.natAbs_ediv_le_natAbs _ _).trans (Int.natAbs_ediv_le_natAbs _ _)
    constructor
    · exact (hle f.nom).trans_lt (by omega)
    · exact (hle f.den).trans_lt (by omega)

/-- What `strip` has answered it would answer again, unless the value is cut off now. -/
theorem strip_of_strip (hfits : f.Fits) (h : f.strip = .ok x) :
    x.strip = .ok (if x.CutOff then zero else x.reduced) ∧ x.den ≠ 0 := by
  have hbounded := bounded_of_strip hfits h
  have hfault : ¬ (x.nom ≤ -2 ^ 63 ∨ x.den ≤ -2 ^ 63) := by
    unfold Bounded at hbounded
    omega
  have hden : x.den ≠ 0 ∧ ¬ x.Large := by
    obtain ⟨-, -, ⟨-, rfl⟩ | ⟨-, hden, rfl⟩⟩ := strip_cases h
    · exact ⟨one_ne_zero, by decide⟩
    · exact ⟨den_shifted_ne_zero (den_reduced_ne_zero hden), not_large_shifted _⟩
  refine ⟨?_, hden.1⟩
  rw [strip_eq, if_neg hfault, if_neg hden.1,
    shifted_of_not_large fun hlarge => hden.2 hlarge.of_reduced]
  split <;> rfl

/-- The value is zero, or large enough not to be cut off. -/
def Kept (x : Fractor) : Prop := x.nom = 0 ∨ x.den.natAbs / x.nom.natAbs < 100000

theorem value_strip_iff (hfits : f.Fits) (h : f.strip = .ok x) (hy : x.strip = .ok y) :
    y.value = x.value ↔ x.Kept := by
  obtain ⟨hstrip, hden⟩ := strip_of_strip hfits h
  rw [hstrip, Except.ok.injEq] at hy
  subst hy
  by_cases hcut : x.CutOff
  · have hzero : zero.value = 0 := by simp [value, zero]
    rw [if_pos hcut, hzero, eq_comm, value_eq_zero_iff hden]
    unfold CutOff at hcut
    unfold Kept
    omega
  · rw [if_neg hcut]
    refine iff_of_true (value_reduced hden) ?_
    unfold CutOff at hcut
    unfold Kept
    omega

/-! ## Adding zero, multiplying by one -/

theorem add_zero_eq (h : x.Bounded) : x.add zero = x.strip := by
  obtain ⟨hnom, hden⟩ := h
  simp only [add, zero, mul_one, zero_mul]
  rw [checked_of_fits ⟨by omega, by omega⟩, ok_bind, checked_of_fits (by decide), ok_bind,
    add_zero, checked_of_fits ⟨by omega, by omega⟩, ok_bind,
    checked_of_fits ⟨by omega, by omega⟩, ok_bind]

theorem addInt_zero_eq (h : x.Bounded) : x.addInt 0 = x.strip := by
  obtain ⟨hnom, hden⟩ := h
  simp only [addInt, zero_mul]
  rw [checked_of_fits (by decide), ok_bind, add_zero, checked_of_fits ⟨by omega, by omega⟩,
    ok_bind]

theorem mul_one_eq (h : x.Bounded) : x.mul one = x.strip := by
  obtain ⟨hnom, hden⟩ := h
  simp only [mul, one, mul_one]
  rw [checked_of_fits ⟨by omega, by omega⟩, ok_bind, checked_of_fits ⟨by omega, by omega⟩, ok_bind]

theorem mulInt_one_eq (h : x.Bounded) : x.mulInt 1 = x.strip := by
  obtain ⟨hnom, hden⟩ := h
  simp only [mulInt, mul_one]
  rw [checked_of_fits ⟨by omega, by omega⟩, ok_bind]

/-- Adding zero and multiplying by one answer with the same value. -/
structure Unmoved (x : Fractor) : Prop where
  add : ∃ y, x.add zero = .ok y ∧ y.value = x.value
  mul : ∃ y, x.mul one = .ok y ∧ y.value = x.value
  addInt : ∃ y, x.addInt 0 = .ok y ∧ y.value = x.value
  mulInt : ∃ y, x.mulInt 1 = .ok y ∧ y.value = x.value

theorem unmoved_iff_of_strip (hfits : f.Fits) (h : f.strip = .ok x) : x.Unmoved ↔ x.Kept := by
  have hbounded := bounded_of_strip hfits h
  obtain ⟨hstrip, -⟩ := strip_of_strip hfits h
  have hiff := value_strip_iff hfits h hstrip
  constructor
  · intro hunmoved
    obtain ⟨y, hy, hvalue⟩ := hunmoved.add
    rw [add_zero_eq hbounded] at hy
    exact (value_strip_iff hfits h hy).mp hvalue
  · intro hkept
    have hvalue := hiff.mpr hkept
    exact ⟨⟨_, (add_zero_eq hbounded).trans hstrip, hvalue⟩,
      ⟨_, (mul_one_eq hbounded).trans hstrip, hvalue⟩,
      ⟨_, (addInt_zero_eq hbounded).trans hstrip, hvalue⟩,
      ⟨_, (mulInt_one_eq hbounded).trans hstrip, hvalue⟩⟩

end Fractor

namespace Operator

variable {a x : Fractor} {op : Operator}

/-- Adding zero to the result of an operator, and multiplying it by one, leaves its value as
it is exactly when that is zero or large enough. -/
theorem unmoved_iff (ha : a.Fits) (hx : op.apply a = .ok x) :
    x.Unmoved ↔ x.nom = 0 ∨ x.den.natAbs / x.nom.natAbs < 100000 := by
  obtain ⟨hstrip, hfits⟩ := strip_raw hx
  exact Fractor.unmoved_iff_of_strip (hfits ha) hstrip

/-- Three halves, as the result of an addition. -/
theorem apply_threeHalves : (addInt 1).apply ⟨1, 2⟩ = .ok ⟨3, 2⟩ := by
  have hstrip := Fractor.strip_eq_reduced (f := ⟨3, 2⟩) (by decide) (by decide) (by decide)
    (by decide)
  exact hstrip

theorem unmoved_threeHalves :
    (⟨3, 2⟩ : Fractor).Unmoved ↔ (3 : ℤ) = 0 ∨ (2 : ℤ).natAbs / (3 : ℤ).natAbs < 100000 :=
  unmoved_iff ⟨by decide, by decide⟩ apply_threeHalves

/-- The value is not cut off, and one shift is made. -/
theorem apply_nearCutOff : (mulInt 1).apply ⟨10001, 1000099999⟩ = .ok ⟨5000, 500049999⟩ := by
  have hstrip := Fractor.strip_eq_halved (f := ⟨10001, 1000099999⟩) (by decide) (by decide)
    (by decide) (by decide) (by decide)
  exact hstrip

/-- After the shift the value would be cut off. -/
theorem not_unmoved_nearCutOff :
    ¬ ∀ (a x : Fractor) (op : Operator), a.Fits → op.apply a = .ok x → x.Unmoved := by
  intro hall
  have hunmoved := hall _ _ _ ⟨by decide, by decide⟩ apply_nearCutOff
  obtain ⟨y, hy, hvalue⟩ := hunmoved.mulInt
  have hcut : (⟨5000, 500049999⟩ : Fractor).mulInt 1 = .ok Fractor.zero := by
    show Fractor.strip ⟨5000, 500049999⟩ = _
    rw [Fractor.strip_eq, if_neg (by decide), if_pos (by decide)]
  rw [hcut, Except.ok.injEq] at hy
  subst hy
  have hzero : Fractor.zero.value = 0 := by simp [Fractor.value, Fractor.zero]
  rw [hzero, eq_comm, Fractor.value_eq_zero_iff (by decide)] at hvalue
  revert hvalue
  decide

end Operator
end Libfractor
end ArmyRs
