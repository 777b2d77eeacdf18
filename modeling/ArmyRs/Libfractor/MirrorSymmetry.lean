import ArmyRs.Libfractor.NormalForm

/-!
# Mirrored values

A shift rounds down, for a negative numerator away from zero.  So the shifts of a fraction
and those of its mirror image, which has the other sign, agree as long as the numerator is
even at each of them, and never agree again after the first one at which it is odd
(`shifted_mirror_iff`).  This decides when the operators are odd as functions of their
values (`odd_iff`).
-/

namespace ArmyRs
namespace Libfractor
namespace Fractor

open Foundation

variable {f a b na nb p p' q s s' t : Fractor} {j k : ℕ}

/-- The fraction with the other sign. -/
def mirror (f : Fractor) : Fractor := ⟨-f.nom, f.den⟩

/-- Every shift halves an even numerator. -/
def HalvesEvenly (f : Fractor) : Prop := ∀ j, (f.halved j).Large → (2 : ℤ) ^ (j + 1) ∣ f.nom

/-! ## Shifts of the mirror image -/

@[simp] theorem mirror_mirror (f : Fractor) : f.mirror.mirror = f := by
  unfold mirror
  rw [neg_neg]

@[simp] theorem large_mirror : f.mirror.Large ↔ f.Large := by
  unfold Large mirror
  rw [abs_neg]

theorem value_mirror (f : Fractor) : f.mirror.value = -f.value := by
  unfold mirror value
  rw [Int.cast_neg, neg_div]

theorem halved_mirror_of_dvd (h : (2 : ℤ) ^ k ∣ f.nom) :
    f.mirror.halved k = (f.halved k).mirror := by
  unfold halved mirror
  rw [neg_ediv_two_pow_of_dvd h]

/-- The number of shifts is determined. -/
theorem shifted_eq_of (hlarge : ∀ j < k, (f.halved j).Large) (hdone : ¬ (f.halved k).Large) :
    f.shifted = f.halved k := by
  obtain ⟨i, hshifted, hbefore, hstop⟩ := shifted_eq_halved f
  rcases lt_trichotomy i k with hlt | rfl | hlt
  · exact absurd (hlarge i hlt) hstop
  · exact hshifted
  · exact absurd (hbefore k hlt) hdone

/-- A fraction that is too large was so before its shifts. -/
theorem Large.of_succ (h : (f.halved (k + 1)).Large) : (f.halved k).Large := by
  unfold Large halved upper at *
  dsimp only at *
  rw [ediv_two_pow_succ, ediv_two_pow_succ] at h
  generalize f.nom / 2 ^ k = n at *
  generalize f.den / 2 ^ k = d at *
  rw [Int.abs_eq_natAbs, Int.abs_eq_natAbs] at *
  omega

theorem Large.of_le (h : (f.halved k).Large) (hle : j ≤ k) : (f.halved j).Large := by
  induction hle with
  | refl => exact h
  | step _ ih => exact ih h.of_succ

theorem halved_halved (f : Fractor) (j k : ℕ) : (f.halved j).halved k = f.halved (j + k) := by
  unfold halved
  rw [ediv_two_pow_add, ediv_two_pow_add]

/-- While the fraction is too large, the shifts that were made do not matter. -/
theorem shifted_halved (h : ∀ j < k, (f.halved j).Large) : (f.halved k).shifted = f.shifted := by
  obtain ⟨i, hshifted, hbefore, hdone⟩ := shifted_eq_halved f
  have hle : k ≤ i := by
    by_contra hless
    exact hdone (h i (by omega))
  obtain ⟨rest, rfl⟩ := Nat.exists_eq_add_of_le hle
  rw [hshifted, ← halved_halved]
  refine shifted_eq_of (fun j hj => ?_) ?_
  · rw [halved_halved]
    exact hbefore (k + j) (by omega)
  · rwa [halved_halved]

/-! ## An odd numerator -/

/-- A positive odd numerator, shifted, is one less than its mirror image. -/
theorem nom_halved_mirror (hodd : ¬ (2 : ℤ) ∣ f.nom) (k : ℕ) :
    (f.mirror.halved (k + 1)).nom = -((f.halved (k + 1)).nom + 1) := by
  have hnot : ¬ (2 : ℤ) ^ (k + 1) ∣ f.nom := fun h => hodd ((dvd_pow_self 2 (by omega)).trans h)
  show -f.nom / 2 ^ (k + 1) = -(f.nom / 2 ^ (k + 1) + 1)
  rw [neg_ediv_two_pow_of_not_dvd hnot]
  ring

theorem den_halved_pos (hden : 0 < f.den) (h : (f.halved k).Large) :
    0 < (f.halved (k + 1)).den := by
  have hbound := (h.halved_succ hden).1
  show 0 < f.den / 2 ^ (k + 1)
  omega

/-- Two fractions stand for numbers of opposite sign. -/
theorem value_eq_neg_iff {x y : Fractor} (hx : 0 < x.den) (hy : 0 < y.den) :
    x.value = -y.value ↔ x.nom * y.den = -(y.nom * x.den) := by
  have hxQ : (x.den : ℚ) ≠ 0 := by exact_mod_cast hx.ne'
  have hyQ : (y.den : ℚ) ≠ 0 := by exact_mod_cast hy.ne'
  unfold value
  rw [← neg_div, div_eq_div_iff hxQ hyQ, neg_mul]
  exact_mod_cast Iff.rfl

/-- From a shift of an odd numerator on, the values differ. -/
theorem shifted_mirror_ne_of_pos (hnom : 0 < f.nom) (hden : 0 < f.den) (hlarge : f.Large)
    (hodd : ¬ (2 : ℤ) ∣ f.nom) : f.mirror.shifted.value ≠ -f.shifted.value := by
  have hfirst : ∀ g : Fractor, g.Large → (g.halved 0).Large := fun g hg => by
    simpa [halved] using hg
  obtain ⟨k, hshifted, hbefore, hdone⟩ := shifted_eq_halved f
  obtain ⟨k', hshifted', hbefore', hdone'⟩ := shifted_eq_halved f.mirror
  obtain ⟨i, rfl⟩ := Nat.exists_eq_succ_of_ne_zero
    (show k ≠ 0 from fun hzero => hdone (hzero ▸ hfirst f hlarge))
  obtain ⟨i', rfl⟩ := Nat.exists_eq_succ_of_ne_zero
    (show k' ≠ 0 from fun hzero => hdone' (hzero ▸ hfirst f.mirror (large_mirror.mpr hlarge)))
  have hnonneg : ∀ j, 0 ≤ (f.halved j).nom := fun j => Int.ediv_nonneg hnom.le (by positivity)
  have hdenPos : 0 < (f.halved (i + 1)).den := den_halved_pos hden (hbefore i (Nat.lt_succ_self i))
  have hdenPos' : 0 < (f.mirror.halved (i' + 1)).den :=
    den_halved_pos (f := f.mirror) hden (hbefore' i' (Nat.lt_succ_self i'))
  have hdenSame : ∀ j, (f.mirror.halved j).den = (f.halved j).den := fun _ => rfl
  rw [hshifted, hshifted', Ne, value_eq_neg_iff hdenPos' hdenPos, nom_halved_mirror hodd, hdenSame]
  rw [hdenSame] at hdenPos'
  intro heq
  rcases lt_trichotomy i' i with hlt | rfl | hlt
  · -- the mirror image is at least as large, so it is shifted too
    refine hdone' ?_
    have hbig := hbefore (i' + 1) (by omega)
    have hsize := hnonneg (i' + 1)
    unfold Large at hbig ⊢
    rw [nom_halved_mirror hodd, hdenSame, abs_neg, abs_of_nonneg (by omega)]
    rw [abs_of_nonneg hsize] at hbig
    exact ⟨by omega, hbig.2⟩
  · nlinarith
  · -- one more shift of the mirror image, whose numerator was just above the bound
    have hbig := hbefore' (i + 1) (by omega)
    have hsize := hnonneg (i + 1)
    unfold Large at hbig hdone
    rw [nom_halved_mirror hodd, hdenSame, abs_neg, abs_of_nonneg (by omega)] at hbig
    rw [abs_of_nonneg hsize, not_and] at hdone
    unfold upper at hbig hdone
    have hbound : (f.halved (i + 1)).nom = 10000 := by
      by_contra hne
      exact hdone (by omega) hbig.2
    have hhalf : (f.halved (i + 1 + 1)).nom = 5000 := by
      show f.nom / 2 ^ (i + 1 + 1) = 5000
      rw [ediv_two_pow_succ]
      have hnow : f.nom / 2 ^ (i + 1) = 10000 := hbound
      omega
    have hlast : i' = i + 1 := by
      by_contra hne
      have hmore := (hbefore' (i + 1 + 1) (by omega)).1
      rw [nom_halved_mirror hodd, hhalf] at hmore
      revert hmore
      decide
    subst hlast
    have hdenHalf : (f.halved (i + 1 + 1)).den = (f.halved (i + 1)).den / 2 :=
      ediv_two_pow_succ f.den (i + 1)
    rw [hhalf, hbound, hdenHalf] at heq
    omega

theorem shifted_mirror_ne (hden : 0 < f.den) (hlarge : f.Large) (hodd : ¬ (2 : ℤ) ∣ f.nom) :
    f.mirror.shifted.value ≠ -f.shifted.value := by
  rcases lt_trichotomy f.nom 0 with hneg | hzero | hpos
  · -- the mirror image has a positive numerator
    have hodd' : ¬ (2 : ℤ) ∣ f.mirror.nom := by
      show ¬ (2 : ℤ) ∣ -f.nom
      rwa [dvd_neg]
    have hne := shifted_mirror_ne_of_pos (f := f.mirror) (neg_pos.mpr hneg) hden
      (large_mirror.mpr hlarge) hodd'
    rw [mirror_mirror] at hne
    exact fun heq => hne (by rw [heq, neg_neg])
  · exact absurd (hzero ▸ dvd_zero 2) hodd
  · exact shifted_mirror_ne_of_pos hpos hden hlarge hodd

/-- As long as the numerators are even, the shifts of the mirror image mirror the shifts. -/
theorem HalvesEvenly.shifted_mirror (h : f.HalvesEvenly) : f.mirror.shifted = f.shifted.mirror := by
  obtain ⟨k, hshifted, hbefore, hdone⟩ := shifted_eq_halved f
  have hdvd : ∀ j ≤ k, (2 : ℤ) ^ j ∣ f.nom := by
    intro j hj
    cases j with
    | zero => exact one_dvd _
    | succ j => exact h j (hbefore j hj)
  rw [hshifted, ← halved_mirror_of_dvd (hdvd k le_rfl)]
  refine shifted_eq_of (fun j hj => ?_) ?_
  · rw [halved_mirror_of_dvd (hdvd j hj.le), large_mirror]
    exact hbefore j hj
  · rwa [halved_mirror_of_dvd (hdvd k le_rfl), large_mirror]

/-- The first shift of an odd numerator. -/
theorem exists_odd_of_not_halvesEvenly (h : ¬ f.HalvesEvenly) :
    ∃ k, (f.halved k).Large ∧ (2 : ℤ) ^ k ∣ f.nom ∧ ¬ (2 : ℤ) ∣ (f.halved k).nom := by
  classical
  have hexists : ∃ j, (f.halved j).Large ∧ ¬ (2 : ℤ) ^ (j + 1) ∣ f.nom := by
    simpa [HalvesEvenly] using h
  obtain ⟨hlarge, hnot⟩ := Nat.find_spec hexists
  have hdvd : (2 : ℤ) ^ Nat.find hexists ∣ f.nom := by
    generalize hfound : Nat.find hexists = k at *
    cases k with
    | zero => exact one_dvd _
    | succ k =>
        by_contra hodd
        exact Nat.find_min hexists (by omega) ⟨hlarge.of_succ, hodd⟩
  refine ⟨Nat.find hexists, hlarge, hdvd, fun hodd => hnot ?_⟩
  obtain ⟨c, hc⟩ := hodd
  have hc : f.nom / 2 ^ Nat.find hexists = 2 * c := hc
  refine ⟨c, ?_⟩
  calc f.nom = f.nom / 2 ^ Nat.find hexists * 2 ^ Nat.find hexists :=
        (Int.ediv_mul_cancel hdvd).symm
    _ = 2 ^ (Nat.find hexists + 1) * c := by
        rw [hc]
        ring

/-- The shifted values mirror each other exactly when every numerator shifted is even. -/
theorem shifted_mirror_iff (hden : 0 < f.den) :
    f.mirror.shifted.value = -f.shifted.value ↔ f.HalvesEvenly := by
  constructor
  · intro hvalue
    by_contra hnot
    obtain ⟨k, hlarge, hdvd, hodd⟩ := exists_odd_of_not_halvesEvenly hnot
    have hdvdLe : ∀ j ≤ k, (2 : ℤ) ^ j ∣ f.nom := fun j hj => (pow_dvd_pow 2 hj).trans hdvd
    have hpos : 0 < (f.halved k).den := by
      cases k with
      | zero => simpa [halved] using hden
      | succ k => exact den_halved_pos hden hlarge.of_succ
    refine shifted_mirror_ne hpos hlarge hodd ?_
    rw [← halved_mirror_of_dvd hdvd, shifted_halved, shifted_halved]
    · exact hvalue
    · exact fun j hj => hlarge.of_le hj.le
    · intro j hj
      rw [halved_mirror_of_dvd (hdvdLe j hj.le), large_mirror]
      exact hlarge.of_le hj.le
  · intro heven
    rw [heven.shifted_mirror, value_mirror]

/-! ## Mirrored operands -/

@[simp] theorem cutOff_mirror : f.mirror.CutOff ↔ f.CutOff := by
  unfold CutOff mirror
  rw [Int.natAbs_neg, neg_eq_zero]

theorem reduced_mirror (f : Fractor) : f.mirror.reduced = f.reduced.mirror := by
  unfold reduced mirror
  dsimp only
  rw [Int.neg_gcd, Int.neg_ediv_of_dvd (Int.gcd_dvd_left ..)]

/-- The value is cut off, or every shift of the fraction in its lowest terms halves an even
numerator. -/
def Mirrors (f : Fractor) : Prop := f.CutOff ∨ f.reduced.HalvesEvenly

theorem strip_mirror_iff (hden : 0 < f.den) (h : f.strip = .ok p) (h' : f.mirror.strip = .ok p') :
    p'.value = -p.value ↔ f.Mirrors := by
  have hzero : zero.value = 0 := by simp [value, zero]
  obtain ⟨-, -, hp⟩ := strip_cases h
  obtain ⟨-, -, hp'⟩ := strip_cases h'
  rw [cutOff_mirror] at hp'
  rcases hp with ⟨hcut, rfl⟩ | ⟨hcut, -, rfl⟩
  · rcases hp' with ⟨-, rfl⟩ | ⟨hnot, -, -⟩
    · exact iff_of_true (by rw [hzero, neg_zero]) (.inl hcut)
    · exact absurd hcut hnot
  · rcases hp' with ⟨hin, -⟩ | ⟨-, -, rfl⟩
    · exact absurd hin hcut
    · rw [reduced_mirror, shifted_mirror_iff (den_reduced_pos hden), Mirrors, or_iff_right hcut]

theorem eq_mirror_of_neg (h : a.neg = .ok na) : na = a.mirror := by
  unfold neg at h
  by_cases hfits : FitsInt64 (-a.nom)
  · rw [checked_of_fits hfits, ok_bind, Except.ok.injEq] at h
    exact h.symm
  · rw [checked_of_not_fits hfits, error_bind] at h
    cases h

theorem value_of_neg (h : a.neg = .ok na) : na.value = -a.value := by
  rw [eq_mirror_of_neg h, value_mirror]

/-- A product is odd in its first operand, and a sum in both, exactly when the exact
product, or sum, has a mirror image among the stripped values. -/
theorem odd_iff (ha : 0 < a.den) (hb : 0 < b.den) (hna : a.neg = .ok na) (hnb : b.neg = .ok nb)
    (hp : a.mul b = .ok p) (hq : p.neg = .ok q) (hp' : na.mul b = .ok p') (hs : a.add b = .ok s)
    (ht : s.neg = .ok t) (hs' : na.add nb = .ok s') :
    (p'.value = q.value ↔ (⟨a.nom * b.nom, a.den * b.den⟩ : Fractor).Mirrors) ∧
      (s'.value = t.value ↔
        (⟨a.nom * b.den + b.nom * a.den, a.den * b.den⟩ : Fractor).Mirrors) := by
  have hden : 0 < a.den * b.den := mul_pos ha hb
  have hmul := (Operator.strip_raw (show (Operator.mul b).apply a = .ok p from hp)).1
  have hmul' := (Operator.strip_raw (show (Operator.mul b).apply na = .ok p' from hp')).1
  have hadd := (Operator.strip_raw (show (Operator.add b).apply a = .ok s from hs)).1
  have hadd' := (Operator.strip_raw (show (Operator.add nb).apply na = .ok s' from hs')).1
  rw [eq_mirror_of_neg hna] at hmul' hadd'
  rw [eq_mirror_of_neg hnb] at hadd'
  rw [value_of_neg hq, value_of_neg ht]
  constructor
  · refine strip_mirror_iff hden hmul ?_
    rw [← hmul']
    simp only [mirror, Operator.raw, neg_mul]
  · refine strip_mirror_iff hden hadd ?_
    rw [← hadd']
    simp only [mirror, Operator.raw]
    rw [neg_add, neg_mul, neg_mul]

/-! ## Examples -/

/-- Half of three fifths, and their sum. -/
theorem odd_halfOfThreeFifths :
    ((⟨-3, 10⟩ : Fractor).value = (⟨-3, 10⟩ : Fractor).value ↔
        (⟨1 * 3, 2 * 5⟩ : Fractor).Mirrors) ∧
      ((⟨-11, 10⟩ : Fractor).value = (⟨-11, 10⟩ : Fractor).value ↔
        (⟨1 * 5 + 3 * 2, 2 * 5⟩ : Fractor).Mirrors) := by
  have hp := strip_eq_reduced (f := ⟨3, 10⟩) (by decide) (by decide) (by decide) (by decide)
  have hp' := strip_eq_reduced (f := ⟨-3, 10⟩) (by decide) (by decide) (by decide) (by decide)
  have hs := strip_eq_reduced (f := ⟨11, 10⟩) (by decide) (by decide) (by decide) (by decide)
  have hs' := strip_eq_reduced (f := ⟨-11, 10⟩) (by decide) (by decide) (by decide) (by decide)
  have hna : (⟨1, 2⟩ : Fractor).neg = .ok ⟨-1, 2⟩ := rfl
  have hnb : (⟨3, 5⟩ : Fractor).neg = .ok ⟨-3, 5⟩ := rfl
  exact odd_iff (by decide) (by decide) hna hnb hp rfl hp' hs rfl hs'

/-- One shift of an odd numerator makes the product smaller and its mirror image larger. -/
theorem not_odd_oneShift :
    ¬ ∀ a b na nb p p' q s s' t : Fractor, 0 < a.den → 0 < b.den → a.neg = .ok na →
      b.neg = .ok nb → a.mul b = .ok p → p.neg = .ok q → na.mul b = .ok p' → a.add b = .ok s →
      s.neg = .ok t → na.add nb = .ok s' → p'.value = q.value ∧ s'.value = t.value := by
  intro hall
  have hp := strip_eq_halved (f := ⟨10001, 10002⟩) (by decide) (by decide) (by decide) (by decide)
    (by decide)
  have hp' := strip_eq_halved (f := ⟨-10001, 10002⟩) (by decide) (by decide) (by decide) (by decide)
    (by decide)
  have hs := strip_eq_halved (f := ⟨100030003, 10002⟩) (by decide) (by decide) (by decide)
    (by decide) (by decide)
  have hs' := strip_eq_halved (f := ⟨-100030003, 10002⟩) (by decide) (by decide) (by decide)
    (by decide) (by decide)
  have hodd := (hall ⟨10001, 1⟩ ⟨1, 10002⟩ ⟨-10001, 1⟩ ⟨-1, 10002⟩ ⟨5000, 5001⟩ ⟨-5001, 5001⟩
    ⟨-5000, 5001⟩ ⟨50015001, 5001⟩ ⟨-50015002, 5001⟩ ⟨-50015001, 5001⟩ (by decide) (by decide)
    rfl rfl hp rfl hp' hs rfl hs').1
  norm_num [value] at hodd

end Fractor
end Libfractor
end ArmyRs
