import ArmyRs.Libfractor.Fractor

/-!
# Comparisons

Two fractions are compared by their cross products, the other way round when their
denominators have different signs.  While both parts are of 32 bits no product overflows,
and the six operators decide the order of the values (`decidesOrder_of_small`); with an
integer on the right they agree with the comparison to that integer over 1.
-/

namespace ArmyRs
namespace Libfractor
namespace Fractor

open Foundation

/-- The cross products are compared, and the other way round for different signs. -/
def compareBy (same other : ℤ → ℤ → Bool) (a b : Fractor) : Except Fault Bool := do
  let num ← checked (a.nom * b.den)
  let num2 ← checked (b.nom * a.den)
  let flag := xor (decide (0 < b.den)) (decide (0 < a.den))
  .ok (if !flag then same num num2 else other num num2)

def lt : Fractor → Fractor → Except Fault Bool :=
  compareBy (fun num num2 => num < num2) (fun num num2 => num > num2)

def gt : Fractor → Fractor → Except Fault Bool :=
  compareBy (fun num num2 => num > num2) (fun num num2 => num < num2)

def le : Fractor → Fractor → Except Fault Bool :=
  compareBy (fun num num2 => num ≤ num2) (fun num num2 => num ≥ num2)

def ge : Fractor → Fractor → Except Fault Bool :=
  compareBy (fun num num2 => num ≥ num2) (fun num num2 => num ≤ num2)

def eq (a b : Fractor) : Except Fault Bool := do
  let left ← checked (a.nom * b.den)
  let right ← checked (b.nom * a.den)
  .ok (decide (left = right))

def ne (a b : Fractor) : Except Fault Bool := do
  let left ← checked (a.nom * b.den)
  let right ← checked (b.nom * a.den)
  .ok (decide (left ≠ right))

/-- The numerator and a multiple of the denominator are compared. -/
def compareIntBy (same other : ℤ → ℤ → Bool) (a : Fractor) (b : ℤ) : Except Fault Bool := do
  let num2 ← checked (b * a.den)
  .ok (if a.den ≤ 0 then other a.nom num2 else same a.nom num2)

def ltInt : Fractor → ℤ → Except Fault Bool :=
  compareIntBy (fun num num2 => num < num2) (fun num num2 => num > num2)

def gtInt : Fractor → ℤ → Except Fault Bool :=
  compareIntBy (fun num num2 => num > num2) (fun num num2 => num < num2)

def leInt : Fractor → ℤ → Except Fault Bool :=
  compareIntBy (fun num num2 => num ≤ num2) (fun num num2 => num ≥ num2)

def geInt : Fractor → ℤ → Except Fault Bool :=
  compareIntBy (fun num num2 => num ≥ num2) (fun num num2 => num ≤ num2)

def eqInt (a : Fractor) (b : ℤ) : Except Fault Bool := do
  let right ← checked (b * a.den)
  .ok (decide (a.nom = right))

def neInt (a : Fractor) (b : ℤ) : Except Fault Bool := do
  let right ← checked (b * a.den)
  .ok (decide (a.nom ≠ right))

/-! ## The order of the values -/

/-- Both parts are of 32 bits, and the fraction stands for a number. -/
structure Small (f : Fractor) : Prop where
  nom : |f.nom| < 2 ^ 31
  den : |f.den| < 2 ^ 31
  ne_zero : f.den ≠ 0

/-- The operators decide the order of the values. -/
structure DecidesOrder (a b : Fractor) : Prop where
  lt : a.lt b = .ok (decide (a.value < b.value))
  gt : a.gt b = .ok (decide (a.value > b.value))
  le : a.le b = .ok (decide (a.value ≤ b.value))
  ge : a.ge b = .ok (decide (a.value ≥ b.value))
  eq : a.eq b = .ok (decide (a.value = b.value))
  ne : a.ne b = .ok (decide (a.value ≠ b.value))

/-- Exactly one of `<`, `==` and `>` holds. -/
def ExactlyOne (a b : Fractor) : Prop :=
  (a.lt b = .ok true ∧ a.eq b = .ok false ∧ a.gt b = .ok false) ∨
  (a.lt b = .ok false ∧ a.eq b = .ok true ∧ a.gt b = .ok false) ∨
  (a.lt b = .ok false ∧ a.eq b = .ok false ∧ a.gt b = .ok true)

/-- The operators with an integer on the right agree with those for the integer over 1. -/
structure AgreesInt (a : Fractor) (b : ℤ) : Prop where
  lt : a.ltInt b = a.lt ⟨b, 1⟩
  gt : a.gtInt b = a.gt ⟨b, 1⟩
  le : a.leInt b = a.le ⟨b, 1⟩
  ge : a.geInt b = a.ge ⟨b, 1⟩
  eq : a.eqInt b = a.eq ⟨b, 1⟩
  ne : a.neInt b = a.ne ⟨b, 1⟩

variable {a b : Fractor} {same other : ℤ → ℤ → Bool}

theorem fits_mul {x y : ℤ} (hx : |x| < 2 ^ 31) (hy : |y| < 2 ^ 31) : FitsInt64 (x * y) := by
  have hprod : |x * y| < 2 ^ 31 * 2 ^ 31 := by
    rw [abs_mul]
    exact mul_lt_mul'' hx hy (abs_nonneg x) (abs_nonneg y)
  have hbounds := abs_lt.mp hprod
  constructor <;> omega

/-- The denominators have one sign exactly when their product is positive. -/
theorem compareBy_eq (ha : a.Small) (hb : b.Small) :
    compareBy same other a b =
      .ok (if 0 < a.den * b.den then same (a.nom * b.den) (b.nom * a.den)
        else other (a.nom * b.den) (b.nom * a.den)) := by
  unfold compareBy
  rw [checked_of_fits (fits_mul ha.nom hb.den), ok_bind,
    checked_of_fits (fits_mul hb.nom ha.den), ok_bind]
  have hsign : 0 < a.den * b.den ↔ (0 < b.den ↔ 0 < a.den) := by
    have hneA := ha.ne_zero
    have hneB := hb.ne_zero
    rw [mul_pos_iff]
    omega
  have hflag : (!xor (decide (0 < b.den)) (decide (0 < a.den))) = true ↔ 0 < a.den * b.den := by
    rw [hsign]
    simp
  exact congrArg Except.ok (if_congr hflag rfl rfl)

theorem value_sub_value (ha : a.den ≠ 0) (hb : b.den ≠ 0) :
    a.value - b.value =
      ((a.nom * b.den - b.nom * a.den : ℤ) : ℚ) / ((a.den * b.den : ℤ) : ℚ) := by
  have haQ : (a.den : ℚ) ≠ 0 := by exact_mod_cast ha
  have hbQ : (b.den : ℚ) ≠ 0 := by exact_mod_cast hb
  unfold value
  rw [div_sub_div _ _ haQ hbQ]
  push_cast
  ring

/-- The cross products are in the order of the values, or in the other one. -/
theorem value_lt_iff (ha : a.den ≠ 0) (hb : b.den ≠ 0) :
    a.value < b.value ↔
      if 0 < a.den * b.den then a.nom * b.den < b.nom * a.den
      else b.nom * a.den < a.nom * b.den := by
  rw [← sub_neg, value_sub_value ha hb, div_neg_iff]
  split
  · next hpos =>
    have hposQ : (0 : ℚ) < ((a.den * b.den : ℤ) : ℚ) := by exact_mod_cast hpos
    rw [or_iff_right fun h => absurd h.2 hposQ.asymm, and_iff_left hposQ, Int.cast_lt_zero,
      sub_neg]
  · next hnot =>
    have hneg : a.den * b.den < 0 := lt_of_le_of_ne (not_lt.mp hnot) (mul_ne_zero ha hb)
    have hnegQ : ((a.den * b.den : ℤ) : ℚ) < 0 := by exact_mod_cast hneg
    rw [or_iff_left fun h => absurd h.2 hnegQ.asymm, and_iff_left hnegQ, Int.cast_pos, Int.sub_pos]

theorem value_eq_iff (ha : a.den ≠ 0) (hb : b.den ≠ 0) :
    a.value = b.value ↔ a.nom * b.den = b.nom * a.den := by
  have haQ : (a.den : ℚ) ≠ 0 := by exact_mod_cast ha
  have hbQ : (b.den : ℚ) ≠ 0 := by exact_mod_cast hb
  unfold value
  rw [div_eq_div_iff haQ hbQ]
  exact_mod_cast Iff.rfl

/-- The same for the values the other way round. -/
theorem value_gt_iff (ha : a.den ≠ 0) (hb : b.den ≠ 0) :
    a.value > b.value ↔
      if 0 < a.den * b.den then a.nom * b.den > b.nom * a.den
      else b.nom * a.den > a.nom * b.den := by
  have hiff := value_lt_iff hb ha
  rwa [mul_comm b.den a.den] at hiff

theorem decidesOrder_of_small (ha : a.Small) (hb : b.Small) : a.DecidesOrder b := by
  have hlt := value_lt_iff ha.ne_zero hb.ne_zero
  have hgt := value_gt_iff ha.ne_zero hb.ne_zero
  refine ⟨?_, ?_, ?_, ?_, ?_, ?_⟩
  · rw [lt, compareBy_eq ha hb]
    congr 1
    rw [Bool.eq_iff_iff, decide_eq_true_iff, hlt]
    split <;> exact decide_eq_true_iff
  · rw [gt, compareBy_eq ha hb]
    congr 1
    rw [Bool.eq_iff_iff, decide_eq_true_iff, hgt]
    split <;> exact decide_eq_true_iff
  · rw [le, compareBy_eq ha hb]
    congr 1
    have hle : a.value ≤ b.value ↔ ¬ a.value > b.value := not_lt.symm
    rw [Bool.eq_iff_iff, decide_eq_true_iff, hle, hgt]
    split <;> simp
  · rw [ge, compareBy_eq ha hb]
    congr 1
    have hge : a.value ≥ b.value ↔ ¬ a.value < b.value := not_lt.symm
    rw [Bool.eq_iff_iff, decide_eq_true_iff, hge, hlt]
    split <;> simp
  · unfold eq
    rw [checked_of_fits (fits_mul ha.nom hb.den), ok_bind,
      checked_of_fits (fits_mul hb.nom ha.den), ok_bind,
      decide_eq_decide.mpr (value_eq_iff ha.ne_zero hb.ne_zero)]
  · unfold ne
    rw [checked_of_fits (fits_mul ha.nom hb.den), ok_bind,
      checked_of_fits (fits_mul hb.nom ha.den), ok_bind,
      decide_eq_decide.mpr (value_eq_iff ha.ne_zero hb.ne_zero).not]

theorem DecidesOrder.exactlyOne (h : a.DecidesOrder b) : a.ExactlyOne b := by
  unfold ExactlyOne
  rw [h.lt, h.eq, h.gt]
  rcases lt_trichotomy a.value b.value with hlt | heq | hgt
  · exact .inl ⟨by simp [hlt], by simp [hlt.ne], by simp [hlt.le]⟩
  · exact .inr (.inl ⟨by simp [heq], by simp [heq], by simp [heq]⟩)
  · exact .inr (.inr ⟨by simp [hgt.le], by simp [hgt.ne'], by simp [hgt]⟩)

/-! ## An integer on the right -/

theorem compareIntBy_eq (ha : FitsInt64 a.nom) (b : ℤ) :
    compareIntBy same other a b = compareBy same other a ⟨b, 1⟩ := by
  unfold compareIntBy compareBy
  dsimp only
  rw [mul_one, checked_of_fits ha, ok_bind]
  congr 1
  funext num2
  congr 1
  by_cases hden : 0 < a.den
  · simp [hden, not_le.mpr hden]
  · simp [hden, not_lt.mp hden]

theorem agreesInt_of_fits (ha : FitsInt64 a.nom) (b : ℤ) : a.AgreesInt b where
  lt := compareIntBy_eq ha b
  gt := compareIntBy_eq ha b
  le := compareIntBy_eq ha b
  ge := compareIntBy_eq ha b
  eq := by
    unfold eqInt eq
    rw [mul_one, checked_of_fits ha, ok_bind]
  ne := by
    unfold neInt ne
    rw [mul_one, checked_of_fits ha, ok_bind]

/-- The comparisons of two fractions of 32-bit parts decide the order of their values, one
of `<`, `==` and `>` holds, and an integer is compared like that integer over 1. -/
theorem comparisons_of_small (ha : a.Small) (hb : b.Small) :
    a.DecidesOrder b ∧ a.ExactlyOne b ∧ ∀ i, a.AgreesInt i := by
  have horder := decidesOrder_of_small ha hb
  have hnom := abs_lt.mp ha.nom
  exact ⟨horder, horder.exactlyOne, agreesInt_of_fits ⟨by omega, by omega⟩⟩

theorem comparisons_minusHalf :
    (⟨1, -2⟩ : Fractor).DecidesOrder ⟨1, 3⟩ ∧ (⟨1, -2⟩ : Fractor).ExactlyOne ⟨1, 3⟩ ∧
      ∀ i, (⟨1, -2⟩ : Fractor).AgreesInt i :=
  comparisons_of_small ⟨by decide, by decide, by decide⟩ ⟨by decide, by decide, by decide⟩

end Fractor
end Libfractor
end ArmyRs
