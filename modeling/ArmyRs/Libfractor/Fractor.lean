import ArmyRs.Foundation.CheckedInts
import ArmyRs.Foundation.Halving

/-!
# Fractions of 64-bit integers

A `Fractor` is a numerator and a denominator.  Every arithmetic operator computes both
parts exactly and then calls `strip`, which cuts small values off to zero, divides by the
greatest common divisor, and halves both parts until one of them is no more than `upper`.

An operator answers with a fault where one of its integer expressions overflows or
divides by zero.  `strip_eq` says what `strip` computes, and when it faults.
-/

namespace ArmyRs
namespace Libfractor

open Foundation

structure Fractor where
  nom : ℤ
  den : ℤ
  deriving DecidableEq, Repr

namespace Fractor

/-- `Fractor::upper` -/
def upper : ℤ := 10000

def zero : Fractor := ⟨0, 1⟩

def one : Fractor := ⟨1, 1⟩

/-- Both parts are 64-bit integers. -/
def Fits (f : Fractor) : Prop := FitsInt64 f.nom ∧ FitsInt64 f.den

/-- The number that the fraction stands for. -/
def value (f : Fractor) : ℚ := f.nom / f.den

/-! ## `strip` -/

/-- `(uint64_t)llabs(x)` -/
def llabs (x : ℤ) : Except Fault ℕ :=
  if 0 < x then .ok x.toNat
  else do
    let negated ← checked (-x)
    .ok negated.toNat

/-- The loop of `gcb`, where `r` is `b % a`. -/
def gcbLoop (a r : ℕ) : ℕ :=
  if _h : r = 0 then a else gcbLoop r (a % r)
termination_by r
decreasing_by exact Nat.mod_lt a (Nat.pos_of_ne_zero _h)

def gcb (a b : ℕ) : Except Fault ℕ :=
  let pair := if b < a then (b, a) else (a, b)
  do
    let r ← checkedMod pair.2 pair.1
    .ok (gcbLoop pair.1 r)

theorem natAbs_shiftRight_lt {x : ℤ} (h : upper < |x|) : (x >>> (1 : ℕ)).natAbs < x.natAbs := by
  have hhalf : x >>> (1 : ℕ) = x / 2 := Int.shiftRight_eq_div_pow x 1
  rw [hhalf]
  rw [upper, Int.abs_eq_natAbs] at h
  omega

/-- The shifts of `strip`; the parts are so small there that `llabs` does not overflow. -/
def shiftLoop (nom den : ℤ) : ℤ × ℤ :=
  if _h : upper < |nom| ∧ upper < |den| then shiftLoop (nom >>> (1 : ℕ)) (den >>> (1 : ℕ))
  else (nom, den)
termination_by nom.natAbs
decreasing_by exact natAbs_shiftRight_lt _h.1

def strip (f : Fractor) : Except Fault Fractor := do
  let un ← llabs f.nom
  let ud ← llabs f.den
  if un = 0 then .ok zero
  else do
    let quotient ← checkedDiv ud un
    if 100000 ≤ quotient then .ok zero
    else do
      let g ← gcb un ud
      let nom ← checkedQuot f.nom g
      let den ← checkedQuot f.den g
      .ok ⟨(shiftLoop nom den).1, (shiftLoop nom den).2⟩

/-! ## The operators -/

def add (a b : Fractor) : Except Fault Fractor := do
  let left ← checked (a.nom * b.den)
  let right ← checked (b.nom * a.den)
  let nom ← checked (left + right)
  let den ← checked (a.den * b.den)
  strip ⟨nom, den⟩

def sub (a b : Fractor) : Except Fault Fractor := do
  let left ← checked (a.nom * b.den)
  let right ← checked (b.nom * a.den)
  let nom ← checked (left - right)
  let den ← checked (a.den * b.den)
  strip ⟨nom, den⟩

def mul (a b : Fractor) : Except Fault Fractor := do
  let nom ← checked (a.nom * b.nom)
  let den ← checked (a.den * b.den)
  strip ⟨nom, den⟩

def div (a b : Fractor) : Except Fault Fractor := do
  let nom ← checked (a.nom * b.den)
  let den ← checked (a.den * b.nom)
  strip ⟨nom, den⟩

def addInt (a : Fractor) (b : ℤ) : Except Fault Fractor := do
  let right ← checked (b * a.den)
  let nom ← checked (a.nom + right)
  strip ⟨nom, a.den⟩

def subInt (a : Fractor) (b : ℤ) : Except Fault Fractor := do
  let right ← checked (b * a.den)
  let nom ← checked (a.nom - right)
  strip ⟨nom, a.den⟩

def mulInt (a : Fractor) (b : ℤ) : Except Fault Fractor := do
  let nom ← checked (a.nom * b)
  strip ⟨nom, a.den⟩

def divInt (a : Fractor) (b : ℤ) : Except Fault Fractor := do
  let den ← checked (a.den * b)
  strip ⟨a.nom, den⟩

/-- The unary `-`. -/
def neg (a : Fractor) : Except Fault Fractor := do
  let nom ← checked (-a.nom)
  .ok ⟨nom, a.den⟩

end Fractor

/-- The operators with two fractions, and those with an integer on the right. -/
inductive Operator
  | add (b : Fractor)
  | sub (b : Fractor)
  | mul (b : Fractor)
  | div (b : Fractor)
  | addInt (b : ℤ)
  | subInt (b : ℤ)
  | mulInt (b : ℤ)
  | divInt (b : ℤ)
  deriving DecidableEq, Repr

namespace Operator

def apply (a : Fractor) : Operator → Except Fault Fractor
  | .add b => a.add b
  | .sub b => a.sub b
  | .mul b => a.mul b
  | .div b => a.div b
  | .addInt b => a.addInt b
  | .subInt b => a.subInt b
  | .mulInt b => a.mulInt b
  | .divInt b => a.divInt b

/-- What the operator hands to `strip`. -/
def raw (a : Fractor) : Operator → Fractor
  | .add b => ⟨a.nom * b.den + b.nom * a.den, a.den * b.den⟩
  | .sub b => ⟨a.nom * b.den - b.nom * a.den, a.den * b.den⟩
  | .mul b => ⟨a.nom * b.nom, a.den * b.den⟩
  | .div b => ⟨a.nom * b.den, a.den * b.nom⟩
  | .addInt b => ⟨a.nom + b * a.den, a.den⟩
  | .subInt b => ⟨a.nom - b * a.den, a.den⟩
  | .mulInt b => ⟨a.nom * b, a.den⟩
  | .divInt b => ⟨a.nom, a.den * b⟩

end Operator

namespace Fractor

/-! ## What `strip` computes -/

/-- The value is cut off to zero. -/
def CutOff (f : Fractor) : Prop := f.nom = 0 ∨ 100000 ≤ f.den.natAbs / f.nom.natAbs

instance decidableCutOff (f : Fractor) : Decidable f.CutOff :=
  inferInstanceAs (Decidable (_ ∨ _))

/-- The fraction in its lowest terms. -/
def reduced (f : Fractor) : Fractor :=
  ⟨f.nom / Int.gcd f.nom f.den, f.den / Int.gcd f.nom f.den⟩

/-- Both parts after some shifts. -/
def halved (f : Fractor) (k : ℕ) : Fractor := ⟨f.nom / 2 ^ k, f.den / 2 ^ k⟩

/-- Both parts are too large. -/
def Large (f : Fractor) : Prop := upper < |f.nom| ∧ upper < |f.den|

instance decidableLarge (f : Fractor) : Decidable f.Large :=
  inferInstanceAs (Decidable (_ ∧ _))

/-- The fraction with its parts shifted until one of them is no more than `upper`. -/
def shifted (f : Fractor) : Fractor := ⟨(shiftLoop f.nom f.den).1, (shiftLoop f.nom f.den).2⟩

variable {f : Fractor} {x : ℤ} {k : ℕ}

theorem llabs_eq (x : ℤ) :
    llabs x = if x ≤ -2 ^ 63 then .error .overflow else .ok x.natAbs := by
  unfold llabs
  split
  · next hpos =>
    rw [if_neg (by omega)]
    congr 1
    omega
  · next hneg =>
    split
    · next hleast =>
      rw [checked_of_not_fits (fun hfits => by have := hfits.2; omega)]
      rfl
    · next hsmall =>
      rw [checked_of_fits ⟨by omega, by omega⟩, ok_bind]
      congr 1
      omega

theorem gcbLoop_eq (a r : ℕ) : gcbLoop a r = Nat.gcd r a := by
  fun_induction gcbLoop a r with
  | case1 a => exact (Nat.gcd_zero_left a).symm
  | case2 a r hr ih => rw [ih, ← Nat.gcd_rec]

theorem gcb_eq {a : ℕ} (ha : a ≠ 0) (b : ℕ) :
    gcb a b = if b = 0 then .error .divByZero else .ok (Nat.gcd a b) := by
  unfold gcb
  split
  · next hless =>
    dsimp only
    by_cases hb : b = 0
    · subst hb
      rfl
    · rw [if_neg hb, checkedMod_of_ne hb, ok_bind, gcbLoop_eq, ← Nat.gcd_rec, Nat.gcd_comm]
  · next hle =>
    dsimp only
    rw [if_neg (by omega), checkedMod_of_ne ha, ok_bind, gcbLoop_eq, ← Nat.gcd_rec]

/-- The loop halves both parts as often as both are too large. -/
theorem shifted_eq_halved (f : Fractor) :
    ∃ k, f.shifted = f.halved k ∧ (∀ j < k, (f.halved j).Large) ∧ ¬ (f.halved k).Large := by
  obtain ⟨nom, den⟩ := f
  unfold shifted
  dsimp only
  fun_induction shiftLoop nom den with
  | case1 nom den hlarge ih =>
      obtain ⟨k, hshifted, hbefore, hdone⟩ := ih
      have hhalf : ∀ j, (⟨nom >>> (1 : ℕ), den >>> (1 : ℕ)⟩ : Fractor).halved j =
          (⟨nom, den⟩ : Fractor).halved (j + 1) := by
        intro j
        have hshift : ∀ x : ℤ, x >>> (1 : ℕ) = x / 2 ^ 1 := fun x => Int.shiftRight_eq_div_pow x 1
        simp only [halved, hshift]
        rw [← ediv_two_pow_add, ← ediv_two_pow_add, Nat.add_comm 1 j]
      refine ⟨k + 1, by rw [← hhalf, hshifted], fun j hj => ?_, by rwa [← hhalf]⟩
      cases j with
      | zero => simpa [halved, Large] using hlarge
      | succ j =>
          rw [← hhalf]
          exact hbefore j (by omega)
  | case2 nom den hdone =>
      exact ⟨0, by simp [halved], by simp, by simpa [halved, Large] using hdone⟩

theorem strip_eq (f : Fractor) :
    f.strip =
      if f.nom ≤ -2 ^ 63 ∨ f.den ≤ -2 ^ 63 then .error .overflow
      else if f.CutOff then .ok zero
      else if f.den = 0 then .error .divByZero
      else .ok f.reduced.shifted := by
  unfold strip
  rw [llabs_eq, llabs_eq]
  by_cases hnom : f.nom ≤ -2 ^ 63
  · rw [if_pos hnom, error_bind, if_pos (Or.inl hnom)]
  by_cases hden : f.den ≤ -2 ^ 63
  · rw [if_neg hnom, if_pos hden, ok_bind, error_bind, if_pos (Or.inr hden)]
  rw [if_neg hnom, if_neg hden, if_neg (by tauto)]
  simp only [ok_bind]
  by_cases hzero : f.nom = 0
  · rw [if_pos (by omega), if_pos (.inl hzero)]
  rw [if_neg (by omega), checkedDiv_of_ne (by omega), ok_bind]
  by_cases hcut : 100000 ≤ f.den.natAbs / f.nom.natAbs
  · rw [if_pos hcut, if_pos (.inr hcut)]
  have hkept : ¬ f.CutOff := not_or.mpr ⟨hzero, hcut⟩
  rw [if_neg hcut, if_neg hkept, gcb_eq (by omega)]
  by_cases hd : f.den = 0
  · simp [hd]
  · have hg : Nat.gcd f.nom.natAbs f.den.natAbs ≠ 0 := by
      rw [Ne, Nat.gcd_eq_zero_iff]
      omega
    have hquot : ∀ x : ℤ, (Int.gcd f.nom f.den : ℤ) ∣ x →
        x.tdiv (Nat.gcd f.nom.natAbs f.den.natAbs) = x / Int.gcd f.nom f.den :=
      fun x hx => Int.tdiv_eq_ediv_of_dvd hx
    rw [if_neg hd, if_neg (by omega), ok_bind, checkedQuot_of_ne hg, checkedQuot_of_ne hg, ok_bind,
      ok_bind, hquot _ (Int.gcd_dvd_left ..), hquot _ (Int.gcd_dvd_right ..)]
    rfl

end Fractor

namespace Operator

/-- An operator overflows, or strips a fraction of 64-bit integers. -/
theorem apply_cases (a : Fractor) (op : Operator) :
    OrOverflow (op.apply a) (a.Fits → (op.raw a).Fits) (op.raw a).strip := by
  cases op with
  | add b =>
      exact orOverflow_bind fun _ => orOverflow_bind fun _ => orOverflow_bind fun hnom =>
        orOverflow_bind fun hden => .inr ⟨fun _ => ⟨hnom, hden⟩, rfl⟩
  | sub b =>
      exact orOverflow_bind fun _ => orOverflow_bind fun _ => orOverflow_bind fun hnom =>
        orOverflow_bind fun hden => .inr ⟨fun _ => ⟨hnom, hden⟩, rfl⟩
  | mul b =>
      exact orOverflow_bind fun hnom => orOverflow_bind fun hden =>
        .inr ⟨fun _ => ⟨hnom, hden⟩, rfl⟩
  | div b =>
      exact orOverflow_bind fun hnom => orOverflow_bind fun hden =>
        .inr ⟨fun _ => ⟨hnom, hden⟩, rfl⟩
  | addInt b =>
      exact orOverflow_bind fun _ => orOverflow_bind fun hnom =>
        .inr ⟨fun ha => ⟨hnom, ha.2⟩, rfl⟩
  | subInt b =>
      exact orOverflow_bind fun _ => orOverflow_bind fun hnom =>
        .inr ⟨fun ha => ⟨hnom, ha.2⟩, rfl⟩
  | mulInt b => exact orOverflow_bind fun hnom => .inr ⟨fun ha => ⟨hnom, ha.2⟩, rfl⟩
  | divInt b => exact orOverflow_bind fun hden => .inr ⟨fun ha => ⟨ha.1, hden⟩, rfl⟩

/-- The result of an operator was stripped. -/
theorem strip_raw {a x : Fractor} {op : Operator} (h : op.apply a = .ok x) :
    (op.raw a).strip = .ok x ∧ (a.Fits → (op.raw a).Fits) := by
  rcases apply_cases a op with hfault | ⟨hfits, hstrip⟩
  · rw [hfault] at h
    cases h
  · exact ⟨hstrip ▸ h, hfits⟩

end Operator
end Libfractor
end ArmyRs
