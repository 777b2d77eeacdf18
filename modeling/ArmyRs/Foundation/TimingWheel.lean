import Mathlib.Tactic

/-!
# Timing wheels

A wheel keeps items that are due at some time in slots: those due in the present block of
`block` times each in the slot of their time, the others by coarser and coarser digits of
the time they are due.  Level `i` has slots of `width i` times, and an item is on the
lowest level on which it is due in another slot than the present one, of all slots in
which the next level divides its present slot.

When the time advances, only one slot has items that change their place
(`slotAt_succ`): the one that the new time enters, on the level of its lowest digit that
is not zero.  They all go to slots of lower levels, which were empty.
-/

namespace ArmyRs
namespace Foundation

/-- Where an item is kept. -/
inductive Slot
  | near (idx : ℕ)
  | level (i idx : ℕ)
deriving DecidableEq

/-- The sizes of a wheel; `top` is the last level. -/
structure Wheel where
  block : ℕ
  base : ℕ
  top : ℕ
  block_pos : 0 < block
  base_pos : 0 < base

namespace Wheel

variable (w : Wheel)

/-- The times that a slot of level `i` spans. -/
def width (i : ℕ) : ℕ := w.block * w.base ^ i

/-- The digit of a time on level `i`. -/
def digit (time i : ℕ) : ℕ := time / w.width i % w.base

/-- Whether two times are in the same slot of level `i`, and of all levels above. -/
def Same (now due i : ℕ) : Prop := due / w.width i = now / w.width i

instance (now due i : ℕ) : Decidable (w.Same now due i) := inferInstanceAs (Decidable (_ = _))

/-- The first level from `i` on, of `left` many, on which the times are in the same slot. -/
def rankFrom (now due : ℕ) : ℕ → ℕ → ℕ
  | 0, i => i
  | left + 1, i => if w.Same now due i then i else rankFrom now due left (i + 1)

def rank (now due : ℕ) : ℕ := w.rankFrom now due (w.top + 1) 0

/-- The slot for a rank. -/
def slotOf (due : ℕ) : ℕ → Slot
  | 0 => .near (due % w.block)
  | i + 1 => .level i (w.digit due i)

def slotAt (now due : ℕ) : Slot := w.slotOf due (w.rank now due)

variable {w} {now due i j : ℕ}

theorem width_pos (w : Wheel) (i : ℕ) : 0 < w.width i :=
  Nat.mul_pos w.block_pos (Nat.pow_pos w.base_pos)

theorem width_succ (w : Wheel) (i : ℕ) : w.width (i + 1) = w.width i * w.base := by
  rw [width, width, pow_succ, Nat.mul_assoc]

theorem width_dvd (w : Wheel) (hij : i ≤ j) : w.width i ∣ w.width j :=
  Nat.mul_dvd_mul_left _ (Nat.pow_dvd_pow _ hij)

theorem div_width_succ (w : Wheel) (time i : ℕ) :
    time / w.width (i + 1) = time / w.width i / w.base := by
  rw [width_succ, Nat.div_div_eq_div_mul]

theorem Same.mono (h : w.Same now due i) (hij : i ≤ j) : w.Same now due j := by
  induction j, hij using Nat.le_induction with
  | base => exact h
  | succ j _ ih =>
      unfold Same at ih ⊢
      rw [div_width_succ, div_width_succ, ih]

/-- Times in the same slot of a level are in the same slot below when their digits agree. -/
theorem same_of_digit (h : w.Same now due (i + 1)) (hdigit : w.digit due i = w.digit now i) :
    w.Same now due i := by
  unfold Same at h ⊢
  rw [div_width_succ, div_width_succ] at h
  calc
    due / w.width i = w.base * (due / w.width i / w.base) + due / w.width i % w.base :=
      (Nat.div_add_mod _ _).symm
    _ = w.base * (now / w.width i / w.base) + now / w.width i % w.base := by
      rw [h]
      exact congrArg _ hdigit
    _ = now / w.width i := Nat.div_add_mod _ _

theorem rankFrom_spec (now due left i : ℕ) :
    i ≤ w.rankFrom now due left i ∧ w.rankFrom now due left i ≤ i + left ∧
      (∀ j, i ≤ j → j < w.rankFrom now due left i → ¬ w.Same now due j) ∧
      (w.rankFrom now due left i < i + left →
        w.Same now due (w.rankFrom now due left i)) := by
  induction left generalizing i with
  | zero => exact ⟨le_rfl, le_rfl, fun j hij hj => absurd hj (not_lt.mpr hij), fun h => absurd h (lt_irrefl _)⟩
  | succ left ih =>
      unfold rankFrom
      split
      · next hsame =>
        exact ⟨le_rfl, Nat.le_add_right _ _, fun j hij hj => absurd hj (not_lt.mpr hij),
          fun _ => hsame⟩
      · next hother =>
        obtain ⟨hlow, hhigh, hdiffer, hsame⟩ := ih (i + 1)
        refine ⟨by omega, by omega, ?_, fun h => hsame (by omega)⟩
        intro j hij hj
        rcases Nat.eq_or_lt_of_le hij with rfl | hlt
        · exact hother
        · exact hdiffer j hlt hj

/-- The rank is the lowest level that both times share, if there is one. -/
theorem rank_le_iff (hi : i ≤ w.top) : w.rank now due ≤ i ↔ w.Same now due i := by
  obtain ⟨-, -, hdiffer, hsame⟩ := @rankFrom_spec w now due (w.top + 1) 0
  constructor
  · intro hle
    have hle' : w.rankFrom now due (w.top + 1) 0 ≤ i := hle
    exact (hsame (by omega)).mono hle'
  · intro h
    by_contra hlt
    exact hdiffer i (Nat.zero_le _) (not_le.mp hlt) h

theorem rank_le_top_succ : w.rank now due ≤ w.top + 1 := by
  have hspec := (@rankFrom_spec w now due (w.top + 1) 0).2.1
  rwa [Nat.zero_add] at hspec

/-- Ranks are told apart by the levels that the times share. -/
theorem rank_eq_of_same_iff {now' : ℕ}
    (h : ∀ i ≤ w.top, w.Same now due i ↔ w.Same now' due i) : w.rank now due = w.rank now' due := by
  refine le_antisymm ?_ ?_
  · by_cases hle : w.rank now' due ≤ w.top
    · exact (rank_le_iff hle).mpr ((h _ hle).mpr ((rank_le_iff hle).mp le_rfl))
    · have htop : w.rank now due ≤ w.top + 1 := rank_le_top_succ
      omega
  · by_cases hle : w.rank now due ≤ w.top
    · exact (rank_le_iff hle).mpr ((h _ hle).mp ((rank_le_iff hle).mp le_rfl))
    · have htop : w.rank now' due ≤ w.top + 1 := rank_le_top_succ
      omega

/-! ## The time advances -/

/-- The time enters a new slot of level `i`, and of no level above. -/
structure Enters (w : Wheel) (time i : ℕ) : Prop where
  le_top : i ≤ w.top
  below : w.width i ∣ time
  above : i < w.top → w.digit time i ≠ 0

theorem succ_div_of_not_dvd {n d : ℕ} (h : ¬ d ∣ n + 1) : (n + 1) / d = n / d := by
  rw [Nat.succ_div, if_neg h, Nat.add_zero]

/-- Above the level that is entered nothing changes. -/
theorem Enters.div_above (h : w.Enters (now + 1) i) (hij : i < j) (hj : j ≤ w.top) :
    (now + 1) / w.width j = now / w.width j := by
  refine succ_div_of_not_dvd fun hdvd => ?_
  have hnext : w.width (i + 1) ∣ now + 1 := (w.width_dvd hij).trans hdvd
  refine h.above (hij.trans_le hj) ?_
  obtain ⟨q, hq⟩ := hnext
  rw [digit, hq, width_succ, Nat.mul_assoc, Nat.mul_div_cancel_left _ (w.width_pos i),
    Nat.mul_mod_right]

/-- What is still due is in a later slot of the level that is entered, and of all below. -/
theorem Enters.rank_gt (h : w.Enters (now + 1) i) (hdue : now < due) : i < w.rank now due := by
  by_contra hle
  have hsame : due / w.width i = now / w.width i := (rank_le_iff h.le_top).mp (not_lt.mp hle)
  have hlater : (now + 1) / w.width i ≤ due / w.width i := Nat.div_le_div_right hdue
  rw [Nat.succ_div, if_pos h.below, hsame] at hlater
  exact absurd hlater (by omega)

/-- Within the horizon the last level has a slot for each time. -/
def WithinHorizon (w : Wheel) (now due : ℕ) : Prop :=
  due / w.width w.top - now / w.width w.top < w.base

/-- What is in the slot that is entered goes to a lower level. -/
theorem Enters.rank_le (h : w.Enters (now + 1) i) (hdue : now < due)
    (hhorizon : w.WithinHorizon (now + 1) due)
    (hslot : w.slotAt now due = .level i (w.digit (now + 1) i)) :
    w.rank (now + 1) due ≤ i := by
  have hrank : w.rank now due = i + 1 ∧ w.digit due i = w.digit (now + 1) i := by
    unfold slotAt at hslot
    cases hr : w.rank now due with
    | zero => simp [hr, slotOf] at hslot
    | succ r =>
        rw [hr, slotOf] at hslot
        obtain ⟨hlevel, hdigit⟩ := Slot.level.inj hslot
        exact ⟨by rw [hlevel], hlevel ▸ hdigit⟩
  refine (rank_le_iff h.le_top).mpr ?_
  rcases Nat.lt_or_ge i w.top with hlt | hge
  · have habove : w.Same now due (i + 1) := (rank_le_iff hlt).mp hrank.1.le
    have hnext : w.Same (now + 1) due (i + 1) := by
      unfold Same at habove ⊢
      rw [habove, h.div_above (Nat.lt_succ_self i) hlt]
    exact same_of_digit hnext hrank.2
  · have htop : i = w.top := le_antisymm h.le_top hge
    subst htop
    have hdigits : due / w.width w.top % w.base = (now + 1) / w.width w.top % w.base := hrank.2
    have hle : (now + 1) / w.width w.top ≤ due / w.width w.top := Nat.div_le_div_right hdue
    unfold WithinHorizon at hhorizon
    unfold Same
    -- equal digits, and less than a full turn between them
    have hdvd : w.base ∣ due / w.width w.top - (now + 1) / w.width w.top :=
      (Nat.modEq_iff_dvd' hle).mp hdigits.symm
    have hzero := Nat.eq_zero_of_dvd_of_lt hdvd hhorizon
    omega

/-- What is in other slots stays there. -/
theorem Enters.slotAt_eq (h : w.Enters (now + 1) i) (hdue : now < due)
    (hslot : w.slotAt now due ≠ .level i (w.digit (now + 1) i)) :
    w.slotAt (now + 1) due = w.slotAt now due := by
  have hgt := h.rank_gt hdue
  have hdiffer : ¬ w.Same (now + 1) due i := by
    intro hsame
    apply hslot
    have hdigit : w.digit due i = w.digit (now + 1) i := by
      unfold digit
      rw [hsame]
    have hrank : w.rank now due = i + 1 := by
      refine le_antisymm ?_ hgt
      by_cases hlt : i < w.top
      · refine (rank_le_iff hlt).mpr ?_
        have hnext : w.Same (now + 1) due (i + 1) := hsame.mono (Nat.le_succ i)
        unfold Same at hnext ⊢
        rw [hnext, h.div_above (Nat.lt_succ_self i) hlt]
      · have htop : i = w.top := le_antisymm h.le_top (not_lt.mp hlt)
        rw [htop]
        exact rank_le_top_succ
    rw [slotAt, hrank, slotOf, hdigit]
  have hrank : w.rank (now + 1) due = w.rank now due := by
    refine rank_eq_of_same_iff fun j hj => ?_
    rcases Nat.lt_or_ge i j with hlt | hge
    · unfold Same
      rw [h.div_above hlt hj]
    · refine iff_of_false (fun hsame => hdiffer (hsame.mono hge)) fun hsame => ?_
      exact absurd ((rank_le_iff h.le_top).mpr (hsame.mono hge)) (not_le.mpr hgt)
  rw [slotAt, slotAt, hrank]

/-- Within a block nothing moves. -/
theorem slotAt_succ_of_not_dvd (h : ¬ w.block ∣ now + 1) :
    w.slotAt (now + 1) due = w.slotAt now due := by
  have hrank : w.rank (now + 1) due = w.rank now due := by
    refine rank_eq_of_same_iff fun j _ => ?_
    have hwidth : ¬ w.width j ∣ now + 1 := fun hdvd => h ((Dvd.intro _ rfl).trans hdvd)
    unfold Same
    rw [succ_div_of_not_dvd hwidth]
  rw [slotAt, slotAt, hrank]

/-- The slots of different levels are apart. -/
theorem Enters.apart (h : w.Enters (now + 1) i) {a b : ℕ} (hb : now < b)
    (ha : w.rank (now + 1) a ≤ i) : w.slotAt (now + 1) a ≠ w.slotAt now b := by
  have hgt := h.rank_gt hb
  unfold slotAt
  cases hra : w.rank (now + 1) a with
  | zero =>
      cases hrb : w.rank now b with
      | zero => omega
      | succ r => simp [slotOf]
  | succ q =>
      cases hrb : w.rank now b with
      | zero => omega
      | succ r =>
          simp only [slotOf, ne_eq, Slot.level.injEq, not_and]
          omega

/-- The slot of the present time has what is due now. -/
theorem slotAt_eq_near_iff (hdue : now ≤ due) :
    w.slotAt now due = .near (now % w.block) ↔ due = now := by
  constructor
  · intro h
    unfold slotAt at h
    cases hr : w.rank now due with
    | zero =>
        rw [hr, slotOf] at h
        have hmod : due % w.block = now % w.block := by simpa using h
        have hsame : due / w.width 0 = now / w.width 0 :=
          (rank_le_iff (Nat.zero_le _)).mp hr.le
        rw [width, pow_zero, Nat.mul_one] at hsame
        calc
          due = w.block * (due / w.block) + due % w.block := (Nat.div_add_mod _ _).symm
          _ = w.block * (now / w.block) + now % w.block := by rw [hsame, hmod]
          _ = now := Nat.div_add_mod _ _
    | succ r =>
        rw [hr, slotOf] at h
        cases h
  · rintro rfl
    have hrank : w.rank due due = 0 :=
      Nat.le_zero.mp ((rank_le_iff (Nat.zero_le _)).mpr rfl)
    rw [slotAt, hrank, slotOf]

end Wheel

end Foundation
end ArmyRs
