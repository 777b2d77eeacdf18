import ArmyRs.Skynet.Timer

/-!
# The lists of the timer are the slots of a wheel

The program compares and shifts words of 32 bits.  As long as a timer is due within
`2 ^ 31` ticks, which is as far as one can be set, this amounts to the divisions of
`wheel`: `listOf` is `slotAt` (`listOf_eq_slotAt`), and the list that is moved is the slot
that the new time enters (`shiftedList_spec`).
-/

namespace ArmyRs
namespace Skynet

open Foundation

def wheel : Wheel := ⟨256, 64, 3, by norm_num, by norm_num⟩

/-- The width of a level, as a power of two. -/
theorem width_wheel (i : ℕ) : wheel.width i = 2 ^ (8 + 6 * i) := by
  rw [Wheel.width, pow_add, pow_mul]
  rfl

/-- The leading bits of two words are compared by filling up the others. -/
theorem or_mask_eq_iff (k : ℕ) (x y : BitVec 32) :
    x ||| BitVec.ofNat 32 (2 ^ k - 1) = y ||| BitVec.ofNat 32 (2 ^ k - 1) ↔
      x.toNat / 2 ^ k = y.toNat / 2 ^ k := by
  have hbit : ∀ i : ℕ, i < 32 → (BitVec.ofNat 32 (2 ^ k - 1)).getLsbD i = decide (i < k) := by
    intro i hi
    rw [BitVec.getLsbD_ofNat, Nat.testBit_two_pow_sub_one]
    simp [hi]
  have hshift : ∀ z : BitVec 32, z.toNat / 2 ^ k = (z >>> k).toNat := fun z => by
    rw [BitVec.toNat_ushiftRight, Nat.shiftRight_eq_div_pow]
  rw [hshift, hshift, BitVec.toNat_inj]
  constructor
  · intro h
    refine BitVec.eq_of_getLsbD_eq fun i hi => ?_
    rw [BitVec.getLsbD_ushiftRight, BitVec.getLsbD_ushiftRight]
    by_cases hin : k + i < 32
    · have hbits := congrArg (fun z : BitVec 32 => z.getLsbD (k + i)) h
      simpa [BitVec.getLsbD_or, hbit _ hin] using hbits
    · rw [BitVec.getLsbD_of_ge _ _ (by omega), BitVec.getLsbD_of_ge _ _ (by omega)]
  · intro h
    refine BitVec.eq_of_getLsbD_eq fun i hi => ?_
    rw [BitVec.getLsbD_or, BitVec.getLsbD_or, hbit i hi]
    by_cases hlow : i < k
    · simp [hlow]
    · have hbits := congrArg (fun z : BitVec 32 => z.getLsbD (i - k)) h
      simp only [BitVec.getLsbD_ushiftRight] at hbits
      rw [Nat.add_sub_cancel' (not_lt.mp hlow)] at hbits
      rw [hbits]

theorem and_mask_toNat (x : BitVec 32) {k : ℕ} (hk : k < 32) :
    (x &&& BitVec.ofNat 32 (2 ^ k - 1)).toNat = x.toNat % 2 ^ k := by
  have hlt : 2 ^ k - 1 < 2 ^ 32 := by
    have hpow : 2 ^ k ≤ 2 ^ 32 := Nat.pow_le_pow_right two_pos hk.le
    omega
  rw [BitVec.toNat_and, BitVec.toNat_ofNat, Nat.mod_eq_of_lt hlt, Nat.and_two_pow_sub_one_eq_mod]

/-- Quotients of words, for times that are not far from each other. -/
theorem div_mod_eq_iff {now due k : ℕ} (hk : k ≤ 30) (hlow : now ≤ due)
    (hhigh : due < now + 2 ^ 31) :
    due % 2 ^ 32 / 2 ^ k = now % 2 ^ 32 / 2 ^ k ↔ due / 2 ^ k = now / 2 ^ k := by
  have hsplit : 2 ^ 32 = 2 ^ k * 2 ^ (32 - k) := by
    rw [← pow_add, Nat.add_sub_cancel' (by omega)]
  have hdiv : ∀ x : ℕ, x % 2 ^ 32 / 2 ^ k = x / 2 ^ k % 2 ^ (32 - k) := fun x => by
    rw [hsplit, Nat.mod_mul_right_div_self]
  rw [hdiv, hdiv]
  constructor
  · intro h
    have hle : now / 2 ^ k ≤ due / 2 ^ k := Nat.div_le_div_right hlow
    have hnear : due / 2 ^ k ≤ (now + 2 ^ 31) / 2 ^ k := Nat.div_le_div_right hhigh.le
    have hhalf : (now + 2 ^ 31) / 2 ^ k = now / 2 ^ k + 2 ^ (31 - k) := by
      have hpow : 2 ^ 31 = 2 ^ k * 2 ^ (31 - k) := by
        rw [← pow_add, Nat.add_sub_cancel' (by omega)]
      rw [hpow, Nat.add_mul_div_left _ _ (Nat.two_pow_pos k)]
    have hturn : 2 ^ (32 - k) = 2 * 2 ^ (31 - k) := by
      rw [← pow_succ', show 31 - k + 1 = 32 - k by omega]
    have hpos : 0 < 2 ^ (31 - k) := Nat.two_pow_pos _
    have hdvd : 2 ^ (32 - k) ∣ due / 2 ^ k - now / 2 ^ k := (Nat.modEq_iff_dvd' hle).mp h.symm
    have hzero := Nat.eq_zero_of_dvd_of_lt hdvd (by omega)
    omega
  · intro h
    rw [h]

section

variable {now due : ℕ}

theorem toNat_ofNat_time (x : ℕ) : (BitVec.ofNat 32 x).toNat = x % 2 ^ 32 := BitVec.toNat_ofNat _ _

/-- The comparison of a level. -/
theorem or_mask_eq_iff_same (hlow : now ≤ due) (hhigh : due < now + 2 ^ 31) {i : ℕ} (hi : i ≤ 3) :
    BitVec.ofNat 32 due ||| BitVec.ofNat 32 (2 ^ (8 + 6 * i) - 1) =
        BitVec.ofNat 32 now ||| BitVec.ofNat 32 (2 ^ (8 + 6 * i) - 1) ↔ wheel.Same now due i := by
  rw [or_mask_eq_iff, toNat_ofNat_time, toNat_ofNat_time,
    div_mod_eq_iff (by omega) hlow hhigh, Wheel.Same, width_wheel]

/-- The index on a level. -/
theorem index_eq_digit (time : ℕ) {i : ℕ} (hi : i ≤ 3) :
    ((BitVec.ofNat 32 time >>> (8 + 6 * i)) &&& TIME_LEVEL_MASK).toNat = wheel.digit time i := by
  have hmask : TIME_LEVEL_MASK = BitVec.ofNat 32 (2 ^ 6 - 1) := by decide
  have hsplit : 2 ^ 32 = 2 ^ (8 + 6 * i) * 2 ^ (24 - 6 * i) := by
    rw [← pow_add, show 8 + 6 * i + (24 - 6 * i) = 32 by omega]
  have hdvd : 2 ^ 6 ∣ 2 ^ (24 - 6 * i) := Nat.pow_dvd_pow _ (by omega)
  rw [hmask, and_mask_toNat _ (by norm_num), BitVec.toNat_ushiftRight, toNat_ofNat_time,
    Nat.shiftRight_eq_div_pow, hsplit, Nat.mod_mul_right_div_self, Nat.mod_mod_of_dvd _ hdvd,
    Wheel.digit, width_wheel]
  rfl

theorem near_index (time : ℕ) :
    (BitVec.ofNat 32 time &&& TIME_NEAR_MASK).toNat = time % wheel.block := by
  have hmask : TIME_NEAR_MASK = BitVec.ofNat 32 (2 ^ 8 - 1) := by decide
  rw [hmask, and_mask_toNat _ (by norm_num), toNat_ofNat_time]
  exact Nat.mod_mod_of_dvd _ (by norm_num)

/-- The list of a node is the slot in which the wheel keeps it. -/
theorem listOf_eq_slotAt (hlow : now ≤ due) (hhigh : due < now + 2 ^ 31) :
    listOf (BitVec.ofNat 32 now) (BitVec.ofNat 32 due) = wheel.slotAt now due := by
  have hsame := fun {i : ℕ} (hi : i ≤ 3) => or_mask_eq_iff_same hlow hhigh hi
  have h0 : TIME_NEAR_MASK = BitVec.ofNat 32 (2 ^ (8 + 6 * 0) - 1) := by decide
  have h1 : TIME_NEAR <<< TIME_LEVEL_SHIFT - 1 = BitVec.ofNat 32 (2 ^ (8 + 6 * 1) - 1) := by decide
  have h2 : TIME_NEAR <<< TIME_LEVEL_SHIFT <<< TIME_LEVEL_SHIFT - 1 =
      BitVec.ofNat 32 (2 ^ (8 + 6 * 2) - 1) := by decide
  have h3 : TIME_NEAR <<< TIME_LEVEL_SHIFT <<< TIME_LEVEL_SHIFT <<< TIME_LEVEL_SHIFT - 1 =
      BitVec.ofNat 32 (2 ^ (8 + 6 * 3) - 1) := by decide
  have hlevel : ∀ i ≤ 3, (Slot.level i
      ((BitVec.ofNat 32 due >>> (TIME_NEAR_SHIFT + i * TIME_LEVEL_SHIFT)) &&& TIME_LEVEL_MASK).toNat) =
        wheel.slotOf due (i + 1) := by
    intro i hi
    have hshift : TIME_NEAR_SHIFT + i * TIME_LEVEL_SHIFT = 8 + 6 * i := by
      rw [TIME_NEAR_SHIFT, TIME_LEVEL_SHIFT, Nat.mul_comm]
    rw [hshift, index_eq_digit due hi]
    rfl
  have hrank : wheel.rank now due = wheel.rankFrom now due 4 0 := rfl
  rw [listOf, near_index, h0, Wheel.slotAt, hrank]
  dsimp only
  unfold Wheel.rankFrom
  by_cases hs0 : wheel.Same now due 0
  · rw [if_pos hs0, if_pos ((hsame (by norm_num)).mpr hs0)]
    rfl
  · rw [if_neg hs0, if_neg (fun h => hs0 ((hsame (by norm_num)).mp h))]
    unfold findLevel Wheel.rankFrom
    rw [h1]
    by_cases hs1 : wheel.Same now due 1
    · rw [if_pos hs1, if_pos ((hsame (by norm_num)).mpr hs1)]
      exact hlevel 0 (by norm_num)
    · rw [if_neg hs1, if_neg (fun h => hs1 ((hsame (by norm_num)).mp h))]
      unfold findLevel Wheel.rankFrom
      rw [h2]
      by_cases hs2 : wheel.Same now due 2
      · rw [if_pos hs2, if_pos ((hsame (by norm_num)).mpr hs2)]
        exact hlevel 1 (by norm_num)
      · rw [if_neg hs2, if_neg (fun h => hs2 ((hsame (by norm_num)).mp h))]
        unfold findLevel Wheel.rankFrom
        rw [h3]
        by_cases hs3 : wheel.Same now due 3
        · rw [if_pos hs3, if_pos ((hsame (by norm_num)).mpr hs3)]
          exact hlevel 2 (by norm_num)
        · rw [if_neg hs3, if_neg (fun h => hs3 ((hsame (by norm_num)).mp h))]
          exact hlevel 3 (by norm_num)

end

/-! ## The list that is moved -/

theorem and_mask_eq_zero_iff (n : ℕ) {k : ℕ} (hk : k < 32) :
    BitVec.ofNat 32 n &&& BitVec.ofNat 32 (2 ^ k - 1) = 0 ↔ 2 ^ k ∣ n := by
  have hdvd : 2 ^ k ∣ 2 ^ 32 := Nat.pow_dvd_pow _ hk.le
  rw [← BitVec.toNat_inj, and_mask_toNat _ hk, toNat_ofNat_time, Nat.mod_mod_of_dvd _ hdvd,
    Nat.dvd_iff_mod_eq_zero]
  rfl

/-- The loop finds the level that is entered; below `i` the time has zeros only. -/
theorem shiftFrom_spec {n : ℕ} (hn : BitVec.ofNat 32 n ≠ 0) {left i : ℕ} (hi : i + left = 4)
    (hbelow : i = 0 ∨ wheel.width i ∣ n) :
    match shiftFrom (BitVec.ofNat 32 n) left i (BitVec.ofNat 32 (2 ^ (8 + 6 * i)))
        (BitVec.ofNat 32 n >>> (8 + 6 * i)) with
    | none => ¬ wheel.block ∣ n
    | some (level, idx) => wheel.Enters n level ∧ idx = wheel.digit n level := by
  induction left generalizing i with
  | zero =>
      rcases hbelow with rfl | hdvd
      · cases hi
      · have hfour : i = 4 := hi
        subst hfour
        obtain ⟨q, rfl⟩ := hdvd
        refine absurd ?_ hn
        rw [width_wheel, ← BitVec.toNat_inj, toNat_ofNat_time]
        exact Nat.mul_mod_right _ _
  | succ left ih =>
      have hle : i ≤ 3 := by omega
      have hmask : BitVec.ofNat 32 (2 ^ (8 + 6 * i)) - 1 = BitVec.ofNat 32 (2 ^ (8 + 6 * i) - 1) := by
        interval_cases i <;> decide
      have hmaskNext : BitVec.ofNat 32 (2 ^ (8 + 6 * i)) <<< TIME_LEVEL_SHIFT =
          BitVec.ofNat 32 (2 ^ (8 + 6 * (i + 1))) := by
        interval_cases i <;> decide
      have htimeNext : BitVec.ofNat 32 n >>> (8 + 6 * i) >>> TIME_LEVEL_SHIFT =
          BitVec.ofNat 32 n >>> (8 + 6 * (i + 1)) := by
        rw [← BitVec.shiftRight_add, TIME_LEVEL_SHIFT]
        congr 1
      have hdigit := index_eq_digit n hle
      unfold shiftFrom
      rw [hmask, hmaskNext, htimeNext]
      by_cases hzero : BitVec.ofNat 32 n &&& BitVec.ofNat 32 (2 ^ (8 + 6 * i) - 1) = 0
      · have hdvd : wheel.width i ∣ n := by
          rw [width_wheel]
          exact (and_mask_eq_zero_iff n (by omega)).mp hzero
        rw [if_pos hzero]
        dsimp only
        by_cases hidx : BitVec.ofNat 32 n >>> (8 + 6 * i) &&& TIME_LEVEL_MASK = 0
        · have hdigitZero : wheel.digit n i = 0 := by
            rw [← hdigit, hidx]
            rfl
          rw [if_neg (not_not.mpr hidx)]
          refine ih (by omega) (Or.inr ?_)
          obtain ⟨q, rfl⟩ := hdvd
          rw [Wheel.digit, Nat.mul_div_cancel_left _ (wheel.width_pos i)] at hdigitZero
          rw [Wheel.width_succ]
          exact Nat.mul_dvd_mul_left _ (Nat.dvd_of_mod_eq_zero hdigitZero)
        · rw [if_pos hidx]
          refine ⟨⟨hle, hdvd, fun _ hdigitZero => hidx ?_⟩, hdigit⟩
          rw [← BitVec.toNat_inj, hdigit, hdigitZero]
          rfl
      · rw [if_neg hzero]
        rcases hbelow with rfl | hdvd
        · exact fun hblock => hzero ((and_mask_eq_zero_iff n (by norm_num)).mpr hblock)
        · refine absurd ((and_mask_eq_zero_iff n (by omega)).mpr ?_) hzero
          rwa [width_wheel] at hdvd

/-- What `timer_shift` moves: nothing within a block, and else the slot that is entered. -/
theorem shiftedList_spec (n : ℕ) :
    match shiftedList (BitVec.ofNat 32 n) with
    | none => ¬ wheel.block ∣ n
    | some (level, idx) => wheel.Enters n level ∧ idx = wheel.digit n level := by
  unfold shiftedList
  by_cases hn : BitVec.ofNat 32 n = 0
  · -- a full turn of the last level
    rw [if_pos hn]
    have hdvd : 2 ^ 32 ∣ n := by
      rw [← BitVec.toNat_inj, toNat_ofNat_time] at hn
      exact Nat.dvd_of_mod_eq_zero hn
    obtain ⟨q, rfl⟩ := hdvd
    have hwidth : 2 ^ 32 * q = wheel.width 3 * (64 * q) := by
      rw [width_wheel, ← Nat.mul_assoc]
      rfl
    refine ⟨⟨le_rfl, ?_, fun h => absurd h (lt_irrefl _)⟩, ?_⟩
    · rw [hwidth]
      exact Dvd.intro _ rfl
    · rw [hwidth, Wheel.digit, Nat.mul_div_cancel_left _ (wheel.width_pos 3)]
      exact (Nat.mul_mod_right _ _).symm
  · rw [if_neg hn]
    have hspec := @shiftFrom_spec n hn 4 0 rfl (Or.inl rfl)
    exact hspec

end Skynet
end ArmyRs
