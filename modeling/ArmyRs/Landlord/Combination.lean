import ArmyRs.Landlord.RulerUtil

/-!
# Legal combinations

`Combination` states what the rule comments call a legal play, on the weights
of the cards and independently of their order: a straight is a run of single
weights, a double straight a run of pairs, a triple straight a run of triples.

The predicates of the ruler are then read back against it, each on an
ascending list.  Three of them are runs scanned with stride `1`, `2` and `3`;
`scan_iff_blocks` is the one argument behind all three.
-/

namespace ArmyRs
namespace Landlord

open Foundation

/-- The legal combinations of each type.  Runs end at the ace at the latest. -/
def Combination : CardType → List Nat → Prop
  | .none, _ => False
  | .single, ws => ∃ w, ws.Perm [w]
  | .double, ws => ∃ w, ws.Perm [w, w]
  | .twoDouble, ws => ∃ a, a + 2 ≤ Weight.one + 1 ∧ ws.Perm (blocks 2 a 2)
  | .straight, ws =>
      ∃ a n, 5 ≤ n ∧ n ≤ 12 ∧ a + n ≤ Weight.one + 1 ∧ ws.Perm (blocks 1 a n)
  | .doubleStraight, ws =>
      ∃ a n, 3 ≤ n ∧ a + n ≤ Weight.one + 1 ∧ ws.Perm (blocks 2 a n)
  | .tripleStraight, ws =>
      ∃ a n, 2 ≤ n ∧ a + n ≤ Weight.one + 1 ∧ ws.Perm (blocks 3 a n)
  | .three, ws => ∃ w, ws.Perm [w, w, w]
  | .threeAndOne, ws => ∃ w x, x ≠ w ∧ ws.Perm [w, w, w, x]
  | .threeAndTwo, ws => ∃ w x, x ≠ w ∧ ws.Perm [w, w, w, x, x]
  | .boom, ws => ∃ w, ws.Perm [w, w, w, w]
  | .jokerBoom, ws => ws.Perm [Weight.sJoker, Weight.lJoker]

/-- A combination does not depend on the order of its cards. -/
theorem Combination.perm {cardType : CardType} {ws vs : List Nat} (hperm : ws.Perm vs)
    (h : Combination cardType ws) : Combination cardType vs := by
  cases cardType with
  | none => exact h
  | single => exact h.imp fun _ h => hperm.symm.trans h
  | double => exact h.imp fun _ h => hperm.symm.trans h
  | twoDouble => exact h.imp fun _ h => ⟨h.1, hperm.symm.trans h.2⟩
  | straight =>
      obtain ⟨a, n, hlow, hhigh, hace, h⟩ := h
      exact ⟨a, n, hlow, hhigh, hace, hperm.symm.trans h⟩
  | doubleStraight =>
      obtain ⟨a, n, hlow, hace, h⟩ := h
      exact ⟨a, n, hlow, hace, hperm.symm.trans h⟩
  | tripleStraight =>
      obtain ⟨a, n, hlow, hace, h⟩ := h
      exact ⟨a, n, hlow, hace, hperm.symm.trans h⟩
  | three => exact h.imp fun _ h => hperm.symm.trans h
  | threeAndOne =>
      obtain ⟨w, x, hne, h⟩ := h
      exact ⟨w, x, hne, hperm.symm.trans h⟩
  | threeAndTwo =>
      obtain ⟨w, x, hne, h⟩ := h
      exact ⟨w, x, hne, hperm.symm.trans h⟩
  | boom => exact h.imp fun _ h => hperm.symm.trans h
  | jokerBoom => exact hperm.symm.trans h

/-! ## Scanning a run -/

theorem weightAt_of_blocks {cards : List Card} {k a n i : Nat}
    (h : weights cards = blocks k a n) (hi : 1 ≤ i) (hle : i ≤ k * n) :
    weightAt cards i = a + (i - 1) / k := by
  have hlength : cards.length = k * n := by
    rw [← length_weights, h, length_blocks]
  have hread := weights_getElem?_pred hi (hlength ▸ hle)
  rw [h, getElem?_blocks (by omega)] at hread
  exact (Option.some.inj hread).symm

/-- A scan with stride `k` that compares the two ends of each group of `k`
cards and the starts of neighbouring groups accepts exactly the runs of `k`
equal cards that end at the ace at the latest.  The cards between the two ends
of a group are equal to them because the list is ascending. -/
theorem scan_iff_blocks {cards : List Card} {k n : Nat} (hasc : Ascending cards)
    (hk : 0 < k) (hn : 2 ≤ n) (hlength : cards.length = k * n) :
    (∀ p, p < n →
      weightAt cards (1 + p * k + (k - 1)) = weightAt cards (1 + p * k) ∧
      (p + 1 < n →
        weightAt cards (1 + p * k + k) - weightAt cards (1 + p * k) = 1 ∧
        weightAt cards (1 + p * k) ≤ Weight.one ∧
        weightAt cards (1 + p * k + k) ≤ Weight.one)) ↔
    ∃ a, a + n ≤ Weight.one + 1 ∧ weights cards = blocks k a n := by
  have hgroup : ∀ p, p < n → k * p + k ≤ k * n := fun p hp => by
    rw [← Nat.mul_succ]
    exact Nat.mul_le_mul_left k hp
  constructor
  · intro hscan
    have hblocks : weights cards = blocks k (weightAt cards 1) n := by
      refine eq_blocks_of_steps (by simpa using hlength)
        (fun i hi => weights_getElem? (by omega)) ?_ ?_
      · intro p r hp hr
        have hends := (hscan p hp).1
        rw [Nat.mul_comm p k] at hends
        have hbound := hgroup p hp
        have hlow := hasc.weightAt_le (i := k * p + 1) (j := k * p + r + 1)
          (by omega) (by omega) (by omega)
        have hhigh := hasc.weightAt_le (i := k * p + r + 1) (j := 1 + k * p + (k - 1))
          (by omega) (by omega) (by omega)
        rw [Nat.add_comm 1] at hends hhigh
        omega
      · intro p hp
        have hstep := ((hscan p (by omega)).2 hp).1
        rw [Nat.mul_comm p k] at hstep
        have hnext : k * (p + 1) + 1 = 1 + k * p + k := by
          rw [Nat.mul_succ]
          omega
        rw [hnext, Nat.add_comm (k * p) 1]
        omega
    refine ⟨weightAt cards 1, ?_, hblocks⟩
    -- the last group is read by the step that leads to it
    obtain ⟨m, rfl⟩ : ∃ m, n = m + 2 := ⟨n - 2, by omega⟩
    have hlast := ((hscan m (by omega)).2 (by omega)).2.2
    have hbound := hgroup (m + 1) (by omega)
    rw [show 1 + m * k + k = k * (m + 1) + 1 by ring,
      weightAt_of_blocks hblocks (by omega) (by omega), Nat.add_sub_cancel,
      Nat.mul_div_cancel_left _ hk] at hlast
    omega
  · rintro ⟨a, hace, hblocks⟩ p hp
    have hbound := hgroup p hp
    have hfirst : weightAt cards (1 + p * k) = a + p := by
      rw [weightAt_of_blocks hblocks (by omega) (by rw [Nat.mul_comm p k]; omega),
        Nat.add_sub_cancel_left, Nat.mul_div_cancel _ hk]
    refine ⟨?_, fun hnext => ?_⟩
    · rw [hfirst, weightAt_of_blocks hblocks (by omega) (by rw [Nat.mul_comm p k]; omega),
        show 1 + p * k + (k - 1) - 1 = k - 1 + p * k by omega,
        Nat.add_mul_div_right _ _ hk, Nat.div_eq_of_lt (by omega), Nat.zero_add]
    · have hstart : weightAt cards (1 + p * k + k) = a + (p + 1) := by
        have hboundNext := hgroup (p + 1) hnext
        rw [show 1 + p * k + k = k * (p + 1) + 1 by ring,
          weightAt_of_blocks hblocks (by omega) (by omega), Nat.add_sub_cancel,
          Nat.mul_div_cancel_left _ hk]
      rw [hfirst, hstart]
      omega

end Landlord
end ArmyRs
