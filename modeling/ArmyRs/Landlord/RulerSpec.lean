import ArmyRs.Landlord.Combination

/-!
# What the ruler accepts

Each predicate of the ruler is compared with `Combination` on ascending lists.
All of them agree with it except `isThreeAndTwo`, which never compares the two
cards beside the triple with each other, so it also accepts a triple with two
different cards when both are above it or both are below it
(`ThreeWithOddCards`).
-/

namespace ArmyRs
namespace Landlord

open Foundation

/-- On ascending lists a permutation of an ascending list is that list. -/
theorem Ascending.perm_iff {cards : List Card} (hasc : Ascending cards) {ws : List Nat}
    (hws : ws.Pairwise (· ≤ ·)) : (weights cards).Perm ws ↔ weights cards = ws :=
  ⟨fun h => eq_of_perm_of_ascending h hasc hws, fun h => h ▸ List.Perm.refl _⟩

theorem length_of_weights_perm {cards : List Card} {ws : List Nat}
    (h : (weights cards).Perm ws) : cards.length = ws.length := by
  rw [← length_weights, h.length_eq]

/-- The number of cards of a type, when the type fixes it. -/
def CardType.size? : CardType → Option Nat
  | .single => some 1
  | .double | .jokerBoom => some 2
  | .three => some 3
  | .twoDouble | .threeAndOne | .boom => some 4
  | .threeAndTwo => some 5
  | .none | .straight | .doubleStraight | .tripleStraight => Option.none

theorem Combination.length_eq {cardType : CardType} {cards : List Card} {n : Nat}
    (h : Combination cardType (weights cards)) (hsize : cardType.size? = some n) :
    cards.length = n := by
  cases cardType with
  | none => cases hsize
  | single =>
      cases hsize
      exact h.elim fun _ h => length_of_weights_perm h
  | double =>
      cases hsize
      exact h.elim fun _ h => length_of_weights_perm h
  | twoDouble =>
      cases hsize
      exact h.elim fun _ h => length_of_weights_perm h.2
  | straight => cases hsize
  | doubleStraight => cases hsize
  | tripleStraight => cases hsize
  | three =>
      cases hsize
      exact h.elim fun _ h => length_of_weights_perm h
  | threeAndOne =>
      cases hsize
      exact h.elim fun _ h => h.elim fun _ h => length_of_weights_perm h.2
  | threeAndTwo =>
      cases hsize
      exact h.elim fun _ h => h.elim fun _ h => length_of_weights_perm h.2
  | boom =>
      cases hsize
      exact h.elim fun _ h => length_of_weights_perm h
  | jokerBoom =>
      cases hsize
      exact length_of_weights_perm h

/-! ## The fixed-length predicates -/

theorem isSigle_iff (cards : List Card) :
    isSigle cards = true ↔ Combination .single (weights cards) := by
  constructor
  · intro h
    obtain ⟨card, rfl⟩ := List.length_eq_one_iff.mp (by simpa [isSigle] using h)
    exact ⟨card.weight, List.Perm.refl _⟩
  · intro h
    simpa [isSigle] using h.length_eq rfl

theorem isDouble_iff {cards : List Card} (hasc : Ascending cards) :
    isDouble cards = true ↔ Combination .double (weights cards) := by
  constructor
  · intro h
    simp only [isDouble, Bool.and_eq_true, beq_iff_eq] at h
    obtain ⟨c₁, c₂, rfl⟩ := List.length_eq_two.mp h.1
    have heq : c₁.weight = c₂.weight := h.2
    exact ⟨c₁.weight, by simp [heq]⟩
  · rintro ⟨w, hperm⟩
    obtain ⟨c₁, c₂, rfl⟩ := List.length_eq_two.mp (length_of_weights_perm hperm)
    have heq := (hasc.perm_iff (by simp)).mp hperm
    simp only [weights_cons, weights_nil, List.cons.injEq, and_true] at heq
    simp [isDouble, weightAt, heq.1, heq.2]

theorem isJokerBoom_iff {cards : List Card} (hasc : Ascending cards) :
    isJokerBoom cards = true ↔ Combination .jokerBoom (weights cards) := by
  constructor
  · intro h
    simp only [isJokerBoom, Bool.and_eq_true, beq_iff_eq] at h
    obtain ⟨c₁, c₂, rfl⟩ := List.length_eq_two.mp h.1.1
    have hfirst : c₁.weight = Weight.sJoker := h.1.2
    have hsecond : c₂.weight = Weight.lJoker := h.2
    show (weights [c₁, c₂]).Perm _
    simp [hfirst, hsecond]
  · intro hperm
    obtain ⟨c₁, c₂, rfl⟩ := List.length_eq_two.mp (length_of_weights_perm hperm)
    have heq := (hasc.perm_iff (by simp [Weight.sJoker, Weight.lJoker])).mp hperm
    simp only [weights_cons, weights_nil, List.cons.injEq, and_true] at heq
    simp [isJokerBoom, weightAt, heq.1, heq.2]

theorem isThree_iff {cards : List Card} (hasc : Ascending cards) :
    isThree cards = true ↔ Combination .three (weights cards) := by
  constructor
  · intro h
    simp only [isThree, Bool.and_eq_true, beq_iff_eq] at h
    obtain ⟨c₁, c₂, c₃, rfl⟩ := List.length_eq_three.mp h.1
    have heq : c₁.weight = c₃.weight := h.2
    simp only [Ascending, weights_cons, weights_nil] at hasc
    have hmiddle : c₂.weight = c₃.weight := by
      simp at hasc
      omega
    exact ⟨c₃.weight, by simp [heq, hmiddle]⟩
  · rintro ⟨w, hperm⟩
    obtain ⟨c₁, c₂, c₃, rfl⟩ := List.length_eq_three.mp (length_of_weights_perm hperm)
    have heq := (hasc.perm_iff (by simp)).mp hperm
    simp only [weights_cons, weights_nil, List.cons.injEq, and_true] at heq
    simp [isThree, weightAt, heq.1, heq.2.2]

/-- Destructs a list of four cards. -/
theorem exists_four {cards : List Card} (h : cards.length = 4) :
    ∃ c₁ c₂ c₃ c₄, cards = [c₁, c₂, c₃, c₄] := by
  match cards, h with
  | [c₁, c₂, c₃, c₄], _ => exact ⟨c₁, c₂, c₃, c₄, rfl⟩

/-- Destructs a list of five cards. -/
theorem exists_five {cards : List Card} (h : cards.length = 5) :
    ∃ c₁ c₂ c₃ c₄ c₅, cards = [c₁, c₂, c₃, c₄, c₅] := by
  match cards, h with
  | [c₁, c₂, c₃, c₄, c₅], _ => exact ⟨c₁, c₂, c₃, c₄, c₅, rfl⟩

theorem isTwoDouble_iff {cards : List Card} (hasc : Ascending cards) :
    isTwoDouble cards = true ↔ Combination .twoDouble (weights cards) := by
  by_cases hlength : cards.length = 4
  · obtain ⟨c₁, c₂, c₃, c₄, rfl⟩ := exists_four hlength
    have hright : Combination .twoDouble (weights [c₁, c₂, c₃, c₄]) ↔
        ∃ a, a + 2 ≤ Weight.one + 1 ∧
          weights [c₁, c₂, c₃, c₄] = blocks 2 a 2 := by
      simp only [Combination, hasc.perm_iff (pairwise_le_blocks 2 _ 2)]
    rw [hright]
    simp only [Ascending, weights_cons, weights_nil] at hasc
    simp only [isTwoDouble, weightAt, weights_cons, weights_nil, blocks, List.replicate,
      List.cons_append, List.nil_append, List.cons.injEq, Weight.one]
    simp at hasc ⊢
    omega
  · refine iff_of_false (by simp [isTwoDouble, hlength]) fun h =>
      hlength (h.length_eq rfl)

theorem isBoom_iff {cards : List Card} (hasc : Ascending cards) :
    isBoom cards = true ↔ Combination .boom (weights cards) := by
  by_cases hlength : cards.length = 4
  · obtain ⟨c₁, c₂, c₃, c₄, rfl⟩ := exists_four hlength
    have hright : Combination .boom (weights [c₁, c₂, c₃, c₄]) ↔
        ∃ w, weights [c₁, c₂, c₃, c₄] = [w, w, w, w] := by
      simp only [Combination]
      exact exists_congr fun w => hasc.perm_iff (by simp)
    rw [hright]
    simp only [Ascending, weights_cons, weights_nil] at hasc
    simp [isBoom, weightAt] at hasc ⊢
    omega
  · refine iff_of_false (by simp [isBoom, hlength]) fun h =>
      hlength (h.length_eq rfl)

/-- A triple and one other card, sorted: the other card stands at one end. -/
theorem threeAndOne_iff {cards : List Card} (hasc : Ascending cards) :
    Combination .threeAndOne (weights cards) ↔
      ∃ w x, (w < x ∧ weights cards = [w, w, w, x]) ∨
        (x < w ∧ weights cards = [x, w, w, w]) := by
  constructor
  · rintro ⟨w, x, hne, hperm⟩
    rcases Nat.lt_or_gt_of_ne hne with hlt | hgt
    · have hsorted : (weights cards).Perm [x, w, w, w] :=
        hperm.trans (@List.perm_append_comm _ [w, w, w] [x])
      exact ⟨w, x, Or.inr ⟨hlt, (hasc.perm_iff (by simp; omega)).mp hsorted⟩⟩
    · exact ⟨w, x, Or.inl ⟨hgt, (hasc.perm_iff (by simp; omega)).mp hperm⟩⟩
  · rintro ⟨w, x, ⟨hlt, heq⟩ | ⟨hlt, heq⟩⟩
    · exact ⟨w, x, by omega, heq ▸ List.Perm.refl _⟩
    · exact ⟨w, x, by omega, heq ▸ @List.perm_append_comm _ [x] [w, w, w]⟩

theorem isThreeAndOne_iff {cards : List Card} (hasc : Ascending cards) :
    isThreeAndOne cards = true ↔ Combination .threeAndOne (weights cards) := by
  by_cases hlength : cards.length = 4
  · rw [threeAndOne_iff hasc]
    obtain ⟨c₁, c₂, c₃, c₄, rfl⟩ := exists_four hlength
    simp only [Ascending, weights_cons, weights_nil] at hasc
    simp only [isThreeAndOne, weightAt, weights_cons, weights_nil, List.cons.injEq]
    simp at hasc ⊢
    by_cases hfirst : c₁.weight = c₂.weight
    · rw [if_pos hfirst]
      constructor
      · intro h
        exact ⟨c₁.weight, c₄.weight, by omega⟩
      · rintro ⟨w, x, h⟩
        omega
    · rw [if_neg hfirst]
      constructor
      · intro h
        exact ⟨c₂.weight, c₁.weight, by omega⟩
      · rintro ⟨w, x, h⟩
        omega
  · refine iff_of_false (by simp [isThreeAndOne, hlength]) fun h =>
      hlength (h.length_eq rfl)

/-- A triple with two different cards, both above it or both below it.  This is
not a combination, but `isThreeAndTwo` only compares the triple's ends. -/
def ThreeWithOddCards (ws : List Nat) : Prop :=
  ∃ w x y, (w < x ∧ x < y ∧ ws = [w, w, w, x, y]) ∨ (x < y ∧ y < w ∧ ws = [x, y, w, w, w])

/-- A triple and a pair, sorted. -/
theorem threeAndTwo_iff {cards : List Card} (hasc : Ascending cards) :
    Combination .threeAndTwo (weights cards) ↔
      ∃ w x, (w < x ∧ weights cards = [w, w, w, x, x]) ∨
        (x < w ∧ weights cards = [x, x, w, w, w]) := by
  constructor
  · rintro ⟨w, x, hne, hperm⟩
    rcases Nat.lt_or_gt_of_ne hne with hlt | hgt
    · have hsorted : (weights cards).Perm [x, x, w, w, w] :=
        hperm.trans (@List.perm_append_comm _ [w, w, w] [x, x])
      exact ⟨w, x, Or.inr ⟨hlt, (hasc.perm_iff (by simp; omega)).mp hsorted⟩⟩
    · exact ⟨w, x, Or.inl ⟨hgt, (hasc.perm_iff (by simp; omega)).mp hperm⟩⟩
  · rintro ⟨w, x, ⟨hlt, heq⟩ | ⟨hlt, heq⟩⟩
    · exact ⟨w, x, by omega, heq ▸ List.Perm.refl _⟩
    · exact ⟨w, x, by omega, heq ▸ @List.perm_append_comm _ [x, x] [w, w, w]⟩

theorem isThreeAndTwo_iff {cards : List Card} (hasc : Ascending cards) :
    isThreeAndTwo cards = true ↔
      Combination .threeAndTwo (weights cards) ∨ ThreeWithOddCards (weights cards) := by
  rw [threeAndTwo_iff hasc]
  by_cases hlength : cards.length = 5
  · obtain ⟨c₁, c₂, c₃, c₄, c₅, rfl⟩ := exists_five hlength
    simp only [Ascending, weights_cons, weights_nil] at hasc
    simp only [ThreeWithOddCards, isThreeAndTwo, weightAt, weights_cons, weights_nil,
      List.cons.injEq]
    simp at hasc ⊢
    constructor
    · intro h
      by_cases hlow : c₁.weight = c₃.weight
      · by_cases hpair : c₄.weight = c₅.weight
        · exact Or.inl ⟨c₁.weight, c₄.weight, by omega⟩
        · exact Or.inr ⟨c₁.weight, c₄.weight, c₅.weight, by omega⟩
      · by_cases hpair : c₁.weight = c₂.weight
        · exact Or.inl ⟨c₃.weight, c₁.weight, by omega⟩
        · exact Or.inr ⟨c₃.weight, c₁.weight, c₂.weight, by omega⟩
    · rintro (⟨w, x, h⟩ | ⟨w, x, y, h⟩)
      · omega
      · omega
  · refine iff_of_false (by simp [isThreeAndTwo, hlength]) fun h => hlength ?_
    rw [← length_weights]
    rcases h with ⟨w, x, ⟨-, heq⟩ | ⟨-, heq⟩⟩ | ⟨w, x, y, ⟨-, -, heq⟩ | ⟨-, -, heq⟩⟩
    · rw [heq]; rfl
    · rw [heq]; rfl
    · rw [heq]; rfl
    · rw [heq]; rfl

/-! ## The scanning predicates -/

/-- The runs of `k` equal cards a list of `k * n` cards can form. -/
theorem exists_run_iff {cards : List Card} {k n low : Nat} (hasc : Ascending cards)
    (hk : 0 < k) (hlength : cards.length = k * n) (hlow : low ≤ n) :
    (∃ a m, low ≤ m ∧ a + m ≤ Weight.one + 1 ∧ (weights cards).Perm (blocks k a m)) ↔
      ∃ a, a + n ≤ Weight.one + 1 ∧ weights cards = blocks k a n := by
  constructor
  · rintro ⟨a, m, -, hace, hperm⟩
    have hm : k * n = k * m := by
      rw [← hlength]
      simpa using length_of_weights_perm hperm
    have hmn : n = m := Nat.eq_of_mul_eq_mul_left hk hm
    subst hmn
    exact ⟨a, hace, (hasc.perm_iff (pairwise_le_blocks _ _ _)).mp hperm⟩
  · rintro ⟨a, hace, heq⟩
    exact ⟨a, n, hlow, hace, (hasc.perm_iff (pairwise_le_blocks _ _ _)).mpr heq⟩

theorem isStraight_iff {cards : List Card} (hasc : Ascending cards) :
    isStraight cards = true ↔ Combination .straight (weights cards) := by
  by_cases hcount : cards.length < 5 ∨ cards.length > 12
  · refine iff_of_false (by simp [isStraight, hcount]) ?_
    rintro ⟨a, n, hlow, hhigh, -, hperm⟩
    have hn : cards.length = n := by simpa using length_of_weights_perm hperm
    omega
  · have hright : Combination .straight (weights cards) ↔
        ∃ a m, 5 ≤ m ∧ a + m ≤ Weight.one + 1 ∧ (weights cards).Perm (blocks 1 a m) := by
      constructor
      · rintro ⟨a, n, hlow, -, h⟩
        exact ⟨a, n, hlow, h⟩
      · rintro ⟨a, n, hlow, hace, hperm⟩
        have hn : cards.length = n := by simpa using length_of_weights_perm hperm
        exact ⟨a, n, hlow, by omega, hace, hperm⟩
    have hlength : cards.length = 1 * cards.length := by omega
    rw [hright, exists_run_iff hasc Nat.one_pos hlength (by omega),
      ← scan_iff_blocks hasc Nat.one_pos (by omega) hlength]
    simp only [isStraight, if_neg hcount, List.all_eq_true, mem_forRange Nat.one_pos,
      Bool.and_eq_true, Bool.not_eq_true', Bool.or_eq_false_iff, beq_iff_eq,
      decide_eq_false_iff_not, Nat.not_lt, gt_iff_lt]
    constructor
    · intro hscan p hp
      refine ⟨rfl, fun hnext => ?_⟩
      exact hscan (1 + p * 1) ⟨p, rfl, by omega⟩
    · rintro hscan i ⟨p, rfl, hp⟩
      exact (hscan p (by omega)).2 (by omega)

/-- The scan of a double or triple straight, one pass over the starts of its
groups of `k` cards. -/
theorem stridedScan_iff {cards : List Card} {k n : Nat} (hasc : Ascending cards)
    (hk : 2 ≤ k) (hn : 2 ≤ n) (hlength : cards.length = k * n) :
    (∀ i, (∃ p, i = 1 + p * k ∧ i ≤ cards.length - (k - 1)) →
      (weightAt cards (i + (k - 1)) = weightAt cards i ∧
        (cards.length ≤ i + k ∨ weightAt cards (i + k) - weightAt cards i = 1)) ∧
      (cards.length ≤ i + k ∨
        weightAt cards i ≤ Weight.one ∧ weightAt cards (i + k) ≤ Weight.one)) ↔
    ∃ a, a + n ≤ Weight.one + 1 ∧ weights cards = blocks k a n := by
  have hgroup : ∀ p, 1 + p * k ≤ cards.length - (k - 1) ↔ p < n := by
    intro p
    rw [hlength, Nat.mul_comm k n]
    constructor
    · intro h
      have hmul : (p + 1) * k ≤ n * k := by
        rw [Nat.add_mul]
        omega
      exact Nat.le_of_mul_le_mul_right hmul (by omega)
    · intro h
      have hmul : (p + 1) * k ≤ n * k := Nat.mul_le_mul_right k h
      rw [Nat.add_mul] at hmul
      omega
  have hlast : ∀ p, p < n → (cards.length ≤ 1 + p * k + k ↔ ¬ p + 1 < n) := by
    intro p hp
    rw [hlength, Nat.mul_comm k n]
    constructor
    · intro hle hnext
      have hmul : (p + 2) * k ≤ n * k := Nat.mul_le_mul_right k hnext
      rw [Nat.add_mul] at hmul
      omega
    · intro hend
      rw [show n = p + 1 by omega, Nat.add_mul]
      omega
  rw [← scan_iff_blocks hasc (by omega) hn hlength]
  constructor
  · intro hscan p hp
    obtain ⟨⟨hends, hstep⟩, hace⟩ := hscan (1 + p * k) ⟨p, rfl, (hgroup p).mpr hp⟩
    refine ⟨hends, fun hnext => ?_⟩
    have hinside : ¬ cards.length ≤ 1 + p * k + k := fun h => (hlast p hp).mp h hnext
    exact ⟨hstep.resolve_left hinside, hace.resolve_left hinside⟩
  · rintro hscan i ⟨p, rfl, hbound⟩
    have hp := (hgroup p).mp hbound
    obtain ⟨hends, hstep⟩ := hscan p hp
    by_cases hnext : p + 1 < n
    · exact ⟨⟨hends, Or.inr (hstep hnext).1⟩, Or.inr (hstep hnext).2⟩
    · have hend := (hlast p hp).mpr hnext
      exact ⟨⟨hends, Or.inl hend⟩, Or.inl hend⟩

theorem isDoubleStraight_iff {cards : List Card} (hasc : Ascending cards) :
    isDoubleStraight cards = true ↔ Combination .doubleStraight (weights cards) := by
  by_cases hcount : cards.length % 2 ≠ 0 ∨ cards.length < 6
  · refine iff_of_false (by simp only [isDoubleStraight, if_pos hcount]; simp) ?_
    rintro ⟨a, n, hlow, -, hperm⟩
    have hn : cards.length = 2 * n := by simpa using length_of_weights_perm hperm
    omega
  · obtain ⟨n, hn⟩ : ∃ n, cards.length = 2 * n := ⟨cards.length / 2, by omega⟩
    have hlow : 3 ≤ n := by omega
    have hright : Combination .doubleStraight (weights cards) ↔ _ :=
      exists_run_iff hasc Nat.two_pos hn hlow
    rw [hright, ← stridedScan_iff hasc le_rfl (by omega) hn]
    simp only [isDoubleStraight, if_neg hcount, List.all_eq_true, mem_forRange Nat.two_pos,
      Bool.and_eq_true, Bool.or_eq_true, Bool.not_eq_true', Bool.or_eq_false_iff,
      beq_iff_eq, decide_eq_false_iff_not, Nat.not_lt, gt_iff_lt]

theorem isTripleStraight_iff {cards : List Card} (hasc : Ascending cards) :
    isTripleStraight cards = true ↔ Combination .tripleStraight (weights cards) := by
  by_cases hcount : cards.length % 3 ≠ 0 ∨ cards.length < 6
  · refine iff_of_false (by simp only [isTripleStraight, if_pos hcount]; simp) ?_
    rintro ⟨a, n, hlow, -, hperm⟩
    have hn : cards.length = 3 * n := by simpa using length_of_weights_perm hperm
    omega
  · obtain ⟨n, hn⟩ : ∃ n, cards.length = 3 * n := ⟨cards.length / 3, by omega⟩
    have hlow : 2 ≤ n := by omega
    have hright : Combination .tripleStraight (weights cards) ↔ _ :=
      exists_run_iff hasc (Nat.succ_pos 2) hn hlow
    rw [hright, ← stridedScan_iff hasc (by omega) (by omega) hn]
    simp only [isTripleStraight, if_neg hcount, List.all_eq_true, mem_forRange (Nat.succ_pos 2),
      Bool.and_eq_true, Bool.or_eq_true, Bool.not_eq_true', Bool.or_eq_false_iff,
      beq_iff_eq, decide_eq_false_iff_not, Nat.not_lt, gt_iff_lt]

end Landlord
end ArmyRs
