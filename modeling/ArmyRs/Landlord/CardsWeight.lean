import ArmyRs.Landlord.RulerSpec

/-!
# The weight of a play

`CombatController:getCardsWeight` measures a sorted play of a known type.  For
a triple with other cards only the triple counts, and the source finds it by
looking at every three neighbouring cards; for all other types it is the sum of
the weights.

`Beats` is the rule of the game: what a play has to be to go over the last one.
-/

namespace ArmyRs
namespace Landlord

open Foundation

/-- `CombatController:getCardsWeight`. -/
def getCardsWeight (cards : List Card) (cardType : CardType) : Int :=
  if cardType = .threeAndOne ∨ cardType = .threeAndTwo then
    ((forRange 1 (cards.length - 2) 1).map fun i =>
      if weightAt cards i = weightAt cards (i + 1) ∧ weightAt cards i = weightAt cards (i + 2)
      then (weightAt cards i : Int) * 3 else 0).sum
  else (cards.map fun card => (card.weight : Int)).sum

/-- A play: its type, its weight and its number of cards. -/
structure Play where
  cardType : CardType
  weight : Int
  length : Int
  deriving DecidableEq, Repr

/-- The joker bomb beats everything, a bomb beats every play that is no bomb
and any lower bomb; otherwise type and number of cards have to agree and the
weight has to be larger. -/
def Beats (new last : Play) : Prop :=
  new.cardType = .jokerBoom ∨
  (new.cardType = .boom ∧ last.cardType ≠ .boom ∧ last.cardType ≠ .jokerBoom) ∨
  (new.cardType = last.cardType ∧ new.length = last.length ∧ last.weight < new.weight)

instance (new last : Play) : Decidable (Beats new last) := by
  unfold Beats
  infer_instance

/-- Outside the triples with other cards, the weight of a play is the sum of
its weights. -/
theorem getCardsWeight_eq_sum {cards : List Card} {cardType : CardType}
    (h : cardType ≠ .threeAndOne ∧ cardType ≠ .threeAndTwo) :
    getCardsWeight cards cardType = ((weights cards).sum : Nat) := by
  unfold getCardsWeight
  rw [if_neg (by simp [h.1, h.2])]
  induction cards with
  | nil => rfl
  | cons card cards ih =>
      rw [List.map_cons, List.sum_cons, weights_cons, List.sum_cons, Nat.cast_add, ih]

/-- A sorted triple with one other card weighs three times the triple. -/
theorem getCardsWeight_threeAndOne {cards : List Card} (hasc : Ascending cards) {w x : Nat}
    (hne : x ≠ w) (hperm : (weights cards).Perm [w, w, w, x]) :
    getCardsWeight cards .threeAndOne = 3 * w := by
  have hlength : cards.length = 4 := length_of_weights_perm hperm
  obtain ⟨c₁, c₂, c₃, c₄, rfl⟩ := exists_four hlength
  have hrange : forRange 1 (4 - 2) 1 = [1, 2] := by decide
  rcases Nat.lt_or_gt_of_ne hne with hlt | hgt
  · have hsorted := (hasc.perm_iff (by simp; omega)).mp
      (hperm.trans (@List.perm_append_comm _ [w, w, w] [x]))
    simp only [weights_cons, weights_nil, List.cons_append, List.nil_append,
      List.cons.injEq] at hsorted
    simp [getCardsWeight, hrange, weightAt, hsorted, hne]
    omega
  · have hsorted := (hasc.perm_iff (by simp; omega)).mp hperm
    simp only [weights_cons, weights_nil, List.cons.injEq] at hsorted
    simp [getCardsWeight, hrange, weightAt, hsorted, hne.symm]
    omega

/-- A sorted triple with a pair weighs three times the triple. -/
theorem getCardsWeight_threeAndTwo {cards : List Card} (hasc : Ascending cards) {w x : Nat}
    (hne : x ≠ w) (hperm : (weights cards).Perm [w, w, w, x, x]) :
    getCardsWeight cards .threeAndTwo = 3 * w := by
  have hlength : cards.length = 5 := length_of_weights_perm hperm
  obtain ⟨c₁, c₂, c₃, c₄, c₅, rfl⟩ := exists_five hlength
  have hrange : forRange 1 (5 - 2) 1 = [1, 2, 3] := by decide
  rcases Nat.lt_or_gt_of_ne hne with hlt | hgt
  · have hsorted := (hasc.perm_iff (by simp; omega)).mp
      (hperm.trans (@List.perm_append_comm _ [w, w, w] [x, x]))
    simp only [weights_cons, weights_nil, List.cons_append, List.nil_append,
      List.cons.injEq] at hsorted
    simp [getCardsWeight, hrange, weightAt, hsorted, hne]
    omega
  · have hsorted := (hasc.perm_iff (by simp; omega)).mp hperm
    simp only [weights_cons, weights_nil, List.cons.injEq] at hsorted
    simp [getCardsWeight, hrange, weightAt, hsorted, hne.symm]
    omega

end Landlord
end ArmyRs
