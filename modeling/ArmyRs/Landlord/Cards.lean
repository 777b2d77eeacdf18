import ArmyRs.Foundation.Blocks

/-!
# The 54-card deck

Cards, weights and combination types of the landlord game, as the constants
file of the client declares them.  A `Hand` is a list of distinct cards of the
deck in ascending order of weight: this is what the controllers keep after
every `sort(true)`, and both the ruler and the computer player only ever look
at lists of this form.

The name, the owner tag and the view of a card are not modelled: no rule and
no choice of the computer player reads them.
-/

namespace ArmyRs
namespace Landlord

open Foundation

/-- `COLOR`: the two jokers have no color. -/
inductive Color
  | none
  | club
  | heart
  | spade
  | square
  deriving DecidableEq, Repr

/-! ## `WEIGHT` -/

namespace Weight

def three : Nat := 3
def one : Nat := 14
def two : Nat := 15
def sJoker : Nat := 16
def lJoker : Nat := 17

end Weight

/-- `CARDTYPE`: the kind of a play. -/
inductive CardType
  | none
  | single
  | double
  | twoDouble
  | straight
  | doubleStraight
  | tripleStraight
  | three
  | threeAndOne
  | threeAndTwo
  | boom
  | jokerBoom
  deriving DecidableEq, Repr

/-- The number declared for a card type.  The controller compares types by
these numbers. -/
def CardType.code : CardType → Nat
  | .none => 0
  | .single => 1
  | .double => 2
  | .twoDouble => 4
  | .straight => 5
  | .doubleStraight => 6
  | .tripleStraight => 7
  | .three => 8
  | .threeAndOne => 9
  | .threeAndTwo => 10
  | .boom => 11
  | .jokerBoom => 12

structure Card where
  color : Color
  weight : Nat
  deriving DecidableEq, Repr

/-- `CombatController:initCardLibrary`: thirteen weights in four colors, then
the two jokers. -/
def cardLibrary : List Card :=
  ([Color.club, .heart, .spade, .square].flatMap fun color =>
    (List.range' Weight.three 13).map fun weight => ⟨color, weight⟩) ++
  [⟨.none, Weight.sJoker⟩, ⟨.none, Weight.lJoker⟩]

theorem length_cardLibrary : cardLibrary.length = 54 := rfl

theorem cardLibrary_nodup : cardLibrary.Nodup := by decide

/-- The weights of a card list, in its order. -/
def weights (cards : List Card) : List Nat := cards.map Card.weight

@[simp] theorem weights_nil : weights [] = [] := rfl

@[simp] theorem weights_cons (card : Card) (cards : List Card) :
    weights (card :: cards) = card.weight :: weights cards := rfl

@[simp] theorem weights_append (cards others : List Card) :
    weights (cards ++ others) = weights cards ++ weights others := List.map_append

@[simp] theorem length_weights (cards : List Card) :
    (weights cards).length = cards.length := List.length_map _

/-- `cards[i].weight`, with the source's positions starting at one. -/
def weightAt (cards : List Card) (i : Nat) : Nat :=
  (cards[i - 1]?).elim 0 Card.weight

/-- Reading inside the list reads the list of weights. -/
theorem weights_getElem? {cards : List Card} {i : Nat} (hi : i < cards.length) :
    (weights cards)[i]? = some (weightAt cards (i + 1)) := by
  simp [weights, weightAt, hi]

theorem weights_getElem?_pred {cards : List Card} {i : Nat} (hi : 1 ≤ i)
    (hle : i ≤ cards.length) : (weights cards)[i - 1]? = some (weightAt cards i) := by
  rw [weights_getElem? (by omega), Nat.sub_add_cancel hi]

/-- Ascending order of weight. -/
def Ascending (cards : List Card) : Prop := (weights cards).Pairwise (· ≤ ·)

instance (cards : List Card) : Decidable (Ascending cards) :=
  inferInstanceAs (Decidable ((weights cards).Pairwise (· ≤ ·)))

/-- In an ascending list later positions hold larger or equal weights. -/
theorem Ascending.weightAt_le {cards : List Card} (h : Ascending cards) {i j : Nat}
    (hi : 1 ≤ i) (hij : i ≤ j) (hj : j ≤ cards.length) :
    weightAt cards i ≤ weightAt cards j := by
  rcases Nat.eq_or_lt_of_le hij with rfl | hlt
  · exact le_rfl
  · have hreadi := weights_getElem?_pred hi (hij.trans hj)
    have hreadj := weights_getElem?_pred (hi.trans hij) hj
    obtain ⟨hboundi, hvaluei⟩ := List.getElem?_eq_some_iff.mp hreadi
    obtain ⟨hboundj, hvaluej⟩ := List.getElem?_eq_some_iff.mp hreadj
    rw [← hvaluei, ← hvaluej]
    exact List.pairwise_iff_getElem.mp h _ _ hboundi hboundj (by omega)

/-- A hand: distinct cards of the deck, sorted ascending by weight. -/
structure Hand where
  cards : List Card
  inLibrary : ∀ card ∈ cards, card ∈ cardLibrary
  nodup : cards.Nodup
  ascending : Ascending cards

theorem weight_mem_cardLibrary {card : Card} (h : card ∈ cardLibrary) :
    Weight.three ≤ card.weight ∧ card.weight ≤ Weight.lJoker := by
  revert card
  decide

/-- Every weight of a hand lies between a three and the large joker. -/
theorem Hand.weight_bounds (hand : Hand) {w : Nat} (h : w ∈ weights hand.cards) :
    Weight.three ≤ w ∧ w ≤ Weight.lJoker := by
  obtain ⟨card, hcard, rfl⟩ := List.mem_map.mp h
  exact weight_mem_cardLibrary (hand.inLibrary card hcard)

/-- A selection is a hand of one to twenty cards. -/
structure Selection extends Hand where
  nonempty : 1 ≤ cards.length
  atMost : cards.length ≤ 20

end Landlord
end ArmyRs
