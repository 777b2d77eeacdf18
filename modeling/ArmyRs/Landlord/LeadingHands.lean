import ArmyRs.Landlord.CombatControllerPlays
import ArmyRs.Landlord.ComputerAIHands

/-!
# A computer player that leads

`CharacterCtrl:smartSelectCards` asks the computer player for cards, and
`computerDelectCards` takes them out of the hand and sorts what is left.  A player
that leads always finds cards, and they are cards of its hand, so the hand gets
shorter with every turn.
-/

namespace ArmyRs
namespace Landlord

/-- `CharacterCtrl:computerDelectCards`, the hand after it. -/
def computerDelectCards (ai : ComputerAI) (saveCards : List Card) : List Card :=
  if ai.cardList.length = 0 then saveCards
  else sortCards (ai.cardList.foldl List.erase saveCards)

/-- `CharacterCtrl:smartSelectCards`: whether the player plays, and its hand. -/
def characterSelectCards (m : ComputerAI) (saveCards : List Card) (cardType : CardType)
    (weight : Int) (length : Nat) (isBiggest : Bool) : Bool × List Card :=
  let ai := smartSelectCards m saveCards cardType weight length isBiggest
  if ai.cardList.length ≠ 0 then (true, computerDelectCards ai saveCards)
  else (false, saveCards)

/-- The hand after some turns in which the player has led.  What the fields of the
module hold before a turn depends on the other players. -/
def handAfter (fields : Nat → ComputerAI) (hand : List Card) : Nat → List Card
  | 0 => hand
  | turn + 1 => (characterSelectCards (fields turn) (handAfter fields hand turn) .none 0 0 true).2

section

variable {m : ComputerAI} {cards : List Card}

theorem smartSelectCards_cardList (m : ComputerAI) (cards : List Card) :
    (smartSelectCards m cards .none 0 0 true).cardList =
      (findSmallestCards (m.cleared .none) cards).1 := by
  unfold smartSelectCards
  simp only [if_true, selectCardType]

theorem computerDelectCards_eq {ai : ComputerAI} (hne : ai.cardList ≠ []) :
    computerDelectCards ai cards = sortCards (cards.diff ai.cardList) := by
  rw [computerDelectCards, if_neg (List.length_eq_zero_iff.not.mpr hne), List.diff_eq_foldl]

/-- The selected cards and the rest are the hand. -/
theorem append_computerDelectCards_perm {ai : ComputerAI} (hne : ai.cardList ≠ [])
    (hsub : ai.cardList.Subperm cards) :
    (ai.cardList ++ computerDelectCards ai cards).Perm cards := by
  rw [computerDelectCards_eq hne]
  exact ((sortCards_perm _).append_left _).trans
    (List.subperm_append_diff_self_of_count_le (List.subperm_ext_iff.mp hsub))

/-- A turn of a player that leads. -/
structure LedTurn (cards selects rest : List Card) : Prop where
  nonempty : selects ≠ []
  subperm : selects.Subperm cards
  shorter : rest.length < cards.length
  kept : ∀ card ∈ cards, card ∉ selects → card ∈ rest
  sorted : Ascending rest

theorem ledTurn (m : ComputerAI) (hasc : Ascending cards) (hne : cards ≠ []) :
    LedTurn cards (smartSelectCards m cards .none 0 0 true).cardList
      (characterSelectCards m cards .none 0 0 true).2 := by
  have hselects := findSmallestCards_ne_nil (m.cleared .none) hasc hne
  have hsub := findSmallestCards_subperm (m.cleared .none) cards
  rw [← smartSelectCards_cardList] at hselects hsub
  have hperm := append_computerDelectCards_perm hselects hsub
  have hrest : (characterSelectCards m cards .none 0 0 true).2 =
      computerDelectCards (smartSelectCards m cards .none 0 0 true) cards := by
    unfold characterSelectCards
    dsimp only
    rw [if_pos (List.length_eq_zero_iff.not.mpr hselects)]
  rw [hrest]
  refine ⟨hselects, hsub, ?_, ?_, ?_⟩
  · have hlength := hperm.length_eq
    have hpos := List.length_pos_of_ne_nil hselects
    rw [List.length_append] at hlength
    omega
  · intro card hcard hnot
    exact (List.mem_append.mp (hperm.mem_iff.mpr hcard)).resolve_left hnot
  · rw [computerDelectCards_eq hselects]
    exact sortCards_ascending _

/-- Without cards there is nothing to play. -/
theorem characterSelectCards_nil (m : ComputerAI) :
    (characterSelectCards m [] .none 0 0 true).2 = [] := by
  have hsub := findSmallestCards_subperm (m.cleared .none) []
  rw [← smartSelectCards_cardList, List.subperm_nil] at hsub
  simp [characterSelectCards, hsub]

theorem handAfter_step (fields : Nat → ComputerAI) {hand : List Card} (hasc : Ascending hand)
    (turn : Nat) : Ascending (handAfter fields hand turn) ∧
      (handAfter fields hand turn).length ≤ hand.length - turn := by
  induction turn with
  | zero => exact ⟨hasc, le_rfl⟩
  | succ turn ih =>
      rw [handAfter]
      by_cases hnil : handAfter fields hand turn = []
      · rw [hnil, characterSelectCards_nil]
        exact ⟨List.Pairwise.nil, Nat.zero_le _⟩
      · have hturn := ledTurn (fields turn) ih.1 hnil
        exact ⟨hturn.sorted, by have := hturn.shorter; omega⟩

/-- A player that leads selects distinct cards of its hand, keeps the others sorted,
and has no card left after as many turns as it had cards. -/
theorem handAfter_eq_nil (hand : Hand) :
    (hand.cards ≠ [] → ∀ m : ComputerAI,
      (findSmallestCards m hand.cards).1 ≠ [] ∧ (findSmallestCards m hand.cards).1.Nodup ∧
      (∀ card ∈ (findSmallestCards m hand.cards).1, card ∈ hand.cards) ∧
      LedTurn hand.cards (smartSelectCards m hand.cards .none 0 0 true).cardList
        (characterSelectCards m hand.cards .none 0 0 true).2) ∧
    ∀ fields : Nat → ComputerAI, ∃ turns ≤ hand.cards.length,
      handAfter fields hand.cards turns = [] := by
  constructor
  · intro hne m
    have hsub := findSmallestCards_subperm m hand.cards
    exact ⟨findSmallestCards_ne_nil m hand.ascending hne, nodup_of_subperm hsub hand.nodup,
      fun card hcard => hsub.subset hcard, ledTurn m hand.ascending hne⟩
  · intro fields
    refine ⟨hand.cards.length, le_rfl, ?_⟩
    have hlength := (handAfter_step fields hand.ascending hand.cards.length).2
    rw [Nat.sub_self] at hlength
    exact List.length_eq_zero_iff.mp (Nat.le_zero.mp hlength)

end

/-- A bomb, of which the player leads three cards. -/
def fourThrees : Hand where
  cards := [⟨.club, 3⟩, ⟨.heart, 3⟩, ⟨.spade, 3⟩, ⟨.square, 3⟩]
  inLibrary := by decide
  nodup := by decide
  ascending := by decide

theorem ledTurn_fourThrees :
    LedTurn fourThrees.cards (smartSelectCards {} fourThrees.cards .none 0 0 true).cardList
      (characterSelectCards {} fourThrees.cards .none 0 0 true).2 :=
  ((handAfter_eq_nil fourThrees).1 (by decide) {}).2.2.2

example : (findSmallestCards {} fourThrees.cards).1 =
    [⟨.club, 3⟩, ⟨.heart, 3⟩, ⟨.spade, 3⟩] := by decide

end Landlord
end ArmyRs
