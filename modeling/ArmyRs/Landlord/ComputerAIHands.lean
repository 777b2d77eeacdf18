import ArmyRs.Landlord.FinderSpec

/-!
# The computer player plays from its hand

Whatever it is asked to reply to, and also where its choice is no legal play, the
computer player chooses cards of its hand and no card twice
(`smartSelectCards_subperm`).
-/

namespace ArmyRs
namespace Landlord

open Foundation

variable {m : ComputerAI} {cards : List Card} {weight : Int}

/-! ## The searches -/

theorem findSame_sublist (k last : Nat) (m : ComputerAI) (cards : List Card) (weight : Int)
    (ti : Bool) : (findSame k last m cards weight ti).1.Sublist cards := by
  unfold findSame
  split
  · exact List.nil_sublist cards
  · exact slice_sublist _ _ _

theorem findSingle_sublist (m : ComputerAI) (cards : List Card) (weight : Int) (ti : Bool) :
    (findSingle m cards weight ti).1.Sublist cards :=
  findSame_sublist _ _ _ _ _ _

theorem findDouble_sublist (m : ComputerAI) (cards : List Card) (weight : Int) (ti : Bool) :
    (findDouble m cards weight ti).1.Sublist cards := by
  unfold findDouble
  split
  · exact List.nil_sublist cards
  · exact findSame_sublist _ _ _ _ _ _

theorem findThree_sublist (m : ComputerAI) (cards : List Card) (weight : Int) (ti : Bool) :
    (findThree m cards weight ti).1.Sublist cards := by
  unfold findThree
  split
  · exact List.nil_sublist cards
  · exact findSame_sublist _ _ _ _ _ _

theorem findBoom_sublist (m : ComputerAI) (cards : List Card) (weight : Int) :
    (findBoom m cards weight).1.Sublist cards := by
  unfold findBoom
  split
  · exact List.nil_sublist cards
  · exact findSame_sublist _ _ _ _ _ _

theorem findTwoDouble_sublist (m : ComputerAI) (cards : List Card) (weight : Int) :
    (findTwoDouble m cards weight).1.Sublist cards := by
  rcases @findTwoDouble_cases m cards weight with ⟨a, selects, heq, hsub, -⟩ | heq
  · rw [heq]
    exact hsub
  · rw [heq]
    exact List.nil_sublist cards

/-- The inner loop only appends positions of its range, in their order. -/
theorem exists_scanRun_eq (k : Nat) (cards : List Card) (length i : Nat) (js : List Nat)
    (temp counter : Nat) (indexList : List Nat) :
    ∃ taken : List Nat, taken.Sublist js ∧
      (scanRun k cards length i js temp counter indexList).2 = indexList ++ taken := by
  induction js generalizing temp counter indexList with
  | nil => exact ⟨[], List.Sublist.refl [], (List.append_nil _).symm⟩
  | cons j js ih =>
      have hnone : ∃ taken : List Nat, taken.Sublist (j :: js) ∧ indexList = indexList ++ taken :=
        ⟨[], List.nil_sublist _, (List.append_nil _).symm⟩
      unfold scanRun
      split
      · exact hnone
      · split
        · dsimp only
          generalize (if (temp + 1) % k = 0 then counter + 1 else counter) = counter
          split
          · exact ⟨[j], List.Sublist.cons_cons j (List.nil_sublist js), rfl⟩
          · obtain ⟨taken, htaken, heq⟩ := ih (temp + 1) counter (indexList ++ [j])
            refine ⟨j :: taken, htaken.cons_cons j, ?_⟩
            rw [heq, List.append_assoc]
            rfl
        · exact hnone

/-- The positions of a run ascend. -/
theorem runLoop_sublist (k : Nat) (cards : List Card) (weight : Int) (length : Nat)
    (is : List Nat) (his : ∀ i ∈ is, 1 ≤ i ∧ i ≤ cards.length) (counter : Nat)
    {indexList : List Nat} (hindex : indexList.Sublist (List.range' 1 cards.length)) :
    (runLoop k cards weight length is counter indexList).2.Sublist
      (List.range' 1 cards.length) := by
  induction is generalizing counter indexList with
  | nil => exact hindex
  | cons i is ih =>
      obtain ⟨hi, hle⟩ := his i List.mem_cons_self
      have hrest := fun i hi => his i (List.mem_cons_of_mem _ hi)
      -- the positions from `i` on
      have hscan : ∀ temp counter, (scanRun k cards length i
          (forRange (i + 1) cards.length 1) temp counter [i]).2.Sublist
            (List.range' 1 cards.length) := by
        intro temp counter
        obtain ⟨taken, htaken, heq⟩ := exists_scanRun_eq k cards length i
          (forRange (i + 1) cards.length 1) temp counter [i]
        have hsplit : List.range' 1 cards.length =
            List.range' 1 (i - 1) ++ (i :: forRange (i + 1) cards.length 1) := by
          have hcons : i :: forRange (i + 1) cards.length 1 =
              List.range' i (cards.length + 1 - i) := by
            rw [forRange_one, show cards.length + 1 - i = cards.length - i + 1 by omega,
              List.range'_succ, show cards.length + 1 - (i + 1) = cards.length - i by omega]
          have hstart : i = 1 + (i - 1) := by omega
          rw [hcons]
          conv_rhs => rw [hstart]
          rw [show 1 + (i - 1) - 1 = i - 1 by omega, List.range'_append_1]
          congr 1
          omega
        rw [heq, hsplit]
        exact (htaken.cons_cons i).trans (List.sublist_append_right _ _)
      unfold runLoop
      dsimp only
      generalize (if k = 1 then 1 else 0) = first
      by_cases hweight : weight < weightAt cards i
      · rw [if_pos hweight]
        split
        · exact hscan 1 first
        · exact ih hrest _ (hscan 1 first)
      · rw [if_neg hweight]
        split
        · exact hindex
        · exact ih hrest _ hindex

theorem cardsAt_sublist {indexList : List Nat}
    (h : indexList.Sublist (List.range' 1 cards.length)) :
    (cardsAt cards indexList).Sublist cards := by
  have hall : cardsAt cards (List.range' 1 cards.length) = cards := by
    rw [cardsAt_range' Nat.one_pos (by omega)]
    unfold slice
    rw [Nat.sub_self, List.drop_zero, List.take_length]
  calc (cardsAt cards indexList).Sublist (cardsAt cards (List.range' 1 cards.length)) :=
        h.filterMap _
    _ = cards := hall

theorem findRun_sublist (k shortest : Nat) (m : ComputerAI) (cards : List Card) (weight : Int)
    (length : Nat) : (findRun k shortest m cards weight length).1.Sublist cards := by
  unfold findRun
  split
  · exact List.nil_sublist cards
  · dsimp only
    split
    · apply cardsAt_sublist
      apply runLoop_sublist
      · intro i hi
        have hmem := mem_forRange_one.mp hi
        omega
      · exact List.nil_sublist _
    · exact List.nil_sublist cards

/-- What goes with a triple is taken from the other cards. -/
theorem findThreeAnd_subperm {count : Nat}
    {kicker : ComputerAI → List Card → Int → Bool → Found}
    (hkicker : ∀ m cards, (kicker m cards weight true).1.Sublist cards) :
    (findThreeAnd count kicker m cards weight).1.Subperm cards := by
  have hnil : ([] : List Card).Subperm cards := List.nil_subperm
  have hthree := findThree_sublist m cards weight true
  unfold findThreeAnd
  dsimp only
  split
  · split
    · have hsplit : ((findThree m cards weight true).1 ++
          cards.diff (findThree m cards weight true).1).Perm cards :=
        List.subperm_append_diff_self_of_count_le fun card _ => hthree.count_le card
      exact ((hkicker _ _).append_left _).subperm.trans hsplit.subperm
    · exact hnil
  · exact hnil

/-! ## The choice -/

theorem firstFound_subperm {cardType : CardType} {find : ComputerAI → Int → Found}
    (hfind : ∀ m bound, (find m bound).1.Subperm cards) (bounds : List Int) (m : ComputerAI) :
    (firstFound cardType find bounds m).1.Subperm cards := by
  induction bounds generalizing m with
  | nil => exact List.nil_subperm
  | cons bound bounds ih =>
      unfold firstFound
      dsimp only
      split
      · exact hfind m bound
      · exact ih _

theorem orSearch_subperm {found : Found} {search : ComputerAI → Found}
    (hfound : found.1.Subperm cards) (hsearch : ∀ m, (search m).1.Subperm cards) :
    (orSearch found search).1.Subperm cards := by
  unfold orSearch
  split
  · exact hsearch _
  · exact hfound

theorem findSmallestCards_subperm (m : ComputerAI) (cards : List Card) :
    (findSmallestCards m cards).1.Subperm cards := by
  unfold findSmallestCards
  dsimp only
  repeat' apply orSearch_subperm
  · exact firstFound_subperm (fun m i => (findRun_sublist _ _ _ _ _ _).subperm) _ _
  · exact fun m => firstFound_subperm (fun m i => (findRun_sublist _ _ _ _ _ _).subperm) _ _
  · exact fun m => firstFound_subperm (fun m i => (findRun_sublist _ _ _ _ _ _).subperm) _ _
  · exact fun m => firstFound_subperm
      (fun m i => findThreeAnd_subperm fun m cards => findDouble_sublist m cards _ _) _ _
  · exact fun m => firstFound_subperm
      (fun m i => findThreeAnd_subperm fun m cards => findSingle_sublist m cards _ _) _ _
  · exact fun m => firstFound_subperm (fun m i => (findThree_sublist _ _ _ _).subperm) _ _
  · exact fun m => firstFound_subperm (fun m i => (findTwoDouble_sublist _ _ _).subperm) _ _
  · exact fun m => firstFound_subperm (fun m i => (findDouble_sublist _ _ _ _).subperm) _ _
  · exact fun m => (findSingle_sublist m cards _ _).subperm

theorem findJokerBoom_subperm (m : ComputerAI) (cards : List Card) :
    (findJokerBoom m cards).1.Subperm cards := by
  rw [findJokerBoom_eq]
  exact List.nil_subperm

theorem orBoom_subperm (cardType : CardType) {own : Found} (hown : own.1.Subperm cards) :
    (orBoom cardType cards own).1.Subperm cards := by
  unfold orBoom
  dsimp only
  split
  · split
    · split
      · exact findJokerBoom_subperm _ _
      · exact findJokerBoom_subperm _ _
    · exact (findBoom_sublist _ _ _).subperm
  · exact hown

theorem selectCardType_subperm (m : ComputerAI) (cardType : CardType) (cards : List Card)
    (weight : Int) (length : Nat) :
    (selectCardType m cardType cards weight length).1.Subperm cards := by
  cases cardType with
  | none => exact findSmallestCards_subperm m cards
  | single => exact (findSingle_sublist _ _ _ _).subperm
  | double => exact (findDouble_sublist _ _ _ _).subperm
  | twoDouble => exact (findTwoDouble_sublist _ _ _).subperm
  | straight => exact orBoom_subperm _ (findRun_sublist _ _ _ _ _ _).subperm
  | doubleStraight => exact orBoom_subperm _ (findRun_sublist _ _ _ _ _ _).subperm
  | tripleStraight => exact orBoom_subperm _ (findRun_sublist _ _ _ _ _ _).subperm
  | three => exact (findThree_sublist _ _ _ _).subperm
  | threeAndOne => exact findThreeAnd_subperm fun m cards => findSingle_sublist m cards _ _
  | threeAndTwo => exact findThreeAnd_subperm fun m cards => findDouble_sublist m cards _ _
  | boom =>
      unfold selectCardType
      dsimp only
      split
      · exact findJokerBoom_subperm _ _
      · exact (findBoom_sublist _ _ _).subperm
  | jokerBoom => exact List.nil_subperm

/-- The chosen cards are cards of the hand, each as often as there. -/
theorem smartSelectCards_subperm (m : ComputerAI) (cards : List Card) (cardType : CardType)
    (weight : Int) (length : Nat) (isBiggest : Bool) :
    (smartSelectCards m cards cardType weight length isBiggest).cardList.Subperm cards :=
  selectCardType_subperm _ _ _ _ _

end Landlord
end ArmyRs
