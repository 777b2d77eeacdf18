import ArmyRs.Landlord.ComputerAISound

/-!
# When the computer player finds a reply

The computer player should reply whenever its hand allows it to (`CanReply`).
Each search is read as an equivalence: it finds something exactly when the hand
shows something to it.

* Singles, pairs, triples and two consecutive pairs are always found.
* A search for a longer run compares the weight of one card with the weight of
  the whole last play, so a run is never answered by a run.
* The loop over the bombs does not read the last four cards of the hand, and
  the joker bomb is never found.
* A triple with other cards is built on the least triple only, and its company
  is also compared with the weight of the last play.
-/

namespace ArmyRs
namespace Landlord

open Foundation

variable {m : ComputerAI} {hand : Hand} {weight : Int}

/-! ## What the hand allows -/

/-- The hand holds a play of the same type and number of cards and of a larger
weight. -/
def HasHeavier (hand : Hand) (last : Selection) (cardType : CardType) : Prop :=
  ∃ selects : List Card, selects.Subperm hand.cards ∧ Ascending selects ∧
    Combination cardType (weights selects) ∧ selects.length = last.cards.length ∧
    getCardsWeight last.cards cardType < getCardsWeight selects cardType

/-- The plays after which any bomb is looked for. -/
def CardType.fallsBackToBoom : CardType → Prop
  | .straight | .doubleStraight | .tripleStraight => True
  | _ => False

/-- The plays after which the joker bomb is looked for. -/
def CardType.fallsBackToJokerBoom : CardType → Prop
  | .straight | .doubleStraight | .tripleStraight | .boom => True
  | _ => False

/-- The hand holds a combination of the type. -/
def Holds (hand : Hand) (cardType : CardType) : Prop :=
  ∃ selects : List Card, selects.Subperm hand.cards ∧ Combination cardType (weights selects)

def CanReply (hand : Hand) (last : Selection) (cardType : CardType) : Prop :=
  HasHeavier hand last cardType ∨
    (cardType.fallsBackToBoom ∧ Holds hand .boom) ∨
    (cardType.fallsBackToJokerBoom ∧ Holds hand .jokerBoom)

/-! ## What the searches see -/

/-- There is a bomb above `weight`, and a card that is heavier than the cards of
the bomb. -/
def BoomBelow (ws : List Nat) (weight : Int) : Prop :=
  ∃ v, ws.count v = 4 ∧ weight < 4 * (v : Int) ∧ ∃ u ∈ ws, v < u

/-- The least triple above `weight` has `k` equal cards beside it that weigh
more than `weight` too. -/
def TripleWith (k : Nat) (ws : List Nat) (weight : Int) : Prop :=
  ∃ w, LeastHeavy 3 ws weight w ∧ ∃ x, Heavy k (withoutThree w ws) weight x

/-- What the search for a reply to a play of this type and weight sees in the
weights of a hand. -/
def Sees (ws : List Nat) (weight : Int) : CardType → Prop
  | .straight | .doubleStraight | .tripleStraight => BoomBelow ws (-1)
  | .boom => BoomBelow ws weight
  | .threeAndOne => TripleWith 1 ws weight
  | .threeAndTwo => TripleWith 2 ws weight
  | _ => True

/-! ## Bombs -/

/-- Five equal cards would be one too many. -/
theorem Hand.not_sameAt_five (hand : Hand) {i : Nat} (hi : 1 ≤ i)
    (hle : i + 5 ≤ hand.cards.length + 1) : ¬ sameAt 5 hand.cards i = true := by
  intro hsame
  have hweights := weights_slice_of_sameAt hi hle hsame
  have hcount := ((slice_sublist hand.cards i 5).map Card.weight).count_le
    (weightAt hand.cards i)
  rw [← weights, hweights, List.count_replicate_self] at hcount
  have hfour := hand.count_le_four (weightAt hand.cards i)
  unfold weights at hfour
  omega

theorem sameAt_succ {k i : Nat} {cards : List Card} :
    sameAt (k + 1) cards i = true ↔
      sameAt k cards i = true ∧ weightAt cards i = weightAt cards (i + k) := by
  unfold sameAt
  rw [List.range_succ, List.all_append, Bool.and_eq_true]
  simp only [List.all_cons, List.all_nil, Bool.and_true, beq_iff_eq]

/-- A bomb is found exactly when it is not at the end of the hand. -/
theorem findBoom_ne_nil_iff (hand : Hand) (weight : Int) :
    (findBoom m hand.cards weight).1 ≠ [] ↔ BoomBelow (weights hand.cards) weight := by
  have hasc := hand.ascending
  constructor
  · intro hfound
    unfold findBoom at hfound
    split at hfound
    · exact absurd rfl hfound
    · unfold findSame at hfound
      split at hfound
      · exact absurd rfl hfound
      · next i hsome =>
        obtain ⟨⟨htest, hi, hle⟩, -⟩ := find?_forRange_one hsome
        rw [Bool.and_eq_true, decide_eq_true_iff] at htest
        obtain ⟨hsame, hheavy⟩ := htest
        have hweights := weights_slice_of_sameAt hi (by omega) hsame
        have hcount := ((slice_sublist hand.cards i 4).map Card.weight).count_le
          (weightAt hand.cards i)
        rw [← weights, hweights, List.count_replicate_self] at hcount
        have hfour := hand.count_le_four (weightAt hand.cards i)
        -- the card after the four is another one
        have hafter : weightAt hand.cards (i + 4) ≠ weightAt hand.cards i := fun heq =>
          hand.not_sameAt_five hi (by omega) (sameAt_succ.mpr ⟨hsame, heq.symm⟩)
        have hnext := hasc.weightAt_le hi (show i ≤ i + 4 by omega) (by omega)
        refine ⟨weightAt hand.cards i, le_antisymm hfour hcount, hheavy,
          weightAt hand.cards (i + 4), ?_, by omega⟩
        exact List.mem_of_getElem? (@weights_getElem?_pred hand.cards (i + 4) (by omega) (by omega))
  · rintro ⟨v, hcount, hheavy, u, hu, hlt⟩ hnil
    obtain ⟨i, hi, hle, hsame, hvalue⟩ := exists_sameAt hasc (Nat.succ_pos 3) hcount.ge
    -- the heavier card stands after the bomb
    have hinside : i + 4 ≤ hand.cards.length := by
      by_contra hend
      obtain ⟨j, hj⟩ := List.mem_iff_getElem?.mp hu
      obtain ⟨hbound, -⟩ := List.getElem?_eq_some_iff.mp hj
      rw [length_weights] at hbound
      have hread := @weights_getElem? hand.cards j hbound
      rw [hj] at hread
      have hlast := hasc.weightAt_le (show 1 ≤ j + 1 by omega)
        (show j + 1 ≤ i + 3 by omega) (by omega)
      have hthree := (sameAt_succ.mp hsame).2
      have hvalueOf := Option.some.inj hread
      omega
    unfold findBoom at hnil
    rw [if_neg (by omega)] at hnil
    unfold findSame at hnil
    split at hnil
    · next hnone =>
      have hskip := List.find?_eq_none.mp hnone i (mem_forRange_one.mpr ⟨hi, by omega⟩)
      rw [hsame, hvalue] at hskip
      exact hskip (by simpa using hheavy)
    · next j hsome =>
      obtain ⟨⟨-, hj, hjle⟩, -⟩ := find?_forRange_one hsome
      have hlength := congrArg List.length hnil
      unfold slice at hlength
      simp only [List.length_take, List.length_drop, List.length_nil] at hlength
      omega

/-- Without a run of its own kind the reply to a run is a bomb. -/
theorem orBoom_ne_nil_iff (cardType : CardType) (hand : Hand) :
    (orBoom cardType hand.cards ([], m)).1 ≠ [] ↔ BoomBelow (weights hand.cards) (-1) := by
  rw [← @findBoom_ne_nil_iff m hand (-1)]
  unfold orBoom
  simp only [List.length_nil, if_true, findJokerBoom_eq, gt_iff_lt, Nat.lt_irrefl, if_false]
  split
  · next hlength =>
    rw [List.length_eq_zero_iff] at hlength
    simp [hlength]
  · exact Iff.rfl

/-! ## Equal cards and pairs -/

/-- A complete search for equal cards finds them. -/
theorem SameOutcome.ne_nil {k v : Nat} {cards : List Card} {ti : Bool} {found : Found}
    (houtcome : SameOutcome k True m cards weight ti found) (hk : 0 < k)
    (hheavy : Heavy k (weights cards) weight v) : found.1 ≠ [] := by
  rcases houtcome with ⟨w, selects, rfl, -, hweights, -, -⟩ | ⟨-, hnone⟩
  · rintro rfl
    have hlength := congrArg List.length hweights
    rw [List.length_replicate] at hlength
    simp only [weights_nil, List.length_nil] at hlength
    omega
  · exact absurd hheavy (hnone trivial v)

theorem weights_subperm {selects cards : List Card} (h : selects.Subperm cards) :
    (weights selects).Subperm (weights cards) := by
  obtain ⟨middle, hperm, hsub⟩ := h
  exact ⟨weights middle, hperm.map Card.weight, hsub.map Card.weight⟩

/-- A heavier play of `k` equal cards is `k` heavy equal cards of the hand. -/
theorem HasHeavier.heavy {last : Selection} {cardType : CardType} {k : Nat}
    (h : HasHeavier hand last cardType)
    (hplain : cardType ≠ .threeAndOne ∧ cardType ≠ .threeAndTwo)
    (hequal : ∀ ws, Combination cardType ws → ∃ v, ws.Perm (List.replicate k v)) :
    ∃ v, Heavy k (weights hand.cards) (getCardsWeight last.cards cardType) v := by
  obtain ⟨selects, hsub, -, hlegal, -, hheavy⟩ := h
  obtain ⟨v, hperm⟩ := hequal _ hlegal
  have hcount := (weights_subperm hsub).count_le v
  refine ⟨v, ?_, ?_⟩
  · calc k = (List.replicate k v).count v := (List.count_replicate_self).symm
      _ = (weights selects).count v := (hperm.count_eq v).symm
      _ ≤ (weights hand.cards).count v := hcount
  · have hsum : ((weights selects).sum : Nat) = k * v := by
      rw [hperm.sum_eq, sum_replicate_nat]
    rw [@getCardsWeight_eq_sum selects _ hplain, hsum] at hheavy
    push_cast at hheavy
    exact hheavy

/-- Two consecutive pairs are found when there are any that are heavy enough. -/
theorem findTwoDouble_ne_nil {a : Nat} (hace : a + 2 ≤ Weight.one + 1)
    (hfirst : 2 ≤ (weights hand.cards).count a) (hsecond : 2 ≤ (weights hand.cards).count (a + 1))
    (hheavy : weight < (a : Int) * 2 + (a + 1) * 2) :
    (findTwoDouble m hand.cards weight).1 ≠ [] := by
  have hasc := hand.ascending
  obtain ⟨i, hi, hle, hread⟩ :=
    exists_position_of_isInfix (two_blocks_isInfix hasc hfirst hsecond)
  rw [length_blocks] at hle hread
  have hvalue : ∀ r, r < 4 → weightAt hand.cards (i + r) = a + r / 2 := by
    intro r hr
    have hr' := hread r hr
    rw [getElem?_blocks (by omega)] at hr'
    exact (Option.some.inj hr').symm
  have hzero : weightAt hand.cards i = a := hvalue 0 (by omega)
  have hone : weightAt hand.cards (i + 1) = a := hvalue 1 (by omega)
  have htwo : weightAt hand.cards (i + 2) = a + 1 := hvalue 2 (by omega)
  have hthree : weightAt hand.cards (i + 3) = a + 1 := hvalue 3 (by omega)
  have htest : (weightAt hand.cards i == weightAt hand.cards (i + 1) &&
      weightAt hand.cards (i + 2) == weightAt hand.cards (i + 3) &&
      (weightAt hand.cards (i + 2) : Int) - weightAt hand.cards (i + 1) == 1 &&
      (decide (weightAt hand.cards (i + 3) > Weight.one) ||
        decide (weight < (weightAt hand.cards i : Int) * 2 +
          weightAt hand.cards (i + 2) * 2))) = true := by
    simp only [hzero, hone, htwo, hthree, beq_self_eq_true, Bool.true_and, Bool.and_eq_true,
      beq_iff_eq, Bool.or_eq_true, decide_eq_true_eq]
    refine ⟨by push_cast; omega, Or.inr ?_⟩
    push_cast
    exact hheavy
  unfold findTwoDouble
  simp only
  rw [if_neg (by omega)]
  split
  · next hnone =>
    exact absurd htest (List.find?_eq_none.mp hnone i (mem_forRange_one.mpr ⟨hi, by omega⟩))
  · next j hsome =>
    obtain ⟨⟨-, hj, hjle⟩, hleast⟩ := find?_forRange_one hsome
    have hij : j ≤ i := hleast i hi (by omega) htest
    -- the first pairs are not heavier than these, so they are not beyond the ace
    have hlow := hasc.weightAt_le (show 1 ≤ j + 3 by omega) (show j + 3 ≤ i + 3 by omega)
      (by omega)
    rw [if_neg (by simp only [decide_eq_true_eq]; omega)]
    intro hnil
    have hlength := congrArg List.length hnil
    unfold slice at hlength
    simp only [List.length_take, List.length_drop, List.length_nil] at hlength
    omega

/-! ## A triple with other cards -/

theorem ThreeAndOutcome.ne_nil_iff {k count : Nat} {cards : List Card} {found : Found}
    (houtcome : ThreeAndOutcome k count m cards weight found) :
    found.1 ≠ [] ↔ TripleWith k (weights cards) weight := by
  rcases houtcome with ⟨w, x, selects, rfl, -, hweights, hw, hx⟩ | ⟨hnil, -, hnone⟩
  · refine iff_of_true ?_ ⟨w, hw, x, hx.1⟩
    rintro rfl
    simp at hweights
  · refine iff_of_false (fun h => h hnil) ?_
    rintro ⟨w, hw, x, hx⟩
    exact hnone w hw x hx

/-! ## All replies -/

/-- A reply to a run. -/
theorem run_reply_iff {k shortest n : Nat} {last : Selection} {cardType : CardType} (hk : 0 < k)
    (hn : 2 ≤ n) (hshortest : 1 ≤ shortest) (hlong : shortest ≤ k * n) (hfive : 5 ≤ k * n)
    (hplain : cardType ≠ .threeAndOne ∧ cardType ≠ .threeAndTwo)
    (hlength : last.cards.length = k * n) :
    (orBoom cardType hand.cards (findRun k shortest m hand.cards
      (getCardsWeight last.cards cardType) last.cards.length)).1 ≠ [] ↔
        BoomBelow (weights hand.cards) (-1) := by
  rw [findRun_eq_nil hk hn hshortest hlong hfive hplain hlength]
  exact orBoom_ne_nil_iff cardType hand

/-- When the hand allows a reply to a legal play, the computer player replies
exactly when its search sees one. -/
theorem reply_iff (m : ComputerAI) (hand : Hand) (last : Selection) (cardType : CardType)
    (legal : Combination cardType (weights last.cards)) (hcan : CanReply hand last cardType) :
    (choose m hand.cards (.replying last cardType legal)).cardList ≠ [] ↔
      Sees (weights hand.cards) (getCardsWeight last.cards cardType) cardType := by
  have hasc := hand.ascending
  -- without a bomb to fall back to there is a heavier play
  have hheavier : ¬ cardType.fallsBackToBoom → ¬ cardType.fallsBackToJokerBoom →
      HasHeavier hand last cardType := by
    intro hboom hjoker
    exact hcan.resolve_right fun h => h.elim (fun h => hboom h.1) (fun h => hjoker h.1)
  cases cardType with
  | none => exact legal.elim
  | single =>
      refine iff_of_true ?_ trivial
      obtain ⟨v, hv⟩ := (hheavier id id).heavy (k := 1) (by simp) fun ws h => h
      exact (findSingle_cases hasc).ne_nil Nat.one_pos hv
  | double =>
      refine iff_of_true ?_ trivial
      obtain ⟨v, hv⟩ := (hheavier id id).heavy (k := 2) (by simp) fun ws h => h
      exact (findDouble_cases hasc).ne_nil Nat.two_pos hv
  | three =>
      refine iff_of_true ?_ trivial
      obtain ⟨v, hv⟩ := (hheavier id id).heavy (k := 3) (by simp) fun ws h => h
      exact (findThree_cases hasc).ne_nil (Nat.succ_pos 2) hv
  | twoDouble =>
      refine iff_of_true ?_ trivial
      obtain ⟨selects, hsub, -, ⟨a, hace, hperm⟩, -, hheavy⟩ := hheavier id id
      have hcount : ∀ v, a ≤ v → v < a + 2 → 2 ≤ (weights hand.cards).count v := by
        intro v hlow hhigh
        rw [← count_blocks (k := 2) hlow hhigh, ← hperm.count_eq v]
        exact (weights_subperm hsub).count_le v
      have hsum : (weights selects).sum = a * 2 + (a + 1) * 2 := by
        rw [hperm.sum_eq]
        simp [blocks_succ]
        omega
      rw [@getCardsWeight_eq_sum selects _ (by simp), hsum] at hheavy
      push_cast at hheavy
      exact findTwoDouble_ne_nil hace (hcount a le_rfl (by omega))
        (hcount (a + 1) (by omega) (by omega)) hheavy
  | straight =>
      obtain ⟨a, n, hlow, -, -, hperm⟩ := id legal
      have hlength : last.cards.length = 1 * n := by simpa using length_of_weights_perm hperm
      exact run_reply_iff Nat.one_pos (by omega) (by omega) (by omega) (by omega) (by simp) hlength
  | doubleStraight =>
      obtain ⟨a, n, hlow, -, hperm⟩ := id legal
      have hlength : last.cards.length = 2 * n := by simpa using length_of_weights_perm hperm
      exact run_reply_iff Nat.two_pos (by omega) (by omega) (by omega) (by omega) (by simp) hlength
  | tripleStraight =>
      obtain ⟨a, n, hlow, -, hperm⟩ := id legal
      have hlength : last.cards.length = 3 * n := by simpa using length_of_weights_perm hperm
      exact run_reply_iff (Nat.succ_pos 2) (by omega) (by omega) (by omega) (by omega) (by simp)
        hlength
  | threeAndOne => exact (findThreeAndOne_cases hasc).ne_nil_iff
  | threeAndTwo => exact (findThreeAndTwo_cases hasc).ne_nil_iff
  | boom =>
      refine Iff.trans ?_ (@findBoom_ne_nil_iff (m.cleared .boom) hand _)
      show (selectCardType (m.cleared .boom) .boom hand.cards _ _).1 ≠ [] ↔ _
      unfold selectCardType
      dsimp only
      split
      · next hlength =>
        rw [List.length_eq_zero_iff] at hlength
        simp [findJokerBoom_eq, hlength]
      · exact Iff.rfl
  | jokerBoom =>
      -- there is only one joker bomb
      obtain ⟨selects, -, -, hperm, -, hheavy⟩ := hheavier id id
      have hsame : (weights selects).sum = (weights last.cards).sum :=
        (hperm.trans legal.symm).sum_eq
      rw [getCardsWeight_eq_sum (by simp), getCardsWeight_eq_sum (by simp), hsame] at hheavy
      exact absurd hheavy (lt_irrefl _)

/-! ## A longer straight that is not found -/

/-- The hearts from three to seven. -/
def lowHearts : Selection where
  cards := [⟨.heart, 3⟩, ⟨.heart, 4⟩, ⟨.heart, 5⟩, ⟨.heart, 6⟩, ⟨.heart, 7⟩]
  inLibrary := by decide
  nodup := by decide
  ascending := by decide
  nonempty := by decide
  atMost := by decide

/-- The clubs from four to eight. -/
def nextClubs : Hand where
  cards := [⟨.club, 4⟩, ⟨.club, 5⟩, ⟨.club, 6⟩, ⟨.club, 7⟩, ⟨.club, 8⟩]
  inLibrary := by decide
  nodup := by decide
  ascending := by decide

theorem lowHearts_straight : Combination .straight (weights lowHearts.cards) :=
  ⟨3, 5, by decide, by decide, by decide, List.Perm.refl _⟩

theorem canReply_nextClubs : CanReply nextClubs lowHearts .straight :=
  Or.inl ⟨nextClubs.cards, List.Subperm.refl _, nextClubs.ascending,
    ⟨4, 5, by decide, by decide, by decide, List.Perm.refl _⟩, rfl, by decide⟩

theorem reply_nextClubs :
    (choose {} nextClubs.cards (.replying lowHearts .straight lowHearts_straight)).cardList ≠ [] ↔
      Sees (weights nextClubs.cards) (getCardsWeight lowHearts.cards .straight) .straight :=
  reply_iff {} nextClubs lowHearts .straight lowHearts_straight canReply_nextClubs

/-- The clubs go over the hearts, but nothing is chosen. -/
theorem not_reply_nextClubs :
    CanReply nextClubs lowHearts .straight ∧
      (choose {} nextClubs.cards
        (.replying lowHearts .straight lowHearts_straight)).cardList = [] :=
  ⟨canReply_nextClubs, by decide⟩

end Landlord
end ArmyRs
