import ArmyRs.Landlord.ComputerAILead

/-!
# The choice of the computer player against the ruler

The computer player never asks the ruler.  `choiceSound_iff` compares the two:
a choice is a legal play, recorded as what it is, and beats the last play,
except in two kinds of situation.

* The single that completes a triple is searched in the rest of the hand
  without excluding the weight of the triple, so the fourth card of that weight
  can be taken (`TakesFourth`): a bomb is then played as a triple with one.
* A leading computer player looks for straights of twelve cards, which the
  ruler refuses.
-/

namespace ArmyRs
namespace Landlord

open Foundation

/-- The table when a computer player has to choose.  A leading player is asked
with whatever the table last recorded; otherwise there is a legal last play. -/
inductive Situation
  | leading (cardType : CardType) (weight : Int) (length : Nat)
  | replying (last : Selection) (cardType : CardType)
      (legal : Combination cardType (weights last.cards))

/-- The play a selection of known type makes. -/
def playOf (cards : List Card) (cardType : CardType) : Play :=
  ⟨cardType, getCardsWeight cards cardType, cards.length⟩

/-- The call of `smartSelectCards` in a situation. -/
def choose (m : ComputerAI) (cards : List Card) : Situation → ComputerAI
  | .leading cardType weight length => smartSelectCards m cards cardType weight length true
  | .replying last cardType _ =>
      smartSelectCards m cards cardType (getCardsWeight last.cards cardType) last.cards.length
        false

/-- A play is good enough in a situation: a reply has to beat the last play. -/
def Situation.BeatenBy : Situation → Play → Prop
  | .leading _ _ _, _ => True
  | .replying last cardType _, play => Beats play (playOf last.cards cardType)

/-- What is asked of a non-empty choice: cards of the hand, accepted by the
ruler as the recorded type, recorded with their own weight and number, and
beating the last play. -/
def ChoiceSound (m : ComputerAI) (hand : Hand) (situation : Situation) : Prop :=
  (choose m hand.cards situation).cardList ≠ [] →
    (choose m hand.cards situation).cardList.Subperm hand.cards ∧
    (∀ sorted : List Card, sorted.Perm (choose m hand.cards situation).cardList →
      Ascending sorted →
      (∀ pairs : List Rule → List Rule, (∀ rules, (pairs rules).Perm rules) →
        canPopWith pairs sorted = .accepted (choose m hand.cards situation).curType) ∧
      (choose m hand.cards situation).curWeight =
        getCardsWeight sorted (choose m hand.cards situation).curType ∧
      (choose m hand.cards situation).curLength = sorted.length) ∧
    situation.BeatenBy ⟨(choose m hand.cards situation).curType,
      (choose m hand.cards situation).curWeight, (choose m hand.cards situation).curLength⟩

/-- Above `weight`, the least triple and the least single card both have weight
`w`, and there are four cards of it. -/
def TakesFourth (w : Nat) (ws : List Nat) (weight : Int) : Prop :=
  ws.count w = 4 ∧ weight < w ∧ (∀ x ∈ ws, weight < (x : Nat) → w ≤ x) ∧
    ∀ v, v < w → 3 ≤ ws.count v → (3 * v : Int) ≤ weight

/-- The situations in which the choice goes wrong. -/
def Misplays (ws : List Nat) : Situation → Prop
  | .leading _ _ _ =>
      blocks 1 Weight.three 12 <:+: ws ∨
      ((∀ a, a + 5 ≤ Weight.one + 1 → ¬ blocks 1 a 5 <:+: ws) ∧
        ∃ w, TakesFourth w ws 8 ∧ ∀ y, y ≠ w → 5 ≤ y → ws.count y ≤ 1)
  | .replying last cardType _ =>
      cardType = .threeAndOne ∧ ∃ w, TakesFourth w ws (getCardsWeight last.cards cardType)

/-! ## The fourth card -/

/-- The fourth card is taken exactly when it is both the least triple and the
least single card beside it. -/
theorem takesFourth_iff (hand : Hand) (w : Nat) (weight : Int) :
    TakesFourth w (weights hand.cards) weight ↔
      LeastHeavy 3 (weights hand.cards) weight w ∧
        LeastHeavy 1 (withoutThree w (weights hand.cards)) weight w := by
  have hrest := fun v => count_withoutThree w v (weights hand.cards)
  constructor
  · rintro ⟨hfour, hheavy, hleast, htriple⟩
    refine ⟨⟨⟨by omega, by push_cast; omega⟩, fun u hu => ?_⟩,
      ⟨⟨by rw [hrest, if_pos rfl]; omega, by push_cast; omega⟩, fun u hu => ?_⟩⟩
    · by_contra hlt
      have hbound := htriple u (by omega) hu.1
      have habove := hu.2
      push_cast at habove
      omega
    · have hcount := hu.1
      rw [hrest] at hcount
      have habove := hu.2
      push_cast at habove
      exact hleast u (List.count_pos_iff.mp (by omega)) (by omega)
  · rintro ⟨hthree, hone⟩
    have hcount := hone.1.1
    rw [hrest, if_pos rfl] at hcount
    have hfour := hand.count_le_four w
    have habove := hone.1.2
    push_cast at habove
    refine ⟨by omega, by omega, fun x hx hlt => ?_, fun v hlt hv => ?_⟩
    · by_cases hxw : w = x
      · omega
      · refine hone.2 x ⟨?_, by push_cast; omega⟩
        rw [hrest, if_neg hxw]
        exact List.count_pos_iff.mpr hx
    · by_contra hbound
      have := hthree.2 v ⟨hv, by push_cast; omega⟩
      omega

/-- Four equal cards are no triple with one. -/
theorem not_threeAndOne_of_four {w : Nat} : ¬ Combination .threeAndOne [w, w, w, w] := by
  rintro ⟨v, x, hne, hperm⟩
  have hall : ∀ u ∈ [v, v, v, x], u = w := by
    intro u hu
    have hmem := hperm.mem_iff.mpr hu
    simpa using hmem
  have hv := hall v (by simp)
  have hx := hall x (by simp)
  omega

/-! ## Runs and the fourth card -/

theorem le_count_of_isInfix {k a n v : Nat} {ws : List Nat} (h : blocks k a n <:+: ws)
    (hlow : a ≤ v) (hhigh : v < a + n) : k ≤ ws.count v := by
  have hcount := h.sublist.count_le v
  rwa [count_blocks hlow hhigh] at hcount

/-- A run of a hand starts at a three at the earliest. -/
theorem Hand.three_le_of_isInfix {hand : Hand} {k a n : Nat} (hk : 0 < k) (hn : 0 < n)
    (h : blocks k a n <:+: weights hand.cards) : Weight.three ≤ a := by
  refine (hand.weight_bounds (h.subset ?_)).1
  rw [mem_blocks hk]
  omega

/-- Between the ends of a straight in neighbouring positions every weight
stands once. -/
theorem count_eq_one_of_straight {ws : List Nat} {a n v : Nat} (hws : ws.Pairwise (· ≤ ·))
    (h : blocks 1 a n <:+: ws) (hlow : a < v) (hhigh : v + 1 < a + n) : ws.count v = 1 := by
  obtain ⟨pre, post, rfl⟩ := h
  rw [List.pairwise_append, List.pairwise_append] at hws
  obtain ⟨⟨-, -, hpre⟩, -, hpost⟩ := hws
  have hmem : ∀ u, u ∈ blocks 1 a n ↔ a ≤ u ∧ u < a + n := fun u => mem_blocks Nat.one_pos
  have hnotPre : v ∉ pre := by
    intro hv
    have := hpre v hv a ((hmem a).mpr (by omega))
    omega
  have hnotPost : v ∉ post := by
    intro hv
    have := hpost (a + n - 1) (List.mem_append_right _ ((hmem _).mpr (by omega))) v hv
    omega
  rw [List.count_append, List.count_append, List.count_eq_zero_of_not_mem hnotPre,
    List.count_eq_zero_of_not_mem hnotPost, count_blocks (by omega) (by omega)]

/-- A hand with the straight from three to ace has no run of pairs or triples. -/
theorem no_groups_of_fullStraight {hand : Hand} {k a n : Nat}
    (hfull : blocks 1 Weight.three 12 <:+: weights hand.cards)
    (hk : (k = 3 ∧ 2 ≤ n) ∨ (k = 2 ∧ 3 ≤ n)) (hace : a + n ≤ Weight.one + 1) :
    ¬ blocks k a n <:+: weights hand.cards := by
  intro hisInfix
  have hlow := Hand.three_le_of_isInfix (by omega) (by omega) hisInfix
  simp only [Weight.one, Weight.three] at hace hlow
  have hcount : ∀ v, a ≤ v → v < a + n → 3 < v → v < 14 → False := by
    intro v hv hvn hv3 hv14
    have hone := count_eq_one_of_straight hand.ascending hfull
      (show Weight.three < v from hv3) (by simp only [Weight.three]; omega)
    have hgroup := le_count_of_isInfix hisInfix hv hvn
    omega
  rcases Nat.lt_or_ge 3 a with hgt | hle
  · exact hcount a le_rfl (by omega) hgt (by omega)
  · exact hcount (a + 1) (by omega) (by omega) (by omega) (by omega)

/-- Nor has a hand whose only weight from five on that stands twice is that of
the four cards. -/
theorem no_groups_of_takesFourth {hand : Hand} {k a n w : Nat}
    (hfour : TakesFourth w (weights hand.cards) 8)
    (hrare : ∀ y, y ≠ w → 5 ≤ y → (weights hand.cards).count y ≤ 1)
    (hk : (k = 3 ∧ 2 ≤ n) ∨ (k = 2 ∧ 3 ≤ n)) :
    ¬ blocks k a n <:+: weights hand.cards := by
  intro hisInfix
  have hlow := Hand.three_le_of_isInfix (by omega) (by omega) hisInfix
  simp only [Weight.three] at hlow
  obtain ⟨-, hw, -, htriple⟩ := hfour
  have hcount : ∀ v, a ≤ v → v < a + n → k ≤ (weights hand.cards).count v :=
    fun v hv hvn => le_count_of_isInfix hisInfix hv hvn
  have hno : ∀ v, a ≤ v → v < a + n → v ≠ w → 5 ≤ v → False := by
    intro v hv hvn hne hfive
    have h₁ := hcount v hv hvn
    have h₂ := hrare v hne hfive
    omega
  rcases hk with ⟨rfl, hn⟩ | ⟨rfl, hn⟩
  · -- of two neighbouring triples one is below the four cards or beside them
    by_cases hnext : a + 1 = w
    · exact hno a le_rfl (by omega) (by omega) (by omega)
    · by_cases hfive : 5 ≤ a + 1
      · exact hno (a + 1) (by omega) (by omega) hnext hfive
      · have hbound := htriple a (by omega) (hcount a le_rfl (by omega))
        omega
  · by_cases hlast : a + 2 = w
    · exact hno (a + 1) (by omega) (by omega) (by omega) (by omega)
    · exact hno (a + 2) (by omega) (by omega) hlast (by omega)

/-- Then no triple heavier than any of the bounds has a pair beside it. -/
theorem noTriple_two_of_takesFourth {ws : List Nat} {w : Nat} {weight : Int}
    (hweight : 8 ≤ weight) (hfour : TakesFourth w ws 8)
    (hrare : ∀ y, y ≠ w → 5 ≤ y → ws.count y ≤ 1) : NoTriple 2 ws weight := by
  intro v hv x hx
  obtain ⟨hcount, hw, -, htriple⟩ := hfour
  have hvcount := hv.1.1
  have hvheavy := hv.1.2
  have hxcount := hx.1
  have hxheavy := hx.2
  push_cast at hvheavy hxheavy
  rw [count_withoutThree] at hxcount
  have hvw : v = w := by
    by_contra hne
    by_cases hfive : 5 ≤ v
    · have := hrare v hne hfive
      omega
    · have := htriple v (by omega) hvcount
      omega
  subst hvw
  by_cases hxv : v = x
  · rw [if_pos hxv, ← hxv] at hxcount
    omega
  · rw [if_neg hxv] at hxcount
    have := hrare x (fun h => hxv h.symm) (by omega)
    omega

/-! ## Sound and unsound choices -/

/-- A search result that makes a sound choice: nothing, or a pick the ruler
accepts and the situation allows. -/
def Answers (hand : Hand) (situation : Situation) (found : Found) : Prop :=
  found.1 = [] ∨
  ∃ cardType, Picked hand.cards found cardType ∧ found.1.length ≤ 20 ∧
    ¬ (cardType = .straight ∧ found.1.length = 12) ∧
    situation.BeatenBy ⟨cardType, found.2.curWeight, found.2.curLength⟩

theorem choiceSound_of_answers {m : ComputerAI} {hand : Hand} {situation : Situation}
    {found : Found} (h : Answers hand situation found)
    (hchoose : choose m hand.cards situation = { found.2 with cardList := found.1 }) :
    ChoiceSound m hand situation := by
  intro hne
  rw [hchoose] at hne ⊢
  rcases h with hnil | ⟨cardType, hpicked, hatMost, hshort, hbeats⟩
  · exact absurd hnil hne
  · refine ⟨hpicked.subperm, fun sorted hperm hasc => ⟨fun pairs hpairs => ?_, ?_, ?_⟩, ?_⟩
    · simp only [hpicked.curType]
      exact (hpicked.accepted_iff hatMost hperm hasc hpairs).mpr hshort
    · simp only [hpicked.curType]
      exact hpicked.curWeight sorted hperm hasc
    · simp only [hpicked.curLength, hperm.length_eq]
    · simp only [hpicked.curType]
      exact hbeats

/-- Four equal cards recorded as a triple with one are not a sound choice. -/
theorem not_choiceSound_of_four {m : ComputerAI} {hand : Hand} {situation : Situation}
    {found : Found} {w : Nat}
    (hchoose : choose m hand.cards situation = { found.2 with cardList := found.1 })
    (htype : found.2.curType = .threeAndOne) (hweights : weights found.1 = [w, w, w, w]) :
    ¬ ChoiceSound m hand situation := by
  intro hsound
  have hasc : Ascending found.1 := by
    unfold Ascending
    rw [hweights]
    simp
  have hne : found.1 ≠ [] := by
    intro hnil
    rw [hnil] at hweights
    exact absurd hweights (by simp)
  unfold ChoiceSound at hsound
  rw [hchoose] at hsound
  have haccepted := ((hsound hne).2.1 found.1 (List.Perm.refl _) hasc).1 id
    (fun _ => List.Perm.refl _)
  simp only [htype] at haccepted
  obtain ⟨rules, -, -, hholds⟩ :=
    (canPopWith_accepted_iff hasc (fun _ => List.Perm.refl _) _).mp haccepted
  have hlegal := (isThreeAndOne_iff hasc).mp hholds
  rw [hweights] at hlegal
  exact not_threeAndOne_of_four hlegal

/-- Nor is a straight of twelve cards. -/
theorem not_choiceSound_of_straight {m : ComputerAI} {hand : Hand} {situation : Situation}
    {found : Found}
    (hchoose : choose m hand.cards situation = { found.2 with cardList := found.1 })
    (hpicked : Picked hand.cards found .straight) (hlength : found.1.length = 12) :
    ¬ ChoiceSound m hand situation := by
  intro hsound
  obtain ⟨a, n, -, -, -, hperm⟩ := hpicked.legal
  -- the ruler is asked about the sorted selection
  have hsorted : (found.1.mergeSort fun c d => decide (c.weight ≤ d.weight)).Perm found.1 :=
    List.mergeSort_perm _ _
  have hasc : Ascending (found.1.mergeSort fun c d => decide (c.weight ≤ d.weight)) := by
    have hpairwise : (found.1.mergeSort fun c d => decide (c.weight ≤ d.weight)).Pairwise
        fun c d => decide (c.weight ≤ d.weight) = true :=
      List.pairwise_mergeSort (by simp only [decide_eq_true_eq]; omega)
        (by simp only [Bool.or_eq_true, decide_eq_true_eq]; omega) found.1
    exact List.pairwise_map.mpr (hpairwise.imp (by simp))
  have hne : found.1 ≠ [] := List.ne_nil_of_length_pos (by omega)
  unfold ChoiceSound at hsound
  rw [hchoose] at hsound
  have haccepted := ((hsound hne).2.1 _ hsorted hasc).1 id (fun _ => List.Perm.refl _)
  simp only [hpicked.curType] at haccepted
  exact (hpicked.accepted_iff (by omega) hsorted hasc (fun _ => List.Perm.refl _)).mp haccepted
    ⟨rfl, hlength⟩

/-! ## Replying -/

section Replying

variable {hand : Hand} {last : Selection} {cardType : CardType}
  {legal : Combination cardType (weights last.cards)} {m : ComputerAI} {found : Found}

/-- A heavier pick of the type and size of the last play answers it. -/
theorem PickOutcome.answers {k : Nat}
    (h : PickOutcome hand.cards cardType k (getCardsWeight last.cards cardType) m found)
    (htype : m.curType = cardType) (hsize : cardType.size? = some k) (hk : k ≤ 20) :
    Answers hand (.replying last cardType legal) found := by
  rcases h with rfl | ⟨-, hlength, hheavy, hkeep, hpicked⟩
  · exact Or.inl rfl
  · have hpick := hpicked found.2 (hkeep.trans htype) rfl rfl
    refine Or.inr ⟨cardType, hpick, by omega, ?_, Or.inr (Or.inr ⟨rfl, ?_, hheavy⟩)⟩
    · rintro ⟨rfl, -⟩
      cases hsize
    · show found.2.curLength = (last.cards.length : Int)
      rw [hpick.curLength, hlength, legal.length_eq hsize]

/-- A bomb answers every play that is not a bomb. -/
theorem findBoom_answers (hboom : cardType ≠ .boom) (hjoker : cardType ≠ .jokerBoom) :
    (findBoom m hand.cards (-1)).1 = [] ∨
      Answers hand (.replying last cardType legal)
        ((findBoom m hand.cards (-1)).1,
          { (findBoom m hand.cards (-1)).2 with curType := .boom }) := by
  rcases (@findBoom_cases m hand.cards (-1) hand.ascending).picked (Nat.succ_pos 3) (by simp)
    combination_boom with heq | ⟨-, hlength, -, -, hpicked⟩
  · rw [heq]
    exact Or.inl rfl
  · refine Or.inr (Or.inr ⟨.boom, hpicked _ rfl rfl rfl, by simp only; omega, by simp, ?_⟩)
    exact Or.inr (Or.inl ⟨rfl, hboom, hjoker⟩)

/-- The search for a longer run of the same kind compares a single weight with
the weight of the whole last play, and so never finds one. -/
theorem findRun_eq_nil {k shortest n : Nat} (hk : 0 < k) (hn : 2 ≤ n) (hshortest : 1 ≤ shortest)
    (hlong : shortest ≤ k * n) (hfive : 5 ≤ k * n)
    (hplain : cardType ≠ .threeAndOne ∧ cardType ≠ .threeAndTwo)
    (hlength : last.cards.length = k * n) :
    findRun k shortest m hand.cards (getCardsWeight last.cards cardType) last.cards.length =
      ([], m) := by
  have hweight : 3 * (k * n) ≤ (weights last.cards).sum := by
    have hsum := List.card_nsmul_le_sum (weights last.cards) 3
      (fun w hw => (last.toHand.weight_bounds hw).1)
    rw [length_weights, hlength, smul_eq_mul] at hsum
    omega
  rw [hlength]
  rcases @findRun_cases k shortest n m hand.cards (getCardsWeight last.cards cardType) hk hn
    hshortest hlong with ⟨a, selects, -, -, -, hace, -, hheavy⟩ | ⟨heq, -⟩
  · -- a run of `n` groups starts at most at `15 - n`
    rw [getCardsWeight_eq_sum hplain] at hheavy
    simp only [Weight.one] at hace
    omega
  · exact heq

/-- Without a run of its own kind the computer player answers a run with a
bomb or not at all. -/
theorem orBoom_answers (hboom : cardType ≠ .boom) (hjoker : cardType ≠ .jokerBoom) :
    Answers hand (.replying last cardType legal) (orBoom cardType hand.cards ([], m)) := by
  unfold orBoom
  simp only [List.length_nil, if_true, findJokerBoom_eq, gt_iff_lt, Nat.lt_irrefl, if_false]
  rcases @findBoom_answers hand last cardType legal m hboom hjoker with hnil | hanswers
  · rw [hnil]
    exact Or.inl rfl
  · split
    · exact Or.inl rfl
    · exact hanswers

end Replying

/-- A reply with a triple and one card is sound exactly when it does not take
the fourth card. -/
theorem choiceSound_threeAndOne_iff (m : ComputerAI) (hand : Hand) (last : Selection)
    (legal : Combination .threeAndOne (weights last.cards)) :
    ChoiceSound m hand (.replying last .threeAndOne legal) ↔
      ¬ ∃ w, TakesFourth w (weights hand.cards) (getCardsWeight last.cards .threeAndOne) := by
  have hchoose : choose m hand.cards (.replying last .threeAndOne legal) =
      { (findThreeAndOne (m.cleared .threeAndOne) hand.cards
          (getCardsWeight last.cards .threeAndOne)).2 with
        cardList := (findThreeAndOne (m.cleared .threeAndOne) hand.cards
          (getCardsWeight last.cards .threeAndOne)).1 } := rfl
  rcases @findThreeAndOne_cases (m.cleared .threeAndOne) hand.cards
      (getCardsWeight last.cards .threeAndOne) hand.ascending with
    ⟨w, x, selects, heq, hsub, hweights, hw, hx⟩ | ⟨hnil, -, hnone⟩
  · rw [heq] at hchoose
    by_cases hxw : x = w
    · subst hxw
      refine iff_of_false (not_choiceSound_of_four hchoose rfl hweights) (not_not_intro ?_)
      exact ⟨x, (takesFourth_iff hand x _).mpr ⟨hw, hx⟩⟩
    · refine iff_of_true (choiceSound_of_answers ?_ hchoose) ?_
      · have hlength : selects.length = 4 := by rw [← length_weights, hweights]; rfl
        have hperm : (weights selects).Perm [w, w, w, x] := by rw [hweights]; rfl
        refine Or.inr ⟨.threeAndOne, ⟨hsub, ⟨w, x, hxw, hperm⟩, rfl, ?_, by simp [hlength]⟩,
          by simp only; omega, by simp, Or.inr (Or.inr ⟨rfl, ?_, ?_⟩)⟩
        · intro sorted hsorted hasc
          rw [getCardsWeight_threeAndOne hasc hxw ((hsorted.map _).trans hperm)]
          simp [ComputerAI.cleared]
        · show (4 : Int) = (last.cards.length : Int)
          rw [legal.length_eq rfl]
          rfl
        · have hheavy := hw.1.2
          show getCardsWeight last.cards .threeAndOne < 0 + 3 * (w : Int)
          push_cast at hheavy
          omega
      · rintro ⟨v, hv⟩
        obtain ⟨hthree, hone⟩ := (takesFourth_iff hand v _).mp hv
        rw [hw.eq hthree] at hx hxw
        exact hxw (hx.eq hone)
  · refine iff_of_true (choiceSound_of_answers (Or.inl hnil) hchoose) ?_
    rintro ⟨v, hv⟩
    obtain ⟨hthree, hone⟩ := (takesFourth_iff hand v _).mp hv
    exact hnone v hthree v hone.1

/-- A triple with a pair is always recorded as what it is. -/
theorem findThreeAndTwo_picked {hand : Hand} {m : ComputerAI} {weight : Int}
    (htype : m.curType = .threeAndTwo) (hm : m.curWeight = 0) :
    (findThreeAndTwo m hand.cards weight).1 = [] ∨
      (Picked hand.cards (findThreeAndTwo m hand.cards weight) .threeAndTwo ∧
        (findThreeAndTwo m hand.cards weight).1.length = 5 ∧
        weight < (findThreeAndTwo m hand.cards weight).2.curWeight) := by
  rcases @findThreeAndTwo_cases m hand.cards weight hand.ascending with
    ⟨w, x, selects, heq, hsub, hweights, hw, hx⟩ | ⟨hnil, -, -⟩
  · have hne := Hand.pair_ne_triple hx.1
    have hlength : selects.length = 5 := by rw [← length_weights, hweights]; rfl
    have hperm : (weights selects).Perm [w, w, w, x, x] := by rw [hweights]; rfl
    have hheavy := hw.1.2
    push_cast at hheavy
    rw [heq]
    refine Or.inr ⟨⟨hsub, ⟨w, x, hne, hperm⟩, htype, ?_, by simp [hlength]⟩, hlength, ?_⟩
    · intro sorted hsorted hasc
      rw [getCardsWeight_threeAndTwo hasc hne ((hsorted.map _).trans hperm)]
      simp [hm]
    · simp only [hm]
      omega
  · exact Or.inl hnil

theorem choiceSound_threeAndTwo (m : ComputerAI) (hand : Hand) (last : Selection)
    (legal : Combination .threeAndTwo (weights last.cards)) :
    ChoiceSound m hand (.replying last .threeAndTwo legal) := by
  refine @choiceSound_of_answers _ _ _ (findThreeAndTwo (m.cleared .threeAndTwo) hand.cards
    (getCardsWeight last.cards .threeAndTwo)) ?_ rfl
  rcases @findThreeAndTwo_picked hand (m.cleared .threeAndTwo)
      (getCardsWeight last.cards .threeAndTwo) rfl rfl with hnil | ⟨hpicked, hlength, hheavy⟩
  · exact Or.inl hnil
  · refine Or.inr ⟨.threeAndTwo, hpicked, by omega, by simp, Or.inr (Or.inr ⟨rfl, ?_, hheavy⟩)⟩
    show (findThreeAndTwo (m.cleared .threeAndTwo) hand.cards _).2.curLength =
      (last.cards.length : Int)
    rw [hpicked.curLength, hlength, legal.length_eq rfl]

/-- Every other reply is sound. -/
theorem choiceSound_reply (m : ComputerAI) (hand : Hand) (last : Selection) (cardType : CardType)
    (legal : Combination cardType (weights last.cards)) (hne : cardType ≠ .threeAndOne) :
    ChoiceSound m hand (.replying last cardType legal) := by
  have hasc := hand.ascending
  cases cardType with
  | none => exact legal.elim
  | single =>
      refine choiceSound_of_answers ?_ rfl
      exact ((findSingle_cases hasc).picked Nat.one_pos (by simp) combination_single).answers
        rfl rfl (by omega)
  | double =>
      refine choiceSound_of_answers ?_ rfl
      exact ((findDouble_cases hasc).picked Nat.two_pos (by simp) combination_double).answers
        rfl rfl (by omega)
  | twoDouble =>
      refine choiceSound_of_answers ?_ rfl
      exact findTwoDouble_picked.answers rfl rfl (by omega)
  | straight =>
      obtain ⟨a, n, hlow, hhigh, hace, hperm⟩ := id legal
      have hlength : last.cards.length = 1 * n := by simpa using length_of_weights_perm hperm
      refine choiceSound_of_answers ?_ rfl
      simp only [selectCardType, findStraight, Bool.false_eq_true, if_false]
      rw [findRun_eq_nil Nat.one_pos (by omega) (by omega) (by omega) (by omega) (by simp) hlength]
      exact orBoom_answers (by simp) (by simp)
  | doubleStraight =>
      obtain ⟨a, n, hlow, hace, hperm⟩ := id legal
      have hlength : last.cards.length = 2 * n := by simpa using length_of_weights_perm hperm
      refine choiceSound_of_answers ?_ rfl
      simp only [selectCardType, findDoubleStraight, Bool.false_eq_true, if_false]
      rw [findRun_eq_nil Nat.two_pos (by omega) (by omega) (by omega) (by omega) (by simp) hlength]
      exact orBoom_answers (by simp) (by simp)
  | tripleStraight =>
      obtain ⟨a, n, hlow, hace, hperm⟩ := id legal
      have hlength : last.cards.length = 3 * n := by simpa using length_of_weights_perm hperm
      refine choiceSound_of_answers ?_ rfl
      simp only [selectCardType, findTripleStraight, Bool.false_eq_true, if_false]
      rw [findRun_eq_nil (Nat.succ_pos 2) (by omega) (by omega) (by omega) (by omega) (by simp)
        hlength]
      exact orBoom_answers (by simp) (by simp)
  | three =>
      refine choiceSound_of_answers ?_ rfl
      exact ((findThree_cases hasc).picked (Nat.succ_pos 2) (by simp) combination_three).answers
        rfl rfl (by omega)
  | threeAndOne => exact absurd rfl hne
  | threeAndTwo => exact choiceSound_threeAndTwo m hand last legal
  | boom =>
      refine choiceSound_of_answers ?_ rfl
      simp only [selectCardType, Bool.false_eq_true, if_false, findJokerBoom_eq]
      split
      · exact Or.inl rfl
      · exact ((findBoom_cases hasc).picked (Nat.succ_pos 3) (by simp) combination_boom).answers
          rfl rfl (by omega)
  | jokerBoom => exact choiceSound_of_answers (Or.inl rfl) rfl

/-! ## Leading -/

/-- A run of five or more cards begins with a run of five. -/
theorem straight_five_of_isInfix {ws : List Nat} {a n : Nat} (hn : 5 ≤ n)
    (h : blocks 1 a n <:+: ws) : blocks 1 a 5 <:+: ws := by
  obtain ⟨m, rfl⟩ : ∃ m, n = 5 + m := ⟨n - 5, by omega⟩
  rw [blocks_append] at h
  exact (List.prefix_append _ _).isInfix.trans h

theorem Heavy.exists_least {k v : Nat} {ws : List Nat} {weight : Int}
    (h : Heavy k ws weight v) : ∃ u, LeastHeavy k ws weight u := by
  classical
  have hex : ∃ u, Heavy k ws weight u := ⟨v, h⟩
  exact ⟨Nat.find hex, Nat.find_spec hex, fun u hu => Nat.find_min' hex hu⟩

/-- When a higher bound makes the search take the fourth card, the lowest bound
already finds some triple with a card. -/
theorem noTriple_absurd {ws : List Nat} {bound : Int} {w : Nat} (hbound : 9 ≤ bound)
    (hw : LeastHeavy 3 ws (bound - 1) w) (hx : LeastHeavy 1 (withoutThree w ws) (bound - 1) w)
    (hnone : NoTriple 1 ws 8) : False := by
  have hwcount := hw.1.1
  have hxcount := hx.1.1
  have hxheavy := hx.1.2
  push_cast at hxheavy
  have hheavy : Heavy 3 ws 8 w := ⟨hwcount, by push_cast; omega⟩
  obtain ⟨v, hv⟩ := hheavy.exists_least
  refine hnone v hv w ⟨?_, by push_cast; omega⟩
  by_cases hvw : v = w
  · rw [hvw]
    exact hxcount
  · rw [count_withoutThree, if_neg hvw]
    omega

/-- A leading choice is sound exactly when the hand neither has the straight
from three to ace in neighbouring positions nor makes the search for a triple
with one card take the fourth card. -/
theorem choiceSound_leading_iff (m : ComputerAI) (hand : Hand) (cardType : CardType)
    (weight : Int) (length : Nat) :
    ChoiceSound m hand (.leading cardType weight length) ↔
      ¬ Misplays (weights hand.cards) (.leading cardType weight length) := by
  have hchoose : choose m hand.cards (.leading cardType weight length) =
      { (findSmallestCards (m.cleared .none) hand.cards).2 with
        cardList := (findSmallestCards (m.cleared .none) hand.cards).1 } := by
    simp only [choose, smartSelectCards, if_true, selectCardType]
  have houtcome := findSmallestCards_outcome hand (m.cleared .none) rfl
  revert hchoose houtcome
  generalize findSmallestCards (m.cleared .none) hand.cards = found
  intro hchoose houtcome
  have hsmall : ∀ n, 5 ≤ n → ∀ a, a + n ≤ Weight.one + 1 →
      blocks 1 a n <:+: weights hand.cards →
      ¬ (∀ a, a + 5 ≤ Weight.one + 1 → ¬ blocks 1 a 5 <:+: weights hand.cards) := by
    intro n hn a hace hisInfix hnone
    exact hnone a (by omega) (straight_five_of_isInfix hn hisInfix)
  have hfull : NoStraight hand.cards → ¬ blocks 1 Weight.three 12 <:+: weights hand.cards :=
    fun hnone => hnone 12 (by omega) (by omega) _ (by decide)
  cases houtcome with
  | groups k a n cardType hk hace hisInfix hne hlength hpicked =>
      refine iff_of_true (choiceSound_of_answers (Or.inr ⟨cardType, hpicked, hlength,
        fun h => hne h.1, trivial⟩) hchoose) ?_
      rintro (hfull | ⟨-, w, hfour, hrare⟩)
      · exact no_groups_of_fullStraight hfull hk hace hisInfix
      · exact no_groups_of_takesFourth hfour hrare hk hisInfix
  | straight a n hlow hace hisInfix hlength hlonger hpicked =>
      have hfive := hsmall n hlow a hace hisInfix
      have hthree := Hand.three_le_of_isInfix Nat.one_pos (by omega) hisInfix
      simp only [Weight.one, Weight.three] at hace hthree
      rcases Nat.eq_or_lt_of_le (show n ≤ 12 by omega) with rfl | hshort
      · refine iff_of_false (not_choiceSound_of_straight hchoose hpicked hlength)
          (not_not_intro (Or.inl ?_))
        rwa [show Weight.three = a by simp only [Weight.three]; omega]
      · refine iff_of_true (choiceSound_of_answers (Or.inr ⟨.straight, hpicked, by omega,
          by omega, trivial⟩) hchoose) ?_
        rintro (hfull | ⟨hnone, -⟩)
        · exact hlonger 12 hshort le_rfl _ (by decide) hfull
        · exact hfive hnone
  | threeAndTwo bound w x hstraight hbound hw hx hlength hpicked =>
      refine iff_of_true (choiceSound_of_answers (Or.inr ⟨.threeAndTwo, hpicked, by omega,
        by simp, trivial⟩) hchoose) ?_
      rintro (h | ⟨-, v, hfour, hrare⟩)
      · exact hfull hstraight h
      · exact noTriple_two_of_takesFourth (by omega) hfour hrare w hw x hx
  | threeAndOne bound w x hstraight hpair hbound hfirst hw hx htype hweights hpicked =>
      by_cases hxw : x = w
      · subst hxw
        obtain rfl : bound = 9 := by
          by_contra hne
          exact noTriple_absurd hbound hw hx (hfirst hne)
        refine iff_of_false (not_choiceSound_of_four hchoose htype hweights)
          (not_not_intro (Or.inr ⟨fun a hace => hstraight 5 le_rfl (by omega) a hace, x,
            (takesFourth_iff hand x 8).mpr ⟨hw, hx⟩, fun y hy hfive => ?_⟩))
        by_contra hcount
        refine hpair x hw y ⟨?_, by push_cast; omega⟩
        rw [count_withoutThree, if_neg (fun h => hy h.symm)]
        omega
      · have hlength : found.1.length = 4 := by rw [← length_weights, hweights]; rfl
        refine iff_of_true (choiceSound_of_answers (Or.inr ⟨.threeAndOne, hpicked hxw, by omega,
          by simp, trivial⟩) hchoose) ?_
        rintro (h | ⟨-, v, hfour, hrare⟩)
        · exact hfull hstraight h
        · obtain ⟨hthree, hone⟩ := (takesFourth_iff hand v _).mp hfour
          have hnine : bound = 9 := by
            by_contra hne
            exact hfirst hne v hthree v hone.1
          subst hnine
          have hwv : w = v := hw.eq hthree
          subst hwv
          exact hxw (hx.eq hone)
  | rest hstraight hsingle hfound =>
      refine iff_of_true (choiceSound_of_answers (hfound.imp_right ?_) hchoose) ?_
      · rintro ⟨cardType, hne, hlength, hpicked⟩
        exact ⟨cardType, hpicked, hlength, fun h => hne h.1, trivial⟩
      · rintro (h | ⟨-, v, hfour, hrare⟩)
        · exact hfull hstraight h
        · obtain ⟨hthree, hone⟩ := (takesFourth_iff hand v _).mp hfour
          exact hsingle v hthree v hone.1

/-! ## The comparison -/

/-- The choice of the computer player is legal, recorded as what it is and
beats the last play, in exactly the situations that are no misplay. -/
theorem choiceSound_iff (m : ComputerAI) (hand : Hand) (situation : Situation) :
    ChoiceSound m hand situation ↔ ¬ Misplays (weights hand.cards) situation := by
  cases situation with
  | leading cardType weight length => exact choiceSound_leading_iff m hand cardType weight length
  | replying last cardType legal =>
      by_cases htype : cardType = .threeAndOne
      · subst htype
        rw [choiceSound_threeAndOne_iff]
        simp [Misplays]
      · exact iff_of_true (choiceSound_reply m hand last cardType legal htype)
          fun h => htype h.1

/-- Four tens. -/
def fourTens : Hand where
  cards := [⟨.club, 10⟩, ⟨.heart, 10⟩, ⟨.spade, 10⟩, ⟨.square, 10⟩]
  inLibrary := by decide
  nodup := by decide
  ascending := by decide

/-- Holding four tens a leading computer player puts all of them on the desk as
a triple with one card, while the ruler calls them a bomb. -/
theorem choice_of_fourTens :
    (choose {} fourTens.cards (.leading .none 0 0)).curType = .threeAndOne ∧
      (choose {} fourTens.cards (.leading .none 0 0)).cardList.map Card.weight =
        [10, 10, 10, 10] ∧
      canPop fourTens.cards = .accepted .boom ∧
      ¬ ChoiceSound {} fourTens (.leading .none 0 0) := by
  refine ⟨by decide, by decide, by decide, ?_⟩
  exact @not_choiceSound_of_four _ _ _ (findSmallestCards (ComputerAI.cleared {} .none)
    fourTens.cards) 10 rfl (by decide) (by decide)

end Landlord
end ArmyRs
