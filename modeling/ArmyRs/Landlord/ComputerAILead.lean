import ArmyRs.Landlord.ComputerAIPicks

/-!
# The searches of a leading computer player

`findSmallestCards` runs nine searches in a row.  Each of the first eight is a
stage over a list of bounds; `findSmallestCards_outcome` goes through the chain
and states in which stage it ended, with what pick, and what the earlier stages
say about the hand.
-/

namespace ArmyRs
namespace Landlord

open Foundation

/-- No triple heavier than `weight` has `k` equal cards to go with it. -/
def NoTriple (k : Nat) (ws : List Nat) (weight : Int) : Prop :=
  ∀ w, LeastHeavy 3 ws weight w → ∀ x, ¬ Heavy k (withoutThree w ws) weight x

/-- The bounds `9, 12, ...` of the searches for triples start at nine. -/
theorem threeBounds_split {pre post : List Int} {bound : Int}
    (h : threeBounds = pre ++ bound :: post) : 9 ≤ bound ∧ (bound ≠ 9 → (9 : Int) ∈ pre) := by
  have hmem : bound ∈ threeBounds := by rw [h]; simp
  refine ⟨?_, fun hne => ?_⟩
  · revert hmem
    revert bound
    intro bound _ hmem
    simp only [threeBounds, List.mem_cons, List.not_mem_nil, or_false] at hmem
    omega
  · cases pre with
    | nil =>
        rw [threeBounds, List.nil_append, List.cons.injEq] at h
        exact absurd h.1.symm hne
    | cons first pre =>
        rw [threeBounds, List.cons_append, List.cons.injEq] at h
        rw [← h.1]
        exact List.mem_cons_self

theorem threeAndTwoStage (hand : Hand) (m : ComputerAI) (hm : m.curWeight = 0) :
    StageOutcome (fun bound => NoTriple 2 (weights hand.cards) (bound - 1))
      (fun bound found => Picked hand.cards found .threeAndTwo ∧ found.1.length = 5 ∧
        ∃ w x, LeastHeavy 3 (weights hand.cards) (bound - 1) w ∧
          Heavy 2 (withoutThree w (weights hand.cards)) (bound - 1) x)
      threeBounds
      (firstFound .threeAndTwo (fun m i => findThreeAndTwo m hand.cards (i - 1))
        threeBounds m) := by
  refine firstFound_cases threeBounds (fun m hm bound _ => ?_) m hm
  rcases @findThreeAndTwo_cases m hand.cards (bound - 1) hand.ascending with
    ⟨w, x, selects, heq, hsub, hweights, hw, hx⟩ | ⟨hnil, hfields, hnone⟩
  · have hne := Hand.pair_ne_triple hx.1
    have hlength : selects.length = 5 := by rw [← length_weights, hweights]; rfl
    have hperm : (weights selects).Perm [w, w, w, x, x] := by rw [hweights]; rfl
    rw [heq]
    refine Or.inr ⟨List.ne_nil_of_length_pos (by rw [hlength]; omega), ?_, hlength, w, x, hw, hx.1⟩
    refine ⟨hsub, ⟨w, x, hne, hperm⟩, rfl, fun sorted hsorted hasc => ?_, by simp [hlength]⟩
    rw [getCardsWeight_threeAndTwo hasc hne ((hsorted.map _).trans hperm)]
    simp [hm]
  · refine Or.inl ⟨hnil, ?_, hnone⟩
    rcases hfields with h | h
    · rw [h, hm]
    · rw [h]

theorem threeAndOneStage (hand : Hand) (m : ComputerAI) (hm : m.curWeight = 0) :
    StageOutcome (fun bound => NoTriple 1 (weights hand.cards) (bound - 1))
      (fun bound found => ∃ w x, LeastHeavy 3 (weights hand.cards) (bound - 1) w ∧
        LeastHeavy 1 (withoutThree w (weights hand.cards)) (bound - 1) x ∧
        found.2.curType = .threeAndOne ∧ weights found.1 = [w, w, w, x] ∧
        (x ≠ w → Picked hand.cards found .threeAndOne))
      threeBounds
      (firstFound .threeAndOne (fun m i => findThreeAndOne m hand.cards (i - 1))
        threeBounds m) := by
  refine firstFound_cases threeBounds (fun m hm bound _ => ?_) m hm
  rcases @findThreeAndOne_cases m hand.cards (bound - 1) hand.ascending with
    ⟨w, x, selects, heq, hsub, hweights, hw, hx⟩ | ⟨hnil, hfields, hnone⟩
  · have hlength : selects.length = 4 := by rw [← length_weights, hweights]; rfl
    rw [heq]
    refine Or.inr ⟨List.ne_nil_of_length_pos (by rw [hlength]; omega), w, x, hw, hx, rfl, hweights,
      fun hne => ?_⟩
    have hperm : (weights selects).Perm [w, w, w, x] := by rw [hweights]; rfl
    refine ⟨hsub, ⟨w, x, hne, hperm⟩, rfl, fun sorted hsorted hasc => ?_, by simp [hlength]⟩
    rw [getCardsWeight_threeAndOne hasc hne ((hsorted.map _).trans hperm)]
    simp [hm]
  · refine Or.inl ⟨hnil, ?_, hnone⟩
    rcases hfields with h | h
    · rw [h, hm]
    · rw [h]

/-- The outcome of a search whose selection is always a pick of `cardType` of
`k` cards, whatever else the fields of the module hold. -/
def PickOutcome (cards : List Card) (cardType : CardType) (k : Nat) (weight : Int)
    (m : ComputerAI) (found : Found) : Prop :=
  found = ([], m) ∨
  (found.1 ≠ [] ∧ found.1.length = k ∧ weight < found.2.curWeight ∧
    found.2.curType = m.curType ∧
    ∀ m' : ComputerAI, m'.curType = cardType → m'.curWeight = found.2.curWeight →
      m'.curLength = found.2.curLength → Picked cards (found.1, m') cardType)

theorem SameOutcome.picked {k : Nat} {complete : Prop} {m : ComputerAI} {cards : List Card}
    {weight : Int} {found : Found} {cardType : CardType}
    (h : SameOutcome k complete m cards weight false found) (hk : 0 < k)
    (hplain : cardType ≠ .threeAndOne ∧ cardType ≠ .threeAndTwo)
    (hlegal : ∀ v, Combination cardType (List.replicate k v)) :
    PickOutcome cards cardType k weight m found := by
  rcases h with ⟨v, selects, rfl, hsub, hweights, hheavy, -⟩ | ⟨rfl, -⟩
  · have hlength : selects.length = k := by
      rw [← length_weights, hweights, List.length_replicate]
    refine Or.inr ⟨List.ne_nil_of_length_pos (by simp only; omega), hlength, hheavy.2, rfl,
      fun m' htype hweight hcount => ?_⟩
    exact picked_of_replicate hplain hsub.subperm hweights (hlegal v) htype hweight hcount
  · exact Or.inl rfl

theorem combination_single (v : Nat) : Combination .single (List.replicate 1 v) :=
  ⟨v, List.Perm.refl _⟩

theorem combination_double (v : Nat) : Combination .double (List.replicate 2 v) :=
  ⟨v, List.Perm.refl _⟩

theorem combination_three (v : Nat) : Combination .three (List.replicate 3 v) :=
  ⟨v, List.Perm.refl _⟩

theorem combination_boom (v : Nat) : Combination .boom (List.replicate 4 v) :=
  ⟨v, List.Perm.refl _⟩

/-- Two consecutive pairs are a pick of their type. -/
theorem findTwoDouble_picked {m : ComputerAI} {cards : List Card} {weight : Int} :
    PickOutcome cards .twoDouble 4 weight m (findTwoDouble m cards weight) := by
  rcases @findTwoDouble_cases m cards weight with
    ⟨a, selects, heq, hsub, hweights, hace, hheavy⟩ | heq
  · have hlength : selects.length = 4 := by rw [← length_weights, hweights, length_blocks]
    rw [heq]
    refine Or.inr ⟨List.ne_nil_of_length_pos (by simp only; omega), hlength, hheavy, rfl,
      fun m' htype hweight hcount => ?_⟩
    refine picked_of_sum (by simp) hsub.subperm ?_ htype ?_ (by rw [hcount, hlength]; rfl)
    · rw [hweights]
      exact ⟨a, hace, List.Perm.refl _⟩
    · rw [hweight, hweights]
      simp only [blocks, List.replicate, List.cons_append, List.nil_append, List.sum_cons,
        List.sum_nil]
      push_cast
      ring
  · exact Or.inl heq

/-! ## Leading -/

/-- The hand has no straight that the leading search looks for. -/
def NoStraight (cards : List Card) : Prop := ∀ n, 5 ≤ n → n ≤ 12 → NoRun 1 n cards

/-- How the chain of searches of a leading computer player ends. -/
inductive LeadOutcome (cards : List Card) (found : Found) : Prop
  /-- A run of pairs or of triples. -/
  | groups (k a n : Nat) (cardType : CardType)
      (hk : (k = 3 ∧ 2 ≤ n) ∨ (k = 2 ∧ 3 ≤ n)) (hace : a + n ≤ Weight.one + 1)
      (hisInfix : blocks k a n <:+: weights cards) (hne : cardType ≠ .straight)
      (hlength : found.1.length ≤ 20) (hpicked : Picked cards found cardType)
  | straight (a n : Nat) (hlow : 5 ≤ n) (hace : a + n ≤ Weight.one + 1)
      (hisInfix : blocks 1 a n <:+: weights cards) (hlength : found.1.length = n)
      (hlonger : ∀ n', n < n' → n' ≤ 12 → NoRun 1 n' cards)
      (hpicked : Picked cards found .straight)
  | threeAndTwo (bound : Int) (w x : Nat) (hstraight : NoStraight cards) (hbound : 9 ≤ bound)
      (hw : LeastHeavy 3 (weights cards) (bound - 1) w)
      (hx : Heavy 2 (withoutThree w (weights cards)) (bound - 1) x)
      (hlength : found.1.length = 5) (hpicked : Picked cards found .threeAndTwo)
  | threeAndOne (bound : Int) (w x : Nat) (hstraight : NoStraight cards)
      (hpair : NoTriple 2 (weights cards) 8) (hbound : 9 ≤ bound)
      (hfirst : bound ≠ 9 → NoTriple 1 (weights cards) 8)
      (hw : LeastHeavy 3 (weights cards) (bound - 1) w)
      (hx : LeastHeavy 1 (withoutThree w (weights cards)) (bound - 1) x)
      (htype : found.2.curType = .threeAndOne) (hweights : weights found.1 = [w, w, w, x])
      (hpicked : x ≠ w → Picked cards found .threeAndOne)
  /-- Nothing but equal cards or two pairs, or nothing at all. -/
  | rest (hstraight : NoStraight cards) (hsingle : NoTriple 1 (weights cards) 8)
      (hfound : found.1 = [] ∨ ∃ cardType, cardType ≠ .straight ∧ found.1.length ≤ 20 ∧
        Picked cards found cardType)

theorem tripleStraightStage (cards : List Card) (m : ComputerAI) (hm : m.curWeight = 0) :
    StageOutcome (fun bound => ∀ n : Nat, bound = (3 * n : Nat) → NoRun 3 n cards)
      (fun bound found => ∃ a n : Nat, bound = (3 * n : Nat) ∧ a + n ≤ Weight.one + 1 ∧
        blocks 3 a n <:+: weights cards ∧ found.1.length = 3 * n ∧
        Picked cards found .tripleStraight)
      [18, 15, 12, 9, 6]
      (firstFound .tripleStraight (fun m i => findTripleStraight m cards (-1) i.toNat)
        [18, 15, 12, 9, 6] m) := by
  refine runStage (Nat.succ_pos 2) (by omega) (by simp) (fun bound hbound => ?_) m hm
  simp only [List.mem_cons, List.not_mem_nil, or_false] at hbound
  obtain ⟨n, rfl, hn⟩ : ∃ n : Nat, bound = (3 * n : Nat) ∧ 2 ≤ n :=
    ⟨(bound / 3).toNat, by omega, by omega⟩
  exact ⟨n, rfl, hn, by omega, fun a hace => ⟨a, n, hn, hace, List.Perm.refl _⟩⟩

theorem doubleStraightStage (cards : List Card) (m : ComputerAI) (hm : m.curWeight = 0) :
    StageOutcome (fun bound => ∀ n : Nat, bound = (2 * n : Nat) → NoRun 2 n cards)
      (fun bound found => ∃ a n : Nat, bound = (2 * n : Nat) ∧ a + n ≤ Weight.one + 1 ∧
        blocks 2 a n <:+: weights cards ∧ found.1.length = 2 * n ∧
        Picked cards found .doubleStraight)
      [20, 18, 16, 14, 12, 10, 8, 6]
      (firstFound .doubleStraight (fun m i => findDoubleStraight m cards (-1) i.toNat)
        [20, 18, 16, 14, 12, 10, 8, 6] m) := by
  refine runStage Nat.two_pos (by omega) (by simp) (fun bound hbound => ?_) m hm
  simp only [List.mem_cons, List.not_mem_nil, or_false] at hbound
  obtain ⟨n, rfl, hn⟩ : ∃ n : Nat, bound = (2 * n : Nat) ∧ 3 ≤ n :=
    ⟨(bound / 2).toNat, by omega, by omega⟩
  exact ⟨n, rfl, by omega, by omega, fun a hace => ⟨a, n, hn, hace, List.Perm.refl _⟩⟩

theorem straightStage (cards : List Card) (m : ComputerAI) (hm : m.curWeight = 0) :
    StageOutcome (fun bound => ∀ n : Nat, bound = (1 * n : Nat) → NoRun 1 n cards)
      (fun bound found => ∃ a n : Nat, bound = (1 * n : Nat) ∧ a + n ≤ Weight.one + 1 ∧
        blocks 1 a n <:+: weights cards ∧ found.1.length = 1 * n ∧
        Picked cards found .straight)
      [12, 11, 10, 9, 8, 7, 6, 5]
      (firstFound .straight (fun m i => findStraight m cards (-1) i.toNat)
        [12, 11, 10, 9, 8, 7, 6, 5] m) := by
  refine runStage Nat.one_pos (by omega) (by simp) (fun bound hbound => ?_) m hm
  simp only [List.mem_cons, List.not_mem_nil, or_false] at hbound
  obtain ⟨n, rfl, hlow, hhigh⟩ : ∃ n : Nat, bound = (1 * n : Nat) ∧ 5 ≤ n ∧ n ≤ 12 :=
    ⟨bound.toNat, by omega, by omega, by omega⟩
  exact ⟨n, rfl, by omega, by omega,
    fun a hace => ⟨a, n, hlow, hhigh, hace, List.Perm.refl _⟩⟩

/-- The lengths tried before a hit are all the larger ones. -/
theorem straightBounds_split {pre post : List Int} {n n' : Nat}
    (h : [12, 11, 10, 9, 8, 7, 6, 5] = pre ++ ((n : Nat) : Int) :: post) :
    (5 ≤ n ∧ n ≤ 12) ∧ (n < n' → n' ≤ 12 → ((n' : Nat) : Int) ∈ pre) := by
  have hmem : (n : Int) ∈ ([12, 11, 10, 9, 8, 7, 6, 5] : List Int) := by rw [h]; simp
  simp only [List.mem_cons, List.not_mem_nil, or_false] at hmem
  refine ⟨by omega, fun hlt hle => ?_⟩
  have hmem' : (n' : Int) ∈ pre ++ (n : Int) :: post := by
    rw [← h]
    simp only [List.mem_cons, List.not_mem_nil, or_false]
    omega
  have hsorted : (pre ++ (n : Int) :: post).Pairwise (· > ·) := by
    rw [← h]
    decide
  rw [List.pairwise_append, List.pairwise_cons] at hsorted
  rcases List.mem_append.mp hmem' with hpre | hpost
  · exact hpre
  · rcases List.mem_cons.mp hpost with heq | hpost
    · omega
    · have := hsorted.2.1.1 _ hpost
      omega

/-- The stages for three, two and one equal cards and for two pairs. -/
theorem smallStage {cards : List Card} {cardType : CardType} {k : Nat}
    {find : ComputerAI → Int → Found} (bounds : List Int) (hne : cardType ≠ .straight)
    (hk : k ≤ 20)
    (hfind : ∀ m bound, PickOutcome cards cardType k (bound - 1) m (find m bound))
    (m : ComputerAI) (hm : m.curWeight = 0) :
    StageOutcome (fun _ => True)
      (fun _ found => ∃ cardType, cardType ≠ .straight ∧ found.1.length ≤ 20 ∧
        Picked cards found cardType)
      bounds (firstFound cardType find bounds m) := by
  refine firstFound_cases bounds (fun m hm bound _ => ?_) m hm
  rcases hfind m bound with heq | ⟨hnonempty, hlength, -, -, hpicked⟩
  · rw [heq]
    exact Or.inl ⟨rfl, hm, trivial⟩
  · exact Or.inr ⟨hnonempty, cardType, hne, by simp only; omega, hpicked _ rfl rfl rfl⟩

/-- The last four searches, run when nothing else was found. -/
theorem smallSearches_cases {cards : List Card} (hasc : Ascending cards) (m : ComputerAI)
    (hm : m.curWeight = 0) {found : Found}
    (hfound : found = orSearch (orSearch (orSearch
      (firstFound .three (fun m i => findThree m cards (i - 1) false) threeBounds m)
      (firstFound .twoDouble (fun m i => findTwoDouble m cards (i - 1)) doubleBounds))
      (firstFound .double (fun m i => findDouble m cards (i - 1) false) doubleBounds))
      fun m => ((findSingle m cards (-1) false).1,
        { (findSingle m cards (-1) false).2 with curType := .single })) :
    found.1 = [] ∨ ∃ cardType, cardType ≠ .straight ∧ found.1.length ≤ 20 ∧
      Picked cards found cardType := by
  subst hfound
  have hthree := @smallStage cards .three 3 (fun m i => findThree m cards (i - 1) false)
    threeBounds (by simp) (by omega) (fun m bound =>
      (findThree_cases hasc).picked (Nat.succ_pos 2) (by simp) combination_three) m hm
  rcases hthree with ⟨hnil, hzero, -⟩ | ⟨hne, -, -, -, -, -, hpick⟩
  case inr =>
    simp only [orSearch_of_ne hne]
    exact Or.inr hpick
  rw [orSearch_of_nil hnil]
  have htwoDouble := @smallStage cards .twoDouble 4 (fun m i => findTwoDouble m cards (i - 1))
    doubleBounds (by simp) (by omega) (fun m bound => findTwoDouble_picked) _ hzero
  rcases htwoDouble with ⟨hnil, hzero, -⟩ | ⟨hne, -, -, -, -, -, hpick⟩
  case inr =>
    simp only [orSearch_of_ne hne]
    exact Or.inr hpick
  rw [orSearch_of_nil hnil]
  have hdouble := @smallStage cards .double 2 (fun m i => findDouble m cards (i - 1) false)
    doubleBounds (by simp) (by omega) (fun m bound =>
      (findDouble_cases hasc).picked Nat.two_pos (by simp) combination_double) _ hzero
  rcases hdouble with ⟨hnil, hzero, -⟩ | ⟨hne, -, -, -, -, -, hpick⟩
  case inr =>
    simp only [orSearch_of_ne hne]
    exact Or.inr hpick
  rw [orSearch_of_nil hnil]
  rcases (@findSingle_cases _ cards (-1) false hasc).picked Nat.one_pos (by simp)
    combination_single with heq | ⟨-, hlength, -, -, hpicked⟩
  · rw [heq]
    exact Or.inl rfl
  · exact Or.inr ⟨.single, by simp, by simp only; omega, hpicked _ rfl rfl rfl⟩

theorem findSmallestCards_outcome (hand : Hand) (m : ComputerAI) (hm : m.curWeight = 0) :
    LeadOutcome hand.cards (findSmallestCards m hand.cards) := by
  have hasc := hand.ascending
  unfold findSmallestCards
  simp only
  -- runs of triples, then runs of pairs
  rcases tripleStraightStage hand.cards m hm with
    ⟨hnil, hzero, -⟩ |
      ⟨hne, pre, bound, post, hsplit, -, a, n, rfl, hace, hisInfix, hlength, hpicked⟩
  case inr =>
    have hmem : ((3 * n : Nat) : Int) ∈ ([18, 15, 12, 9, 6] : List Int) := by rw [hsplit]; simp
    simp only [List.mem_cons, List.not_mem_nil, or_false] at hmem
    simp only [orSearch_of_ne hne]
    exact .groups 3 a n _ (Or.inl ⟨rfl, by omega⟩) hace hisInfix (by simp) (by omega) hpicked
  rw [orSearch_of_nil hnil]
  rcases doubleStraightStage hand.cards _ hzero with
    ⟨hnil, hzero, -⟩ |
      ⟨hne, pre, bound, post, hsplit, -, a, n, rfl, hace, hisInfix, hlength, hpicked⟩
  case inr =>
    have hmem : ((2 * n : Nat) : Int) ∈ ([20, 18, 16, 14, 12, 10, 8, 6] : List Int) := by
      rw [hsplit]; simp
    simp only [List.mem_cons, List.not_mem_nil, or_false] at hmem
    simp only [orSearch_of_ne hne]
    exact .groups 2 a n _ (Or.inr ⟨rfl, by omega⟩) hace hisInfix (by simp) (by omega) hpicked
  rw [orSearch_of_nil hnil]
  -- straights, the longest first
  rcases straightStage hand.cards _ hzero with
    ⟨hnil, hzero, hmiss⟩ |
      ⟨hne, pre, bound, post, hsplit, hpre, a, n, rfl, hace, hisInfix, hlength, hpicked⟩
  case inr =>
    rw [Nat.one_mul] at hsplit hlength
    simp only [orSearch_of_ne hne]
    refine .straight a n (@straightBounds_split _ _ n 0 hsplit).1.1 hace hisInfix hlength
      (fun n' hlt hle => ?_) hpicked
    exact hpre _ ((straightBounds_split hsplit).2 hlt hle) n' (by rw [Nat.one_mul])
  have hstraight : NoStraight hand.cards := by
    intro n hlow hhigh
    refine hmiss n ?_ n (by rw [Nat.one_mul])
    simp only [List.mem_cons, List.not_mem_nil, or_false]
    omega
  rw [orSearch_of_nil hnil]
  -- triples with other cards
  rcases threeAndTwoStage hand _ hzero with
    ⟨hnil, hzero, hmiss⟩ | ⟨hne, pre, bound, post, hsplit, hpre, hpicked, hlength, w, x, hw, hx⟩
  case inr =>
    simp only [orSearch_of_ne hne]
    exact .threeAndTwo bound w x hstraight (threeBounds_split hsplit).1 hw hx hlength hpicked
  have hpair : NoTriple 2 (weights hand.cards) 8 := hmiss 9 (by decide)
  rw [orSearch_of_nil hnil]
  rcases threeAndOneStage hand _ hzero with
    ⟨hnil, hzero, hmiss⟩ |
      ⟨hne, pre, bound, post, hsplit, hpre, w, x, hw, hx, htype, hweights, hpicked⟩
  case inr =>
    obtain ⟨hbound, hfirst⟩ := threeBounds_split hsplit
    simp only [orSearch_of_ne hne]
    exact .threeAndOne bound w x hstraight hpair hbound (fun hne => hpre 9 (hfirst hne)) hw hx
      htype hweights hpicked
  have hsingle : NoTriple 1 (weights hand.cards) 8 := hmiss 9 (by decide)
  rw [orSearch_of_nil hnil]
  exact .rest hstraight hsingle (smallSearches_cases hasc _ hzero rfl)

end Landlord
end ArmyRs
