import ArmyRs.Landlord.FinderSpec
import ArmyRs.Landlord.RulerCanPop
import ArmyRs.Landlord.CardsWeight

/-!
# The picks of the computer player

`Picked` says that a search recorded what it selected: the cards are cards of
the hand, they form a combination of the recorded type, and the recorded
weight and length are those of the cards.  Such a pick is accepted by the ruler
with the recorded type, unless it is a straight of twelve cards.

The searches of `findSmallestCards` run in stages, and a stage only runs when
all earlier ones found nothing.  `LeadOutcome` lists how the chain can end and
what is then known about the hand.
-/

namespace ArmyRs
namespace Landlord

open Foundation

/-- A selection of the hand with the type, weight and length recorded for it. -/
structure Picked (cards : List Card) (found : Found) (cardType : CardType) : Prop where
  subperm : found.1.Subperm cards
  legal : Combination cardType (weights found.1)
  curType : found.2.curType = cardType
  curWeight : ∀ sorted : List Card, sorted.Perm found.1 → Ascending sorted →
    found.2.curWeight = getCardsWeight sorted cardType
  curLength : found.2.curLength = found.1.length

/-- Outside the triples with other cards a pick has to record the sum of its
weights. -/
theorem picked_of_sum {cards selects : List Card} {m : ComputerAI} {cardType : CardType}
    (hplain : cardType ≠ .threeAndOne ∧ cardType ≠ .threeAndTwo)
    (hsub : selects.Subperm cards) (hlegal : Combination cardType (weights selects))
    (htype : m.curType = cardType) (hweight : m.curWeight = ((weights selects).sum : Nat))
    (hlength : m.curLength = selects.length) : Picked cards (selects, m) cardType where
  subperm := hsub
  legal := hlegal
  curType := htype
  curWeight := fun sorted hperm _ => by
    have hsum : (weights sorted).sum = (weights selects).sum := (hperm.map _).sum_eq
    rw [getCardsWeight_eq_sum hplain, hsum]
    exact hweight
  curLength := hlength

theorem sum_replicate_nat (k v : Nat) : ((List.replicate k v).sum : Nat) = k * v := by
  rw [List.sum_replicate, smul_eq_mul]

/-- Equal cards are a pick of any type that such cards form. -/
theorem picked_of_replicate {cards selects : List Card} {m : ComputerAI} {cardType : CardType}
    {k v : Nat} (hplain : cardType ≠ .threeAndOne ∧ cardType ≠ .threeAndTwo)
    (hsub : selects.Subperm cards) (hweights : weights selects = List.replicate k v)
    (hlegal : Combination cardType (List.replicate k v)) (htype : m.curType = cardType)
    (hweight : m.curWeight = (k : Int) * v) (hlength : m.curLength = k) :
    Picked cards (selects, m) cardType := by
  have hcount : selects.length = k := by
    rw [← length_weights, hweights, List.length_replicate]
  refine picked_of_sum hplain hsub (hweights ▸ hlegal) htype ?_ (by rw [hlength, hcount])
  rw [hweight, hweights, sum_replicate_nat]
  push_cast
  rfl

/-! ## What the ruler says about a pick -/

/-- The ruler accepts a pick with its own type, unless the pick is a straight
of twelve cards. -/
theorem Picked.accepted_iff {cards sorted : List Card} {found : Found} {cardType : CardType}
    (h : Picked cards found cardType) (hatMost : found.1.length ≤ 20)
    (hperm : sorted.Perm found.1) (hasc : Ascending sorted)
    {pairs : List Rule → List Rule} (hpairs : ∀ rules, (pairs rules).Perm rules) :
    canPopWith pairs sorted = .accepted cardType ↔
      ¬ (cardType = .straight ∧ found.1.length = 12) := by
  have hlegal : Combination cardType (weights sorted) := h.legal.perm (hperm.map _).symm
  have hholds : predicateOf cardType sorted = true := (predicateOf_iff hasc _).mpr (Or.inl hlegal)
  have hlength := hperm.length_eq
  rw [canPopWith_accepted_iff hasc hpairs, ← hlength,
    ← hlegal.mem_construct (by rw [hlength]; exact hatMost)]
  constructor
  · rintro ⟨rules, htable, hmem, -⟩
    exact ⟨rules, htable, hmem⟩
  · rintro ⟨rules, htable, hmem⟩
    exact ⟨rules, htable, hmem, hholds⟩

/-! ## Cards of a hand -/

/-- A deck holds at most four cards of a weight, and so does a hand. -/
theorem Hand.count_le_four (hand : Hand) (v : Nat) : (weights hand.cards).count v ≤ 4 := by
  obtain ⟨cards, hperm, hsub⟩ : hand.cards.Subperm cardLibrary := hand.nodup.subperm hand.inLibrary
  have hcount : (weights hand.cards).count v ≤ (weights cardLibrary).count v :=
    ((hperm.map Card.weight).count_eq v).symm.trans_le ((hsub.map Card.weight).count_le v)
  by_cases hmem : v ∈ weights cardLibrary
  · refine hcount.trans ?_
    have hall : ∀ u ∈ weights cardLibrary, (weights cardLibrary).count u ≤ 4 := by decide
    exact hall v hmem
  · rw [List.count_eq_zero_of_not_mem hmem] at hcount
    omega

/-- What completes a triple to five cards has another weight. -/
theorem Hand.pair_ne_triple {hand : Hand} {w x : Nat} {weight : Int}
    (h : Heavy 2 (withoutThree w (weights hand.cards)) weight x) : x ≠ w := by
  rintro rfl
  have hcount := h.1
  rw [count_withoutThree, if_pos rfl] at hcount
  have := hand.count_le_four x
  omega

/-! ## Stages -/

/-- The end of a stage: every bound missed, or one bound hit after the earlier
ones missed. -/
def StageOutcome (Miss : Int → Prop) (Good : Int → Found → Prop) (bounds : List Int)
    (found : Found) : Prop :=
  (found.1 = [] ∧ found.2.curWeight = 0 ∧ ∀ bound ∈ bounds, Miss bound) ∨
  (found.1 ≠ [] ∧ ∃ pre bound post, bounds = pre ++ bound :: post ∧ (∀ b ∈ pre, Miss b) ∧
    Good bound found)

/-- A stage ends as its single searches do, when each of them that finds
nothing leaves the recorded weight at zero. -/
theorem firstFound_cases {cardType : CardType} {find : ComputerAI → Int → Found}
    {Miss : Int → Prop} {Good : Int → Found → Prop} (bounds : List Int)
    (hfind : ∀ m : ComputerAI, m.curWeight = 0 → ∀ bound ∈ bounds,
      ((find m bound).1 = [] ∧ (find m bound).2.curWeight = 0 ∧ Miss bound) ∨
      ((find m bound).1 ≠ [] ∧
        Good bound ((find m bound).1, { (find m bound).2 with curType := cardType })))
    (m : ComputerAI) (hm : m.curWeight = 0) :
    StageOutcome Miss Good bounds (firstFound cardType find bounds m) := by
  induction bounds generalizing m with
  | nil => exact Or.inl ⟨rfl, hm, by simp⟩
  | cons bound bounds ih =>
      unfold firstFound
      rcases hfind m hm bound List.mem_cons_self with ⟨hnil, hzero, hmiss⟩ | ⟨hne, hgood⟩
      · simp only [hnil, List.length_nil, ne_eq, not_true_eq_false, if_false]
        rcases ih (fun m hm b hb => hfind m hm b (List.mem_cons_of_mem _ hb)) _ hzero with
          ⟨hnil', hzero', hall⟩ | ⟨hne', pre, b, post, hsplit, hpre, hgood'⟩
        · refine Or.inl ⟨hnil', hzero', fun b hb => ?_⟩
          rcases List.mem_cons.mp hb with rfl | hb
          · exact hmiss
          · exact hall b hb
        · refine Or.inr ⟨hne', bound :: pre, b, post, by rw [hsplit]; rfl, fun c hc => ?_, hgood'⟩
          rcases List.mem_cons.mp hc with rfl | hc
          · exact hmiss
          · exact hpre c hc
      · have hlength : (find m bound).1.length ≠ 0 := by simpa using hne
        simp only [if_pos hlength]
        exact Or.inr ⟨hne, [], bound, bounds, rfl, by simp, hgood⟩

theorem orSearch_of_nil {found : Found} {search : ComputerAI → Found} (h : found.1 = []) :
    orSearch found search = search found.2 := by
  simp [orSearch, h]

theorem orSearch_of_ne {found : Found} {search : ComputerAI → Found} (h : found.1 ≠ []) :
    orSearch found search = found := by
  have hlength : ¬ found.1.length = 0 := by simpa using h
  rw [orSearch, if_neg hlength]

/-- No run of the hand has `n` groups of `k`. -/
def NoRun (k n : Nat) (cards : List Card) : Prop :=
  ∀ a, a + n ≤ Weight.one + 1 → ¬ blocks k a n <:+: weights cards

/-- A stage that looks for runs: what it picks is a run, and when it misses a
length the hand has no run of that length. -/
theorem runStage {k shortest : Nat} {cards : List Card} {cardType : CardType}
    {bounds : List Int} (hk : 0 < k) (hshortest : 1 ≤ shortest)
    (hplain : cardType ≠ .threeAndOne ∧ cardType ≠ .threeAndTwo)
    (hbounds : ∀ bound ∈ bounds, ∃ n : Nat, bound = (k * n : Nat) ∧ 2 ≤ n ∧ shortest ≤ k * n ∧
      ∀ a, a + n ≤ Weight.one + 1 → Combination cardType (blocks k a n))
    (m : ComputerAI) (hm : m.curWeight = 0) :
    StageOutcome (fun bound => ∀ n : Nat, bound = (k * n : Nat) → NoRun k n cards)
      (fun bound found => ∃ a n : Nat, bound = (k * n : Nat) ∧ a + n ≤ Weight.one + 1 ∧
        blocks k a n <:+: weights cards ∧ found.1.length = k * n ∧
        Picked cards found cardType)
      bounds
      (firstFound cardType (fun m i => findRun k shortest m cards (-1) i.toNat) bounds m) := by
  refine firstFound_cases bounds (fun m hm bound hbound => ?_) m hm
  obtain ⟨n, rfl, hn, hlong, hlegal⟩ := hbounds bound hbound
  rw [Int.toNat_natCast]
  rcases @findRun_cases k shortest n m cards (-1) hk hn hshortest hlong with
    ⟨a, selects, heq, hsub, hweights, hace, hisInfix, -⟩ | ⟨heq, hnone⟩
  · have hlength : selects.length = k * n := by
      rw [← length_weights, hweights, length_blocks]
    rw [heq]
    refine Or.inr ⟨?_, a, n, rfl, hace, hisInfix, hlength, ?_⟩
    · have hpos := Nat.mul_le_mul hk hn
      have hselects : 0 < selects.length := by omega
      exact List.ne_nil_of_length_pos hselects
    · refine picked_of_sum hplain hsub.subperm (hweights ▸ hlegal a hace) rfl ?_ ?_
      · simp [hm, sumWeight]
      · simp [hlength]
  · rw [heq]
    refine Or.inl ⟨rfl, hm, fun n' hn' a hace => ?_⟩
    have hsame : n = n' := Nat.eq_of_mul_eq_mul_left hk (by exact_mod_cast hn')
    subst hsame
    exact hnone a (by omega) hace

end Landlord
end ArmyRs
