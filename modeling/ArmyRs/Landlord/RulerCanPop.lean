import ArmyRs.Landlord.RulerSpec

/-!
# `canPop` against the legal combinations

At most one predicate of a rule table holds of an ascending list, because
`classify` reads the type off the first five cards.  Hence the answer of
`canPop` does not depend on the order `pairs` takes, and it is described by
membership in the rule table of the list's length (`canPopWith_accepted_iff`).

The rule table of length twelve has no entry for the straight, so the straight
from three to ace (`FullStraight`) is refused.  `rulerAgrees_iff` says
that this and the over-permissive `isThreeAndTwo` are the only two kinds of
selection on which the ruler and the legal combinations differ.
-/

namespace ArmyRs
namespace Landlord

open Foundation

/-- The predicate the rule tables use for a type. -/
def predicateOf : CardType → List Card → Bool
  | .none => fun _ => false
  | .single => isSigle
  | .double => isDouble
  | .twoDouble => isTwoDouble
  | .straight => isStraight
  | .doubleStraight => isDoubleStraight
  | .tripleStraight => isTripleStraight
  | .three => isThree
  | .threeAndOne => isThreeAndOne
  | .threeAndTwo => isThreeAndTwo
  | .boom => isBoom
  | .jokerBoom => isJokerBoom

theorem construct_eq_map (n : Nat) :
    construct n = (construct n).map fun rules =>
      rules.map fun rule => (rule.1, predicateOf rule.1) := by
  unfold construct
  split <;> rfl

theorem eq_predicateOf_of_mem {n : Nat} {rules : List Rule} (h : construct n = some rules)
    {rule : Rule} (hmem : rule ∈ rules) : rule.2 = predicateOf rule.1 := by
  have hmap := construct_eq_map n
  rw [h, Option.map_some, Option.some.injEq] at hmap
  rw [hmap] at hmem
  obtain ⟨other, -, rfl⟩ := List.mem_map.mp hmem
  rfl

/-- Each predicate but `isThreeAndTwo` describes its combination. -/
theorem predicateOf_iff {cards : List Card} (hasc : Ascending cards) (cardType : CardType) :
    predicateOf cardType cards = true ↔
      Combination cardType (weights cards) ∨
        (cardType = .threeAndTwo ∧ ThreeWithOddCards (weights cards)) := by
  cases cardType with
  | none => simp [predicateOf, Combination]
  | single => simpa [predicateOf] using isSigle_iff cards
  | double => simpa [predicateOf] using isDouble_iff hasc
  | twoDouble => simpa [predicateOf] using isTwoDouble_iff hasc
  | straight => simpa [predicateOf] using isStraight_iff hasc
  | doubleStraight => simpa [predicateOf] using isDoubleStraight_iff hasc
  | tripleStraight => simpa [predicateOf] using isTripleStraight_iff hasc
  | three => simpa [predicateOf] using isThree_iff hasc
  | threeAndOne => simpa [predicateOf] using isThreeAndOne_iff hasc
  | threeAndTwo => simpa [predicateOf] using isThreeAndTwo_iff hasc
  | boom => simpa [predicateOf] using isBoom_iff hasc
  | jokerBoom => simpa [predicateOf] using isJokerBoom_iff hasc

/-! ## At most one type -/

/-- The only type an ascending list can have, read off its first five cards. -/
def classify (cards : List Card) : CardType :=
  match cards.length with
  | 1 => .single
  | 2 => if weightAt cards 1 = weightAt cards 2 then .double else .jokerBoom
  | 3 => .three
  | 4 =>
      if weightAt cards 1 = weightAt cards 4 then .boom
      else if weightAt cards 1 = weightAt cards 2 ∧ weightAt cards 3 = weightAt cards 4
        then .twoDouble
      else .threeAndOne
  | 5 =>
      if weightAt cards 1 = weightAt cards 3 ∨ weightAt cards 3 = weightAt cards 5
        then .threeAndTwo
      else .straight
  | _ =>
      if weightAt cards 1 = weightAt cards 3 then .tripleStraight
      else if weightAt cards 1 = weightAt cards 2 then .doubleStraight
      else .straight

theorem classify_of_five_lt {cards : List Card} (h : 5 < cards.length) :
    classify cards =
      if weightAt cards 1 = weightAt cards 3 then .tripleStraight
      else if weightAt cards 1 = weightAt cards 2 then .doubleStraight
      else .straight := by
  unfold classify
  split
  all_goals first | omega | rfl

/-- The first cards of a run of at least two groups, when the run is long
enough to show them. -/
theorem classify_of_blocks {cards : List Card} {k a n : Nat} (hk : 0 < k)
    (hlength : 5 < k * n) (heq : weights cards = blocks k a n) :
    classify cards =
      if k = 1 then .straight else if k = 2 then .doubleStraight else .tripleStraight := by
  have hcount : cards.length = k * n := by rw [← length_weights, heq, length_blocks]
  rw [classify_of_five_lt (by omega), weightAt_of_blocks heq (by omega) (by omega),
    weightAt_of_blocks heq (by omega) (by omega), weightAt_of_blocks heq (by omega) (by omega)]
  obtain rfl | rfl | hlarge : k = 1 ∨ k = 2 ∨ 3 ≤ k := by omega
  · simp
  · simp
  · rw [Nat.div_eq_of_lt (show 1 - 1 < k by omega), Nat.div_eq_of_lt (show 3 - 1 < k by omega),
      if_pos rfl, if_neg (by omega), if_neg (by omega)]

theorem classify_of_predicateOf {cards : List Card} (hasc : Ascending cards)
    {cardType : CardType} (h : predicateOf cardType cards = true) :
    classify cards = cardType := by
  cases cardType with
  | none => simp [predicateOf] at h
  | single =>
      have hlength : cards.length = 1 := by simpa [predicateOf, isSigle] using h
      simp [classify, hlength]
  | double =>
      simp only [predicateOf, isDouble, Bool.and_eq_true, beq_iff_eq] at h
      simp [classify, h.1, h.2]
  | jokerBoom =>
      simp only [predicateOf, isJokerBoom, Bool.and_eq_true, beq_iff_eq] at h
      simp [classify, h.1.1, h.1.2, h.2, Weight.sJoker, Weight.lJoker]
  | three =>
      simp only [predicateOf, isThree, Bool.and_eq_true, beq_iff_eq] at h
      simp [classify, h.1]
  | twoDouble =>
      obtain ⟨a, -, hperm⟩ := (isTwoDouble_iff hasc).mp h
      have heq := (hasc.perm_iff (pairwise_le_blocks _ _ _)).mp hperm
      have hlength : cards.length = 4 := by simpa using length_of_weights_perm hperm
      have h₁ := weightAt_of_blocks heq (i := 1) (by omega) (by omega)
      have h₂ := weightAt_of_blocks heq (i := 2) (by omega) (by omega)
      have h₃ := weightAt_of_blocks heq (i := 3) (by omega) (by omega)
      have h₄ := weightAt_of_blocks heq (i := 4) (by omega) (by omega)
      simp [classify, hlength, h₁, h₂, h₃, h₄]
  | threeAndOne =>
      obtain ⟨w, x, ⟨hlt, heq⟩ | ⟨hlt, heq⟩⟩ :=
        (threeAndOne_iff hasc).mp ((isThreeAndOne_iff hasc).mp h)
      · have hlength : cards.length = 4 := by rw [← length_weights, heq]; rfl
        obtain ⟨c₁, c₂, c₃, c₄, rfl⟩ := exists_four hlength
        simp only [weights_cons, weights_nil, List.cons.injEq] at heq
        simp [classify, weightAt, heq, Nat.ne_of_lt hlt]
      · have hlength : cards.length = 4 := by rw [← length_weights, heq]; rfl
        obtain ⟨c₁, c₂, c₃, c₄, rfl⟩ := exists_four hlength
        simp only [weights_cons, weights_nil, List.cons.injEq] at heq
        simp [classify, weightAt, heq, Nat.ne_of_lt hlt]
  | boom =>
      have hlength : cards.length = 4 := ((isBoom_iff hasc).mp h).length_eq rfl
      have hends : weightAt cards 1 = weightAt cards 4 := by
        simpa [predicateOf, isBoom, hlength] using h
      simp [classify, hlength, hends]
  | threeAndTwo =>
      by_cases hlength : cards.length = 5
      · simp only [predicateOf, isThreeAndTwo, hlength] at h
        simp only [classify, hlength]
        rw [if_pos]
        by_contra hends
        rw [not_or] at hends
        simp [hends.1, hends.2] at h
      · simp [predicateOf, isThreeAndTwo, hlength] at h
  | straight =>
      obtain ⟨a, n, hlow, -, -, hperm⟩ := (isStraight_iff hasc).mp h
      have heq := (hasc.perm_iff (pairwise_le_blocks _ _ _)).mp hperm
      rcases Nat.eq_or_lt_of_le hlow with rfl | hlong
      · have hlength : cards.length = 5 := by simpa using length_of_weights_perm hperm
        have h₁ := weightAt_of_blocks heq (i := 1) (by omega) (by omega)
        have h₃ := weightAt_of_blocks heq (i := 3) (by omega) (by omega)
        have h₅ := weightAt_of_blocks heq (i := 5) (by omega) (by omega)
        simp [classify, hlength, h₁, h₃, h₅]
      · exact classify_of_blocks Nat.one_pos (by omega) heq
  | doubleStraight =>
      obtain ⟨a, n, hlow, -, hperm⟩ := (isDoubleStraight_iff hasc).mp h
      exact classify_of_blocks Nat.two_pos (by omega)
        ((hasc.perm_iff (pairwise_le_blocks _ _ _)).mp hperm)
  | tripleStraight =>
      obtain ⟨a, n, hlow, -, hperm⟩ := (isTripleStraight_iff hasc).mp h
      exact classify_of_blocks (Nat.succ_pos 2) (by omega)
        ((hasc.perm_iff (pairwise_le_blocks _ _ _)).mp hperm)

/-! ## The answer of `canPop` -/

/-- With predicates that agree on the type, the first rule found is any rule
that holds. -/
theorem firstRule_eq_some_iff {rules : List Rule} {cards : List Card} {kind : CardType}
    (hkind : ∀ rule ∈ rules, rule.2 cards = true → rule.1 = kind) (cardType : CardType) :
    firstRule rules cards = some cardType ↔
      ∃ rule ∈ rules, rule.1 = cardType ∧ rule.2 cards = true := by
  unfold firstRule
  constructor
  · intro h
    obtain ⟨rule, hfind, rfl⟩ := Option.map_eq_some_iff.mp h
    exact ⟨rule, List.mem_of_find?_eq_some hfind, rfl,
      List.find?_some (p := fun rule : Rule => rule.2 cards) hfind⟩
  · rintro ⟨rule, hmem, rfl, hholds⟩
    cases hfind : rules.find? fun rule => rule.2 cards with
    | none => exact absurd hholds (List.find?_eq_none.mp hfind rule hmem)
    | some found =>
        have hfound := hkind found (List.mem_of_find?_eq_some hfind)
          (List.find?_some (p := fun rule : Rule => rule.2 cards) hfind)
        rw [Option.map_some, hfound, hkind rule hmem hholds]

theorem canPopWith_of_table {pairs : List Rule → List Rule} {cards : List Card}
    {rules : List Rule} (htable : construct cards.length = some rules)
    (cardType : CardType) :
    canPopWith pairs cards = .accepted cardType ↔
      firstRule (pairs rules) cards = some cardType := by
  unfold canPopWith
  rw [htable]
  cases hrule : firstRule (pairs rules) cards with
  | none => simp [hrule]
  | some found => simp [hrule]

/-- Whatever order `pairs` takes, an ascending list is accepted with a type
exactly when the rule table of its length names the type and the predicate of
the type holds. -/
theorem canPopWith_accepted_iff {cards : List Card} (hasc : Ascending cards)
    {pairs : List Rule → List Rule} (hpairs : ∀ rules, (pairs rules).Perm rules)
    (cardType : CardType) :
    canPopWith pairs cards = .accepted cardType ↔
      ∃ rules, construct cards.length = some rules ∧
        (cardType, predicateOf cardType) ∈ rules ∧ predicateOf cardType cards = true := by
  cases htable : construct cards.length with
  | none => simp [canPopWith, htable]
  | some rules =>
      have hkind : ∀ rule ∈ pairs rules, rule.2 cards = true → rule.1 = classify cards := by
        intro rule hmem hholds
        rw [eq_predicateOf_of_mem htable ((hpairs rules).mem_iff.mp hmem)] at hholds
        exact (classify_of_predicateOf hasc hholds).symm
      rw [canPopWith_of_table htable, firstRule_eq_some_iff hkind]
      constructor
      · rintro ⟨rule, hmem, rfl, hholds⟩
        have hrule := (hpairs rules).mem_iff.mp hmem
        rw [eq_predicateOf_of_mem htable hrule] at hholds
        refine ⟨rules, rfl, ?_, hholds⟩
        rwa [← eq_predicateOf_of_mem htable hrule]
      · rintro ⟨_, htable', hmem, hholds⟩
        cases htable'
        exact ⟨_, (hpairs rules).mem_iff.mpr hmem, rfl, hholds⟩

/-- The straight from three to ace. -/
def FullStraight (ws : List Nat) : Prop := ws = blocks 1 Weight.three 12

instance (ws : List Nat) : Decidable (FullStraight ws) :=
  inferInstanceAs (Decidable (ws = _))

/-- The rule table of a combination's length names its type, except for a
straight of twelve cards. -/
theorem Combination.mem_construct {cards : List Card} {cardType : CardType}
    (h : Combination cardType (weights cards)) (hatMost : cards.length ≤ 20) :
    (∃ rules, construct cards.length = some rules ∧
      (cardType, predicateOf cardType) ∈ rules) ↔
      ¬ (cardType = .straight ∧ cards.length = 12) := by
  cases cardType with
  | none => exact h.elim
  | single => simp [h.length_eq rfl, construct, predicateOf]
  | double => simp [h.length_eq rfl, construct, predicateOf]
  | twoDouble => simp [h.length_eq rfl, construct, predicateOf]
  | straight =>
      obtain ⟨a, n, hlow, hhigh, -, hperm⟩ := h
      have hlength : cards.length = n := by simpa using length_of_weights_perm hperm
      rw [hlength]
      interval_cases n <;> simp [construct, predicateOf]
  | doubleStraight =>
      obtain ⟨a, n, hlow, -, hperm⟩ := h
      have hlength : cards.length = 2 * n := by simpa using length_of_weights_perm hperm
      rw [hlength] at hatMost ⊢
      have hhigh : n ≤ 10 := by omega
      interval_cases n <;> simp [construct, predicateOf]
  | tripleStraight =>
      obtain ⟨a, n, hlow, -, hperm⟩ := h
      have hlength : cards.length = 3 * n := by simpa using length_of_weights_perm hperm
      rw [hlength] at hatMost ⊢
      have hhigh : n ≤ 6 := by omega
      interval_cases n <;> simp [construct, predicateOf]
  | three => simp [h.length_eq rfl, construct, predicateOf]
  | threeAndOne => simp [h.length_eq rfl, construct, predicateOf]
  | threeAndTwo => simp [h.length_eq rfl, construct, predicateOf]
  | boom => simp [h.length_eq rfl, construct, predicateOf]
  | jokerBoom => simp [h.length_eq rfl, construct, predicateOf]

/-- A straight of twelve cards of the deck runs from three to ace. -/
theorem Hand.fullStraight_of_length {hand : Hand}
    (h : Combination .straight (weights hand.cards)) (hlength : hand.cards.length = 12) :
    FullStraight (weights hand.cards) := by
  obtain ⟨a, n, -, -, hace, hperm⟩ := h
  have hn : n = 12 := by
    have := length_of_weights_perm hperm
    simp at this
    omega
  subst hn
  have heq := (hand.ascending.perm_iff (pairwise_le_blocks _ _ _)).mp hperm
  have hmem : a ∈ weights hand.cards := by
    rw [heq, mem_blocks Nat.one_pos]
    omega
  have hlow := (hand.weight_bounds hmem).1
  simp only [Weight.one, Weight.three] at hace hlow
  rw [heq, show a = Weight.three by simp only [Weight.three]; omega]
  rfl

theorem FullStraight.combination {ws : List Nat} (h : FullStraight ws) :
    Combination .straight ws := by
  refine ⟨Weight.three, 12, by omega, by omega, by decide, ?_⟩
  rw [h]

/-- A triple with two different cards is not a triple with a pair. -/
theorem ThreeWithOddCards.not_threeAndTwo {ws : List Nat} (h : ThreeWithOddCards ws) :
    ¬ Combination .threeAndTwo ws := by
  rintro ⟨v, z, hne, hperm⟩
  -- one of the two odd cards occurs once, and nothing does in a full house
  have hcount : ∀ u, List.count u [v, v, v, z, z] ≠ 1 := by
    intro u
    by_cases hv : v = u
    · by_cases hz : z = u
      · omega
      · simp [hv, hz]
    · by_cases hz : z = u
      · simp [hv, hz]
      · simp [hv, hz]
  obtain ⟨w, x, y, ⟨hwx, hxy, rfl⟩ | ⟨hxy, hyw, rfl⟩⟩ := h
  · refine hcount x ((hperm.count_eq x).symm.trans ?_)
    simp [Nat.ne_of_lt hwx, Nat.ne_of_gt hxy]
  · refine hcount x ((hperm.count_eq x).symm.trans ?_)
    simp [Nat.ne_of_gt hxy, Nat.ne_of_gt (hxy.trans hyw)]

/-- The ruler accepts a selection exactly as the legal combinations do, with
the type of the combination and whatever order `pairs` takes. -/
def RulerAgrees (selection : Selection) : Prop :=
  ∀ pairs : List Rule → List Rule, (∀ rules, (pairs rules).Perm rules) →
    ∀ cardType, canPopWith pairs selection.cards = .accepted cardType ↔
      Combination cardType (weights selection.cards)

/-- The ruler agrees with the legal combinations on exactly those selections
that are neither the straight from three to ace nor a triple with two different
cards on one side of it. -/
theorem rulerAgrees_iff (selection : Selection) :
    RulerAgrees selection ↔
      ¬ FullStraight (weights selection.cards) ∧
        ¬ ThreeWithOddCards (weights selection.cards) := by
  have hasc := selection.ascending
  constructor
  · intro hagree
    have hid := hagree id (fun _ => List.Perm.refl _)
    refine ⟨fun hfull => ?_, fun hodd => ?_⟩
    · have hlegal := hfull.combination
      obtain ⟨rules, htable, hmem, -⟩ :=
        (@canPopWith_accepted_iff _ hasc id (fun _ => List.Perm.refl _) _).mp ((hid _).mpr hlegal)
      refine (hlegal.mem_construct selection.atMost).mp ⟨rules, htable, hmem⟩ ⟨rfl, ?_⟩
      rw [← length_weights, hfull, length_blocks]
    · refine hodd.not_threeAndTwo ((hid .threeAndTwo).mp ?_)
      have hlength : selection.cards.length = 5 := by
        rw [← length_weights]
        obtain ⟨w, x, y, ⟨-, -, heq⟩ | ⟨-, -, heq⟩⟩ := hodd
        · rw [heq]; rfl
        · rw [heq]; rfl
      refine (@canPopWith_accepted_iff _ hasc id (fun _ => List.Perm.refl _) _).mpr ?_
      refine ⟨_, by rw [hlength]; rfl, by simp [predicateOf], ?_⟩
      exact (predicateOf_iff hasc _).mpr (Or.inr ⟨rfl, hodd⟩)
  · rintro ⟨hfull, hodd⟩ pairs hpairs cardType
    rw [canPopWith_accepted_iff hasc hpairs]
    constructor
    · rintro ⟨rules, -, -, hholds⟩
      exact ((predicateOf_iff hasc _).mp hholds).resolve_right fun h => hodd h.2
    · intro hlegal
      have hshort : ¬ (cardType = .straight ∧ selection.cards.length = 12) := by
        rintro ⟨rfl, hlength⟩
        exact hfull (selection.fullStraight_of_length hlegal hlength)
      obtain ⟨rules, htable, hmem⟩ := (hlegal.mem_construct selection.atMost).mpr hshort
      exact ⟨rules, htable, hmem, (predicateOf_iff hasc _).mpr (Or.inl hlegal)⟩

/-- The clubs from three to ace. -/
def straightToAce : Selection where
  cards := (List.range' 3 12).map (Card.mk .club)
  inLibrary := by decide
  nodup := by decide
  ascending := by decide
  nonempty := by decide
  atMost := by decide

/-- Three threes with a four and a five. -/
def threesWithFourFive : Selection where
  cards := [⟨.club, 3⟩, ⟨.heart, 3⟩, ⟨.spade, 3⟩, ⟨.club, 4⟩, ⟨.club, 5⟩]
  inLibrary := by decide
  nodup := by decide
  ascending := by decide
  nonempty := by decide
  atMost := by decide

/-- The longest straight is refused, and a triple with two single cards is
accepted as a triple with a pair. -/
theorem ruler_disagrees :
    (canPop straightToAce.cards = .rejected ∧ ¬ RulerAgrees straightToAce) ∧
      canPop threesWithFourFive.cards = .accepted .threeAndTwo ∧
        ¬ RulerAgrees threesWithFourFive := by
  refine ⟨⟨by decide, fun hagree => ?_⟩, by decide, fun hagree => ?_⟩
  · have hlegal : Combination .straight (weights straightToAce.cards) :=
      ⟨3, 12, by decide, by decide, by decide, by decide⟩
    have haccepted := (hagree id (fun _ => List.Perm.refl _) .straight).mpr hlegal
    exact absurd haccepted (by decide)
  · have hlegal := (hagree id (fun _ => List.Perm.refl _) .threeAndTwo).mp (by decide)
    refine ThreeWithOddCards.not_threeAndTwo ?_ hlegal
    exact ⟨3, 4, 5, Or.inl ⟨by decide, by decide, rfl⟩⟩

end Landlord
end ArmyRs
