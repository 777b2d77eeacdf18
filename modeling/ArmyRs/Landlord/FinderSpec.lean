import ArmyRs.Landlord.ComputerAI
import ArmyRs.Landlord.RulerSpec

/-!
# What the searches of the computer player find

Each family of searches is characterised once, on an ascending hand.

* `findSame_cases`: a search for `k` equal neighbours returns the least weight
  that occurs `k` times and is heavy enough, or there is none.
* `findRun_cases`: a search for a run returns a block list of the hand, or the
  hand has no such block in neighbouring positions.  The loops carry the
  invariant `RunAt`: what has been read since position `i` is a run.
* `findThreeAnd_cases`: a triple and what completes it.

Every lemma also says what happens to the fields of the module, so that a
caller never unfolds a search.
-/

namespace ArmyRs
namespace Landlord

open Foundation

/-! ## Positions and neighbouring blocks -/

theorem slice_sublist (cards : List Card) (i n : Nat) : (slice cards i n).Sublist cards :=
  (List.take_sublist _ _).trans (List.drop_sublist _ _)

/-- The weights of a slice, read position by position. -/
theorem weights_slice {cards : List Card} {i n : Nat} {ws : List Nat} (hi : 1 ≤ i)
    (hn : i + n ≤ cards.length + 1) (hlength : ws.length = n)
    (hread : ∀ r, r < n → ws[r]? = some (weightAt cards (i + r))) :
    weights (slice cards i n) = ws := by
  have hslice : weights (slice cards i n) = ((weights cards).drop (i - 1)).take n := by
    simp [slice, weights, List.map_take, List.map_drop]
  rw [hslice]
  apply List.ext_getElem?
  intro r
  by_cases hr : r < n
  · rw [List.getElem?_take_of_lt hr, List.getElem?_drop, hread r hr,
      weights_getElem? (by omega)]
    congr 2
    omega
  · rw [List.getElem?_eq_none (by simp; omega), List.getElem?_eq_none (by omega)]

/-- Neighbouring entries of the weights stand at neighbouring positions. -/
theorem exists_position_of_isInfix {cards : List Card} {ws : List Nat}
    (h : ws <:+: weights cards) :
    ∃ i, 1 ≤ i ∧ i + ws.length ≤ cards.length + 1 ∧
      ∀ r, r < ws.length → ws[r]? = some (weightAt cards (i + r)) := by
  obtain ⟨pre, post, hsplit⟩ := h
  have hlength : pre.length + ws.length + post.length = cards.length := by
    rw [← length_weights cards, ← hsplit, List.length_append, List.length_append]
  refine ⟨pre.length + 1, by omega, by omega, fun r hr => ?_⟩
  have hread := @weights_getElem? cards (pre.length + r) (by omega)
  rw [← hsplit, List.append_assoc, List.getElem?_append_right (by omega),
    List.getElem?_append_left (by omega)] at hread
  rw [show pre.length + 1 + r = pre.length + r + 1 by omega, ← hread]
  congr 1
  omega

/-! ## Neighbouring cards of one weight -/

/-- `v` occurs `k` times and `k` cards of weight `v` weigh more than `weight`. -/
def Heavy (k : Nat) (ws : List Nat) (weight : Int) (v : Nat) : Prop :=
  k ≤ ws.count v ∧ weight < (k : Int) * v

/-- The least weight a search for `k` equal cards can answer with. -/
def LeastHeavy (k : Nat) (ws : List Nat) (weight : Int) (v : Nat) : Prop :=
  Heavy k ws weight v ∧ ∀ u, Heavy k ws weight u → v ≤ u

theorem LeastHeavy.eq {k : Nat} {ws : List Nat} {weight : Int} {v u : Nat}
    (hv : LeastHeavy k ws weight v) (hu : LeastHeavy k ws weight u) : v = u :=
  Nat.le_antisymm (hv.2 u hu.1) (hu.2 v hv.1)

theorem weights_slice_of_sameAt {k i : Nat} {cards : List Card} (hi : 1 ≤ i)
    (hle : i + k ≤ cards.length + 1) (h : sameAt k cards i = true) :
    weights (slice cards i k) = List.replicate k (weightAt cards i) := by
  refine weights_slice hi hle (by simp) fun r hr => ?_
  have hsame : weightAt cards i = weightAt cards (i + r) := by
    simpa using List.all_eq_true.mp h r (List.mem_range.mpr hr)
  rw [List.getElem?_replicate, if_pos hr, hsame]

/-- A weight that occurs `k` times is seen by the search. -/
theorem exists_sameAt {k v : Nat} {cards : List Card} (hasc : Ascending cards)
    (hk : 0 < k) (hcount : k ≤ (weights cards).count v) :
    ∃ i, 1 ≤ i ∧ i + k ≤ cards.length + 1 ∧ sameAt k cards i = true ∧ weightAt cards i = v := by
  obtain ⟨i, hi, hle, hread⟩ :=
    exists_position_of_isInfix (replicate_infix_of_le_count hasc hcount)
  rw [List.length_replicate] at hle hread
  have hvalue : ∀ r, r < k → weightAt cards (i + r) = v := by
    intro r hr
    have hr' := hread r hr
    rw [List.getElem?_replicate, if_pos hr] at hr'
    exact (Option.some.inj hr').symm
  refine ⟨i, hi, hle, List.all_eq_true.mpr fun r hr => ?_, hvalue 0 hk⟩
  have hr' := List.mem_range.mp hr
  simp [hvalue r hr', show weightAt cards i = v from hvalue 0 hk]

/-- The outcome of a search for `k` equal cards.  `complete` tells that the
search reads every position. -/
def SameOutcome (k : Nat) (complete : Prop) (m : ComputerAI) (cards : List Card)
    (weight : Int) (ti : Bool) (found : Found) : Prop :=
  (∃ (v : Nat) (selects : List Card),
    found = (selects, if ti then m else { m with curWeight := (k : Int) * v, curLength := k }) ∧
    selects.Sublist cards ∧ weights selects = List.replicate k v ∧
    Heavy k (weights cards) weight v ∧
    (complete → LeastHeavy k (weights cards) weight v)) ∨
  (found = ([], m) ∧ (complete → ∀ v, ¬ Heavy k (weights cards) weight v))

/-- The loop of `findSame` finds the least weight there is, or none. -/
theorem findSame_cases {k last : Nat} {m : ComputerAI} {cards : List Card} {weight : Int}
    {ti : Bool} (hasc : Ascending cards) (hk : 0 < k) (hlast : last + k ≤ cards.length + 1) :
    SameOutcome k (last + k = cards.length + 1) m cards weight ti
      (findSame k last m cards weight ti) := by
  unfold findSame
  split
  · next hnone =>
    refine Or.inr ⟨rfl, fun hcomplete v hheavy => ?_⟩
    obtain ⟨i, hi, hle, hsame, hvalue⟩ := exists_sameAt hasc hk hheavy.1
    have hskip := List.find?_eq_none.mp hnone i (mem_forRange_one.mpr ⟨hi, by omega⟩)
    rw [hsame, hvalue] at hskip
    exact hskip (by simpa using hheavy.2)
  · next i hsome =>
    obtain ⟨⟨htest, hi, hle⟩, hleast⟩ := find?_forRange_one hsome
    rw [Bool.and_eq_true, decide_eq_true_iff] at htest
    have hweights := weights_slice_of_sameAt hi (by omega) htest.1
    have hheavy : Heavy k (weights cards) weight (weightAt cards i) := by
      refine ⟨?_, htest.2⟩
      have hsub := (slice_sublist cards i k).map Card.weight
      have hcount := hsub.count_le (weightAt cards i)
      rw [← weights, hweights, List.count_replicate_self] at hcount
      exact hcount
    refine Or.inl ⟨weightAt cards i, slice cards i k, rfl, slice_sublist _ _ _, hweights, hheavy,
      fun hcomplete => ⟨hheavy, fun u hu => ?_⟩⟩
    obtain ⟨j, hj, hjle, hsame, hvalue⟩ := exists_sameAt hasc hk hu.1
    have hij : i ≤ j := hleast j hj (by omega) (by
      rw [hsame, hvalue]
      simpa using hu.2)
    rw [← hvalue]
    exact hasc.weightAt_le hi hij (by omega)

/-- A hand with fewer than `k` cards has no weight `k` times. -/
theorem not_heavy_of_length_lt {k v : Nat} {cards : List Card} {weight : Int}
    (hshort : cards.length < k) : ¬ Heavy k (weights cards) weight v := by
  intro h
  have hle : (weights cards).count v ≤ cards.length := by
    rw [← length_weights]
    exact List.count_le_length
  exact absurd h.1 (by omega)

theorem findSingle_cases {m : ComputerAI} {cards : List Card} {weight : Int} {ti : Bool}
    (hasc : Ascending cards) :
    SameOutcome 1 True m cards weight ti (findSingle m cards weight ti) := by
  have h := @findSame_cases 1 cards.length m cards weight ti hasc Nat.one_pos le_rfl
  rwa [eq_self_iff_true] at h

theorem findDouble_cases {m : ComputerAI} {cards : List Card} {weight : Int} {ti : Bool}
    (hasc : Ascending cards) :
    SameOutcome 2 True m cards weight ti (findDouble m cards weight ti) := by
  unfold findDouble
  split
  · next hshort => exact Or.inr ⟨rfl, fun _ v => not_heavy_of_length_lt hshort⟩
  · have h := @findSame_cases 2 (cards.length - 1) m cards weight ti hasc Nat.two_pos (by omega)
    rwa [show (cards.length - 1 + 2 = cards.length + 1) = True by
      simp only [eq_iff_iff, iff_true]; omega] at h

theorem findThree_cases {m : ComputerAI} {cards : List Card} {weight : Int} {ti : Bool}
    (hasc : Ascending cards) :
    SameOutcome 3 True m cards weight ti (findThree m cards weight ti) := by
  unfold findThree
  split
  · next hshort => exact Or.inr ⟨rfl, fun _ v => not_heavy_of_length_lt hshort⟩
  · have h := @findSame_cases 3 (cards.length - 2) m cards weight ti hasc (Nat.succ_pos 2)
      (by omega)
    rwa [show (cards.length - 2 + 3 = cards.length + 1) = True by
      simp only [eq_iff_iff, iff_true]; omega] at h

theorem findBoom_cases {m : ComputerAI} {cards : List Card} {weight : Int}
    (hasc : Ascending cards) :
    SameOutcome 4 False m cards weight false (findBoom m cards weight) := by
  unfold findBoom
  split
  · exact Or.inr ⟨rfl, False.elim⟩
  · have h := @findSame_cases 4 (cards.length - 4) m cards weight false hasc (Nat.succ_pos 3)
      (by omega)
    rwa [show (cards.length - 4 + 4 = cards.length + 1) = False by
      simp only [eq_iff_iff, iff_false]; omega] at h

/-- No card weighs as much as both jokers, so the joker bomb is never found. -/
theorem findJokerBoom_eq (m : ComputerAI) (cards : List Card) :
    findJokerBoom m cards = ([], m) := by
  unfold findJokerBoom
  split
  · rfl
  · have hnone : (forRange 1 (cards.length - 1) 1).find? (fun i =>
        weightAt cards i == Weight.sJoker && weightAt cards i == Weight.lJoker) = none := by
      refine List.find?_eq_none.mpr fun i _ => ?_
      simp only [Bool.and_eq_true, beq_iff_eq, Weight.sJoker, Weight.lJoker]
      omega
    rw [hnone]

/-- Two consecutive pairs, at the ace at the latest. -/
theorem findTwoDouble_cases {m : ComputerAI} {cards : List Card} {weight : Int} :
    (∃ (a : Nat) (selects : List Card),
      findTwoDouble m cards weight =
        (selects, { m with curWeight := (a : Int) * 2 + (a + 1) * 2, curLength := 4 }) ∧
      selects.Sublist cards ∧ weights selects = blocks 2 a 2 ∧ a + 2 ≤ Weight.one + 1 ∧
      weight < (a : Int) * 2 + (a + 1) * 2) ∨
    findTwoDouble m cards weight = ([], m) := by
  unfold findTwoDouble
  simp only
  split
  · exact Or.inr rfl
  · split
    · exact Or.inr rfl
    · next i hsome =>
      obtain ⟨⟨htest, hi, hle⟩, -⟩ := find?_forRange_one hsome
      split
      · exact Or.inr rfl
      · next hbeyond =>
        simp only [Bool.and_eq_true, Bool.or_eq_true, beq_iff_eq, decide_eq_true_iff]
          at htest hbeyond
        obtain ⟨⟨⟨hfirst, hsecond⟩, hstep⟩, hheavy⟩ := htest
        have hnext : weightAt cards (i + 2) = weightAt cards i + 1 := by omega
        refine Or.inl ⟨weightAt cards i, slice cards i 4, ?_, slice_sublist _ _ _, ?_, ?_, ?_⟩
        · rw [hnext]
          push_cast
          rfl
        · refine weights_slice hi (by omega) (by simp) fun r hr => ?_
          rw [getElem?_blocks (by omega)]
          congr 1
          obtain rfl | rfl | rfl | rfl : r = 0 ∨ r = 1 ∨ r = 2 ∨ r = 3 := by omega
          · rfl
          · exact hfirst
          · exact hnext.symm
          · show weightAt cards i + 1 = weightAt cards (i + 3)
            omega
        · omega
        · have := hheavy.resolve_left hbeyond
          rw [hnext] at this
          push_cast at this
          exact this

/-! ## Runs -/

/-- Positions `i, ..., i + length - 1` hold a run of groups of `k`, and those
after the first are at most the ace. -/
def RunAt (k : Nat) (cards : List Card) (i length : Nat) : Prop :=
  ∀ r, r < length → i + r ≤ cards.length ∧
    weightAt cards (i + r) = weightAt cards i + r / k ∧
    (0 < r → weightAt cards (i + r) ≤ Weight.one)

theorem RunAt.mono {k i length longer : Nat} {cards : List Card}
    (h : RunAt k cards i longer) (hle : length ≤ longer) : RunAt k cards i length :=
  fun r hr => h r (by omega)

/-- One more card continues the run. -/
theorem RunAt.succ_iff {k i length : Nat} {cards : List Card} (hlength : 1 ≤ length)
    (h : RunAt k cards i length) :
    RunAt k cards i (length + 1) ↔
      i + length ≤ cards.length ∧
        weightAt cards (i + length) = weightAt cards i + length / k ∧
        weightAt cards (i + length) ≤ Weight.one := by
  constructor
  · intro hlonger
    obtain ⟨hbound, hvalue, hace⟩ := hlonger length (by omega)
    exact ⟨hbound, hvalue, hace (by omega)⟩
  · rintro ⟨hbound, hvalue, hace⟩ r hr
    rcases Nat.lt_or_ge r length with hlt | hge
    · exact h r hlt
    · obtain rfl : r = length := by omega
      exact ⟨hbound, hvalue, fun _ => hace⟩

/-- The completed groups after one more card. -/
theorem succ_div_eq (k temp : Nat) :
    (temp + 1) / k = if (temp + 1) % k = 0 then temp / k + 1 else temp / k := by
  rw [Nat.succ_div]
  by_cases hdvd : k ∣ temp + 1
  · rw [if_pos hdvd, if_pos (Nat.mod_eq_zero_of_dvd hdvd)]
  · rw [if_neg hdvd, if_neg fun hmod => hdvd (Nat.dvd_of_mod_eq_zero hmod), Nat.add_zero]

/-- The inner loop reaches the wanted number of groups exactly when a run of
that length starts at `i`.  The induction is on the positions still to read;
the first `temp` positions from `i` are a run already. -/
theorem scanRun_cases {k n i : Nat} {cards : List Card} (hk : 0 < k) (js : List Nat)
    (temp : Nat) (hjs : js = List.range' (i + temp) js.length)
    (hend : i + temp + js.length = cards.length + 1) (htemp : 1 ≤ temp) (hlt : temp < k * n)
    (hrun : RunAt k cards i temp) :
    (RunAt k cards i (k * n) ∧
      scanRun k cards (k * n) i js temp (temp / k) (List.range' i temp) =
        (n, List.range' i (k * n))) ∨
    (¬ RunAt k cards i (k * n) ∧
      k * (scanRun k cards (k * n) i js temp (temp / k) (List.range' i temp)).1 ≠ k * n) := by
  have hgroups : k * (temp / k) ≤ temp := Nat.mul_div_le temp k
  induction js generalizing temp with
  | nil =>
      refine Or.inr ⟨fun hlong => ?_, by simp only [scanRun]; omega⟩
      have hbound := (hlong temp hlt).1
      simp only [List.length_nil] at hend
      omega
  | cons j js ih =>
      rw [List.length_cons, List.range'_succ, List.cons.injEq] at hjs
      obtain ⟨rfl, hjs⟩ := hjs
      have hnext := RunAt.succ_iff htemp hrun
      unfold scanRun
      split
      · next hace =>
        refine Or.inr ⟨fun hlong => ?_, by simp only; omega⟩
        have := (hnext.mp (hlong.mono (by omega))).2.2
        omega
      · next hace =>
        split
        · next hstep =>
          have hlonger : RunAt k cards i (temp + 1) := by
            refine hnext.mpr ⟨?_, by omega, by omega⟩
            rw [List.length_cons] at hend
            omega
          have hrange : List.range' i temp ++ [i + temp] = List.range' i (temp + 1) := by
            rw [List.range'_concat, Nat.one_mul]
          simp only [← succ_div_eq, hrange]
          have hgroupsNext : k * ((temp + 1) / k) ≤ temp + 1 := Nat.mul_div_le (temp + 1) k
          split
          · next hdone =>
            have hfull : temp + 1 = k * n := by omega
            rw [hfull] at hlonger
            refine Or.inl ⟨hlonger, ?_⟩
            rw [hfull, Nat.mul_div_cancel_left _ hk]
          · next hdone =>
            refine ih (temp + 1) hjs ?_ (by omega) ?_ hlonger hgroupsNext
            · rw [List.length_cons] at hend
              omega
            · -- a run of `k * n` cards would have completed its last group
              rcases Nat.lt_or_ge (temp + 1) (k * n) with hshort | hlong
              · exact hshort
              · have hfull : temp + 1 = k * n := by omega
                rw [hfull, Nat.mul_div_cancel_left _ hk] at hdone
                exact absurd rfl hdone
        · next hstep =>
          refine Or.inr ⟨fun hlong => ?_, by simp only; omega⟩
          have := (hnext.mp (hlong.mono (by omega))).2.1
          omega

/-- The outer loop stops at the first position where a run starts. -/
theorem runLoop_cases {k n : Nat} {cards : List Card} {weight : Int} (hk : 0 < k)
    (hlength : 1 < k * n) (is : List Nat) (hbound : ∀ i ∈ is, 1 ≤ i ∧ i ≤ cards.length)
    (counter : Nat) (indexList : List Nat) (hcounter : k * counter ≠ k * n) :
    (∃ i ∈ is, weight < weightAt cards i ∧ RunAt k cards i (k * n) ∧
      runLoop k cards weight (k * n) is counter indexList = (n, List.range' i (k * n))) ∨
    ((∀ i ∈ is, weight < weightAt cards i → ¬ RunAt k cards i (k * n)) ∧
      k * (runLoop k cards weight (k * n) is counter indexList).1 ≠ k * n) := by
  induction is generalizing counter indexList with
  | nil => exact Or.inr ⟨by simp, hcounter⟩
  | cons i is ih =>
      have hboundTail : ∀ j ∈ is, 1 ≤ j ∧ j ≤ cards.length :=
        fun j hj => hbound j (List.mem_cons_of_mem _ hj)
      have hi := hbound i List.mem_cons_self
      unfold runLoop
      by_cases hheavy : weight < weightAt cards i
      · simp only [if_pos hheavy]
        have hstart : (if k = 1 then 1 else 0) = 1 / k := by
          split
          · next hone => rw [hone]
          · next hone => rw [Nat.div_eq_of_lt (by omega)]
        have hfirst : RunAt k cards i 1 := by
          intro r hr
          obtain rfl : r = 0 := by omega
          exact ⟨hi.2, by simp, by simp⟩
        have hscan := @scanRun_cases k n i cards hk (forRange (i + 1) cards.length 1) 1
          (by simp [forRange_one]) (by simp [forRange_one]; omega) le_rfl hlength hfirst
        rw [hstart]
        rw [show List.range' i 1 = [i] from rfl] at hscan
        rcases hscan with ⟨hrun, hresult⟩ | ⟨hnorun, hresult⟩
        · rw [hresult, if_pos rfl]
          exact Or.inl ⟨i, List.mem_cons_self, hheavy, hrun, rfl⟩
        · rw [if_neg hresult]
          rcases ih hboundTail _ _ hresult with ⟨j, hj, hjheavy, hrun, heq⟩ | ⟨hnone, hne⟩
          · exact Or.inl ⟨j, List.mem_cons_of_mem _ hj, hjheavy, hrun, heq⟩
          · refine Or.inr ⟨fun j hj => ?_, hne⟩
            rcases List.mem_cons.mp hj with rfl | hj
            · exact fun _ => hnorun
            · exact hnone j hj
      · simp only [if_neg hheavy]
        rw [if_neg hcounter]
        rcases ih hboundTail _ _ hcounter with ⟨j, hj, hjheavy, hrun, heq⟩ | ⟨hnone, hne⟩
        · exact Or.inl ⟨j, List.mem_cons_of_mem _ hj, hjheavy, hrun, heq⟩
        · refine Or.inr ⟨fun j hj => ?_, hne⟩
          rcases List.mem_cons.mp hj with rfl | hj
          · exact fun h => absurd h hheavy
          · exact hnone j hj

/-- The cards at a range of positions are a slice. -/
theorem cardsAt_range' {cards : List Card} {i n : Nat} (hi : 1 ≤ i)
    (hn : i + n ≤ cards.length + 1) : cardsAt cards (List.range' i n) = slice cards i n := by
  induction n generalizing i with
  | zero => rfl
  | succ n ih =>
      have hlt : i - 1 < cards.length := by omega
      have hread : cards[i - 1]? = some cards[i - 1] := List.getElem?_eq_getElem hlt
      have hdrop := List.drop_eq_getElem_cons (i := i - 1) (l := cards) (by omega)
      rw [List.range'_succ, cardsAt, List.filterMap_cons, hread]
      simp only [slice, hdrop, List.take_succ_cons, List.cons.injEq, true_and]
      rw [Nat.sub_add_cancel hi]
      exact ih (by omega) (by omega)

/-- A run read off the hand is a block list of its weights. -/
theorem RunAt.weights_slice {k n i : Nat} {cards : List Card} (hi : 1 ≤ i)
    (hlong : 1 < k * n) (h : RunAt k cards i (k * n)) :
    weights (slice cards i (k * n)) = blocks k (weightAt cards i) n := by
  have hbound := (h (k * n - 1) (by omega)).1
  refine Landlord.weights_slice hi (by omega) (by simp) fun r hr => ?_
  rw [getElem?_blocks hr, (h r hr).2.1]

/-- A block list in neighbouring positions is a run there. -/
theorem exists_runAt {k n a : Nat} {cards : List Card}
    (hace : a + n ≤ Weight.one + 1) (hisInfix : blocks k a n <:+: weights cards) :
    ∃ i, 1 ≤ i ∧ i + k * n ≤ cards.length + 1 ∧ (0 < k * n → weightAt cards i = a) ∧
      RunAt k cards i (k * n) := by
  obtain ⟨i, hi, hle, hread⟩ := exists_position_of_isInfix hisInfix
  rw [length_blocks] at hle hread
  have hvalue : ∀ r, r < k * n → weightAt cards (i + r) = a + r / k := by
    intro r hr
    have hr' := hread r hr
    rw [getElem?_blocks hr] at hr'
    exact (Option.some.inj hr').symm
  refine ⟨i, hi, hle, fun hpos => by simpa using hvalue 0 hpos, fun r hr => ?_⟩
  have hfirst : weightAt cards i = a := by simpa using hvalue 0 (by omega)
  have hgroup : r / k < n := Nat.div_lt_of_lt_mul hr
  rw [hfirst, hvalue r hr]
  exact ⟨by omega, rfl, fun _ => by omega⟩

/-- The outcome of a search for a run of `n` groups of `k`. -/
def RunOutcome (k n : Nat) (m : ComputerAI) (cards : List Card) (weight : Int)
    (found : Found) : Prop :=
  (∃ (a : Nat) (selects : List Card),
    found = (selects,
      { m with curWeight := m.curWeight + sumWeight selects, curLength := (k * n : Nat) }) ∧
    selects.Sublist cards ∧ weights selects = blocks k a n ∧ a + n ≤ Weight.one + 1 ∧
    blocks k a n <:+: weights cards ∧ weight < a) ∨
  (found = ([], m) ∧
    ∀ a, weight < (a : Nat) → a + n ≤ Weight.one + 1 → ¬ blocks k a n <:+: weights cards)

/-- A search for a run finds a block list of the hand in neighbouring
positions, or there is none. -/
theorem findRun_cases {k shortest n : Nat} {m : ComputerAI} {cards : List Card} {weight : Int}
    (hk : 0 < k) (hn : 2 ≤ n) (hshortest : 1 ≤ shortest) (hlong : shortest ≤ k * n) :
    RunOutcome k n m cards weight (findRun k shortest m cards weight (k * n)) := by
  have hpos : 1 < k * n := by
    have := Nat.mul_le_mul hk hn
    omega
  unfold findRun
  split
  · next hshort =>
    refine Or.inr ⟨rfl, fun a _ hace hisInfix => ?_⟩
    obtain ⟨i, hi, hle, -, -⟩ := exists_runAt hace hisInfix
    omega
  · next hshort =>
    have hloop := @runLoop_cases k n cards weight hk hpos
      (forRange 1 (cards.length - (shortest - 1)) 1)
      (fun i hi => by have := mem_forRange_one.mp hi; omega) 0 []
      (by rw [Nat.mul_zero]; omega)
    rcases hloop with ⟨i, hi, hheavy, hrun, hresult⟩ | ⟨hnone, hne⟩
    · have hi' := (mem_forRange_one.mp hi).1
      have hweights := hrun.weights_slice hi' hpos
      have hbound := (hrun (k * n - 1) (by omega)).1
      simp only [hresult, if_pos]
      rw [cardsAt_range' hi' (by omega)]
      refine Or.inl ⟨weightAt cards i, slice cards i (k * n), rfl, slice_sublist _ _ _, hweights,
        ?_, ?_, hheavy⟩
      · -- the last card of the run is at most the ace
        obtain ⟨-, hvalue, hace⟩ := hrun (k * (n - 1)) (by
          have hstep : k * (n - 1) + k = k * n := by
            rw [← Nat.mul_succ, Nat.succ_eq_add_one, Nat.sub_add_cancel (by omega)]
          omega)
        have hlast := hace (Nat.mul_pos hk (by omega))
        rw [hvalue, Nat.mul_div_cancel_left _ hk] at hlast
        omega
      · rw [← hweights]
        simp only [weights, slice]
        exact ((List.take_prefix _ _).isInfix.trans (List.drop_suffix _ _).isInfix).map _
    · simp only [if_neg hne]
      refine Or.inr ⟨rfl, fun a hheavy hace hisInfix => ?_⟩
      obtain ⟨i, hi, hle, hvalue, hrun⟩ := exists_runAt hace hisInfix
      refine hnone i (mem_forRange_one.mpr ⟨hi, by omega⟩) ?_ hrun
      rw [hvalue (by omega)]
      exact hheavy

/-! ## A triple with other cards -/

theorem Heavy.perm {k v : Nat} {ws vs : List Nat} {weight : Int} (hperm : ws.Perm vs)
    (h : Heavy k ws weight v) : Heavy k vs weight v :=
  ⟨hperm.count_eq v ▸ h.1, h.2⟩

theorem LeastHeavy.perm {k v : Nat} {ws vs : List Nat} {weight : Int} (hperm : ws.Perm vs)
    (h : LeastHeavy k ws weight v) : LeastHeavy k vs weight v :=
  ⟨h.1.perm hperm, fun u hu => h.2 u (hu.perm hperm.symm)⟩

/-- Taking cards out of a hand takes their weights out of its weights. -/
theorem weights_diff_perm {cards three : List Card} (hsub : three.Sublist cards) :
    (weights (cards.diff three)).Perm ((weights cards).diff (weights three)) := by
  have hsplit : (three ++ cards.diff three).Perm cards :=
    List.subperm_append_diff_self_of_count_le fun card _ => hsub.count_le card
  have hweights := hsplit.map Card.weight
  refine List.perm_iff_count.mpr fun v => ?_
  have hcount := hweights.count_eq v
  rw [List.map_append, List.count_append] at hcount
  rw [List.count_diff]
  simp only [weights] at hcount ⊢
  omega

/-- What is left of the weights of a hand without three cards of weight `w`. -/
def withoutThree (w : Nat) (ws : List Nat) : List Nat := ws.diff (List.replicate 3 w)

theorem count_withoutThree (w v : Nat) (ws : List Nat) :
    (withoutThree w ws).count v = ws.count v - if w = v then 3 else 0 := by
  rw [withoutThree, List.count_diff, List.count_replicate]
  simp only [beq_iff_eq]

/-- The outcome of a search for a triple with `k` equal cards. -/
def ThreeAndOutcome (k count : Nat) (m : ComputerAI) (cards : List Card) (weight : Int)
    (found : Found) : Prop :=
  (∃ (w x : Nat) (selects : List Card),
    found = (selects, { m with curWeight := m.curWeight + 3 * w, curLength := count }) ∧
    selects.Subperm cards ∧ weights selects = List.replicate 3 w ++ List.replicate k x ∧
    LeastHeavy 3 (weights cards) weight w ∧
    LeastHeavy k (withoutThree w (weights cards)) weight x) ∨
  (found.1 = [] ∧ (found.2 = m ∨ found.2 = { m with curWeight := 0, curLength := 0 }) ∧
    ∀ w, LeastHeavy 3 (weights cards) weight w →
      ∀ x, ¬ Heavy k (withoutThree w (weights cards)) weight x)

/-- The triple is the least heavy one, and its company the least heavy one of
the remaining cards. -/
theorem findThreeAnd_cases {k count : Nat} {kicker : ComputerAI → List Card → Int → Bool → Found}
    {m : ComputerAI} {cards : List Card} {weight : Int} (hasc : Ascending cards) (hk : 0 < k)
    (hkicker : ∀ m cards, Ascending cards →
      SameOutcome k True m cards weight true (kicker m cards weight true)) :
    ThreeAndOutcome k count m cards weight (findThreeAnd count kicker m cards weight) := by
  unfold findThreeAnd
  rcases @findThree_cases m cards weight true hasc with
    ⟨w, three, heq, hsub, hweights, -, hleast⟩ | ⟨heq, hnone⟩
  · have hthree : three.length = 3 := by rw [← length_weights, hweights, List.length_replicate]
    have hsum : sumWeight three = 3 * w := by
      simp only [sumWeight, hweights, List.sum_replicate, smul_eq_mul]
      push_cast
      rfl
    have hrest := weights_diff_perm hsub
    rw [hweights] at hrest
    have hascRest : Ascending (cards.diff three) :=
      hasc.sublist ((List.diff_sublist cards three).map Card.weight)
    simp only [heq, hthree, hsum, if_pos (Nat.succ_pos 2)]
    rcases hkicker { m with curWeight := m.curWeight + 3 * w } _ hascRest with
      ⟨x, others, hothers, hsubOthers, hweightsOthers, -, hleastOthers⟩ | ⟨hothers, hnoneOthers⟩
    · have hlength : 0 < others.length := by
        rw [← length_weights, hweightsOthers, List.length_replicate]
        exact hk
      rw [hothers]
      simp only [if_pos hlength]
      refine Or.inl ⟨w, x, three ++ others, rfl, ?_, ?_, hleast trivial,
        (hleastOthers trivial).perm hrest⟩
      · have hsplit : (three ++ cards.diff three).Perm cards :=
          List.subperm_append_diff_self_of_count_le fun card _ => hsub.count_le card
        exact (hsubOthers.append_left three).subperm.trans hsplit.subperm
      · rw [weights_append, hweights, hweightsOthers]
    · rw [hothers]
      simp only [List.length_nil, Nat.lt_irrefl, if_false]
      refine Or.inr ⟨rfl, Or.inr rfl, fun v hv x hx => ?_⟩
      rw [← (hleast trivial).eq hv] at hx
      exact hnoneOthers trivial x (hx.perm hrest.symm)
  · simp only [heq, List.length_nil, gt_iff_lt, Nat.lt_irrefl, if_false]
    exact Or.inr ⟨rfl, Or.inl rfl, fun w hw => absurd hw.1 (hnone trivial w)⟩

theorem findThreeAndTwo_cases {m : ComputerAI} {cards : List Card} {weight : Int}
    (hasc : Ascending cards) :
    ThreeAndOutcome 2 5 m cards weight (findThreeAndTwo m cards weight) :=
  findThreeAnd_cases hasc Nat.two_pos fun _ _ hasc => findDouble_cases hasc

theorem findThreeAndOne_cases {m : ComputerAI} {cards : List Card} {weight : Int}
    (hasc : Ascending cards) :
    ThreeAndOutcome 1 4 m cards weight (findThreeAndOne m cards weight) :=
  findThreeAnd_cases hasc Nat.one_pos fun _ _ hasc => findSingle_cases hasc

end Landlord
end ArmyRs
