import ArmyRs.Match.PoolPlaces

/-!
# When `do_match` raises for 4v4

The sides for 4v4 have one with two parts of the same group, two teams of two.
A pick looks at the length of the queue for each part by itself, so with one
team of two in the queue it begins to `shift`, and the second `shift` finds the
queue empty.

Whether this happens depends on the lengths of the four queues when `do_match`
begins.  `Overdraws` says when.  A turn of a loop that does not raise takes two
sides away and leaves the answer as it was (`Turn`); together with what each
loop leaves behind this settles it (`places_iff`).
-/

namespace ArmyRs
namespace Match
namespace TeamMatch

open Foundation

variable {pool next : TeamMatch} {parts : List Part} {taken : List Item}

/-! ## Lengths -/

/-- The lengths of the queues. -/
def waiting (pool : TeamMatch) (groupid : Nat) : Nat :=
  (pool.teamInfos groupid).length

/-- How many teams of a group the parts ask for. -/
def needed (parts : List Part) (groupid : Nat) : Nat :=
  (parts.map fun part => if part.groupid = groupid then part.count else 0).sum

theorem needed_cons (part : Part) (parts : List Part) (groupid : Nat) :
    needed (part :: parts) groupid =
      (if part.groupid = groupid then part.count else 0) + needed parts groupid :=
  List.sum_cons

theorem waiting_drop (part : Part) (groupid : Nat) :
    (pool.setGroup part.groupid ((pool.teamInfos part.groupid).drop part.count)).waiting groupid =
      pool.waiting groupid - if part.groupid = groupid then part.count else 0 := by
  unfold waiting setGroup
  dsimp only
  by_cases heq : part.groupid = groupid
  · subst heq
    rw [Function.update_self, List.length_drop, if_pos rfl]
  · rw [Function.update_of_ne (Ne.symm heq), if_neg heq, Nat.sub_zero]

/-- What a pick says about the lengths. -/
def Pick.Counts (before : Nat → Nat) (parts : List Part) : Pick → Prop
  | .refused => ∃ part ∈ parts, before part.groupid < part.count
  | .picked next taken =>
      (∀ part ∈ parts, part.count ≤ before part.groupid) ∧
        (∀ groupid, next.waiting groupid + needed parts groupid = before groupid) ∧
        taken.length = (parts.map Part.count).sum
  | .raised _ =>
      (∀ part ∈ parts, part.count ≤ before part.groupid) ∧
        ∃ groupid, before groupid < needed parts groupid

/-- The `shift` loops take what is needed, or some group has less. -/
theorem shiftParts_waiting :
    (∀ next all, pool.shiftParts parts taken = .picked next all →
      (∀ groupid, next.waiting groupid + needed parts groupid = pool.waiting groupid) ∧
        all.length = taken.length + (parts.map Part.count).sum) ∧
    (∀ raisedPool, pool.shiftParts parts taken = .raised raisedPool →
      ∃ groupid, pool.waiting groupid < needed parts groupid) ∧
    pool.shiftParts parts taken ≠ .refused := by
  induction parts generalizing pool taken with
  | nil =>
      refine ⟨?_, fun _ h => (by cases h), fun h => (by cases h)⟩
      intro next all hpick
      cases hpick
      exact ⟨fun _ => rfl, rfl⟩
  | cons part parts ih =>
      unfold shiftParts
      dsimp only
      split
      · next hshort =>
        refine ⟨fun _ _ h => (by cases h), ?_, fun h => (by cases h)⟩
        intro _ _
        refine ⟨part.groupid, ?_⟩
        rw [needed_cons, if_pos rfl]
        exact Nat.lt_add_right _ hshort
      · next hlong =>
        obtain ⟨hpicked, hraised, hrefused⟩ := @ih
          (pool.setGroup part.groupid ((pool.teamInfos part.groupid).drop part.count))
          (taken ++ (pool.teamInfos part.groupid).take part.count)
        have henough : ∀ groupid,
            (if part.groupid = groupid then part.count else 0) ≤ pool.waiting groupid := by
          intro groupid
          split
          · next heq =>
            subst heq
            exact Nat.le_of_not_lt hlong
          · exact Nat.zero_le _
        refine ⟨?_, ?_, hrefused⟩
        · intro next all hpick
          obtain ⟨hwaiting, hlength⟩ := hpicked next all hpick
          constructor
          · intro groupid
            have hgroup := hwaiting groupid
            have hle := henough groupid
            rw [waiting_drop] at hgroup
            rw [needed_cons]
            omega
          · have htake : ((pool.teamInfos part.groupid).take part.count).length = part.count := by
              rw [List.length_take]
              exact Nat.min_eq_left (Nat.le_of_not_lt hlong)
            rw [hlength, List.length_append, htake, List.map_cons, List.sum_cons, Nat.add_assoc]
        · intro raisedPool hpick
          obtain ⟨groupid, hless⟩ := hraised raisedPool hpick
          have hle := henough groupid
          rw [waiting_drop] at hless
          refine ⟨groupid, ?_⟩
          rw [needed_cons]
          omega

theorem pickTeamPart_counts : (pool.pickTeamPart parts).Counts pool.waiting parts := by
  unfold pickTeamPart
  split
  · next hlengths =>
    have henough : ∀ part ∈ parts, part.count ≤ pool.waiting part.groupid :=
      fun part hpart => of_decide_eq_true (List.all_eq_true.mp hlengths part hpart)
    obtain ⟨hpicked, hraised, hrefused⟩ := @shiftParts_waiting pool parts []
    cases hpick : pool.shiftParts parts [] with
    | refused => exact absurd hpick hrefused
    | raised raisedPool => exact ⟨henough, hraised raisedPool hpick⟩
    | picked next all =>
        obtain ⟨hwaiting, hlength⟩ := hpicked next all hpick
        rw [List.length_nil, Nat.zero_add] at hlength
        exact ⟨henough, hwaiting, hlength⟩
  · next hlengths =>
    rw [List.all_eq_true] at hlengths
    push Not at hlengths
    obtain ⟨part, hpart, hshort⟩ := hlengths
    refine ⟨part, hpart, Nat.lt_of_not_le fun hle => hshort ?_⟩
    exact decide_eq_true hle

/-- The teams that go back make up for what was needed. -/
theorem putBack_waiting {itemLeft : List Item}
    (hlength : itemLeft.length = (parts.map Part.count).sum) (groupid : Nat) :
    (pool.putBack parts itemLeft).waiting groupid =
      pool.waiting groupid + needed parts groupid := by
  induction parts generalizing pool itemLeft with
  | nil => rfl
  | cons part parts ih =>
      rw [List.map_cons, List.sum_cons] at hlength
      unfold putBack
      rw [ih (by rw [List.length_drop]; omega), needed_cons]
      have hpush : (pool.setGroup part.groupid
          (pool.teamInfos part.groupid ++ itemLeft.take part.count)).waiting groupid =
            pool.waiting groupid + if part.groupid = groupid then part.count else 0 := by
        unfold waiting setGroup
        dsimp only
        by_cases heq : part.groupid = groupid
        · subst heq
          rw [Function.update_self, List.length_append, List.length_take, if_pos rfl]
          omega
        · rw [Function.update_of_ne (Ne.symm heq), if_neg heq, Nat.add_zero]
      rw [hpush, Nat.add_assoc]

/-! ## Loops -/

/-- One turn of `match_Pair_I` or `match_Pair_II`: it raises only if `Bad`,
leaves with `Done`, or finds an opponent and keeps `Inv`. -/
def Turn (sides : List (List Part)) (parts : List Part) (Inv Done : TeamMatch → Prop)
    (Bad : Prop) (pool : TeamMatch) : Prop :=
  match pool.pickTeamPart parts with
  | .refused => Done pool
  | .raised _ => Bad
  | .picked middle itemLeft =>
      match middle.pickRight sides with
      | .refused => Done (middle.putBack parts itemLeft)
      | .raised _ => Bad
      | .picked last _ => Inv last

/-- How a part of `do_match` ends. -/
def Round.Ends (Done : TeamMatch → Prop) (Bad : Prop) (round : Round) : Prop :=
  (round.raised = true → Bad) ∧ (round.raised = false → Done round.pool)

theorem matchPair_ends {sides : List (List Part)} {part : Part} {turns : Nat} {res : List Pair}
    {Inv Done : TeamMatch → Prop} {Bad : Prop} (hcount : 0 < part.count)
    (hturn : ∀ pool, Inv pool → Turn sides (part :: parts) Inv Done Bad pool)
    (hinv : Inv pool) (hturns : pool.turns (part :: parts) ≤ turns) :
    (matchPair sides (part :: parts) turns pool res).Ends Done Bad := by
  induction turns generalizing pool res with
  | zero =>
      -- the loop has left by its condition
      have hshort : pool.waiting part.groupid = 0 := Nat.le_zero.mp hturns
      have hhere := hturn pool hinv
      have hcounts := @pickTeamPart_counts pool (part :: parts)
      unfold Turn at hhere
      refine ⟨fun h => (by cases h), fun _ => ?_⟩
      cases hpick : pool.pickTeamPart (part :: parts) with
      | refused =>
          rw [hpick] at hhere
          exact hhere
      | raised raisedPool =>
          rw [hpick] at hcounts
          have hpart := hcounts.1 part List.mem_cons_self
          omega
      | picked middle itemLeft =>
          rw [hpick] at hcounts
          have hpart := hcounts.1 part List.mem_cons_self
          omega
  | succ turns ih =>
      have hhere := hturn pool hinv
      unfold Turn at hhere
      unfold matchPair
      cases hpick : pool.pickTeamPart (part :: parts) with
      | refused =>
          rw [hpick] at hhere
          exact ⟨fun h => (by cases h), fun _ => hhere⟩
      | raised raisedPool =>
          rw [hpick] at hhere
          exact ⟨fun _ => hhere, fun h => (by cases h)⟩
      | picked middle itemLeft =>
          rw [hpick] at hhere
          have hleft := turns_pickTeamPart hcount hpick
          dsimp only at hhere ⊢
          cases hpickRight : middle.pickRight sides with
          | refused =>
              rw [hpickRight] at hhere
              exact ⟨fun h => (by cases h), fun _ => hhere⟩
          | raised raisedPool =>
              rw [hpickRight] at hhere
              exact ⟨fun _ => hhere, fun h => (by cases h)⟩
          | picked last itemRight =>
              rw [hpickRight] at hhere
              have hright : (middle.pickRight sides).Shortens middle := pickRight_shortens
              rw [hpickRight] at hright
              have hlast : last.turns (part :: parts) ≤ middle.turns (part :: parts) :=
                hright part.groupid
              exact ih hhere (by omega)

theorem matchSides_ends {sides others : List (List Part)} {part : Part} {round : Round}
    {Inv Between Done : TeamMatch → Prop} {Bad : Prop} (hcount : 0 < part.count)
    (hturn : ∀ pool, Inv pool → Turn sides (part :: parts) Inv Between Bad pool)
    (hothers : ∀ round : Round, round.Ends Between Bad →
      (matchSides sides others round).Ends Done Bad)
    (hround : round.Ends Inv Bad) :
    (matchSides sides ((part :: parts) :: others) round).Ends Done Bad := by
  cases hraised : round.raised with
  | true =>
      rw [matchSides_raised hraised]
      refine ⟨hround.1, fun h => ?_⟩
      rw [hraised] at h
      cases h
  | false =>
      unfold matchSides
      rw [if_neg (by rw [hraised]; exact Bool.false_ne_true)]
      exact hothers _ (matchPair_ends hcount hturn (hround.2 hraised) le_rfl)

/-! ## The sides for 4v4 -/

/-- With these queue lengths `do_match` raises.  Either the teams of two do not
come out even, or two of them are left over without an opponent next to two or
three single players. -/
def Overdraws (waiting : Nat → Nat) : Prop :=
  waiting 2 % 2 = 1 ∨
    0 < waiting 2 ∧ (waiting 1 = waiting 3 + 2 ∨ waiting 1 = waiting 3 + 3) ∧
      (waiting 2 / 2 + waiting 3 + waiting 4) % 2 = 1

instance (waiting : Nat → Nat) : Decidable (Overdraws waiting) :=
  inferInstanceAs (Decidable (_ ∨ _))

/-- There is neither a team of four nor one of three with a single player. -/
def NoFour (waiting : Nat → Nat) : Prop :=
  waiting 4 = 0 ∧ (waiting 3 = 0 ∨ waiting 1 = 0)

/-- The teams of one side leave the queues. -/
structure Takes (parts : List Part) (before after : Nat → Nat) : Prop where
  ones : after 1 + needed parts 1 = before 1
  twos : after 2 + needed parts 2 = before 2
  threes : after 3 + needed parts 3 = before 3
  fours : after 4 + needed parts 4 = before 4

/-- A right side leaves the queues.  A team of two always goes with another
one: the side of a team of two and two single players comes after it. -/
def Opposes (before after : Nat → Nat) : Prop :=
  Takes [⟨4, 1⟩] before after ∨
    (before 4 = 0 ∧ Takes [⟨3, 1⟩, ⟨1, 1⟩] before after) ∨
    (NoFour before ∧ Takes [⟨2, 1⟩, ⟨2, 1⟩] before after) ∨
    (NoFour before ∧ before 2 = 0 ∧ Takes [⟨1, 4⟩] before after)

/-- How the search for a right side ends. -/
def RightEnds (before : Nat → Nat) : Pick → Prop
  | .refused => NoFour before ∧ before 2 = 0 ∧ before 1 < 4
  | .raised _ => NoFour before ∧ before 2 = 1
  | .picked next _ => Opposes before next.waiting

theorem takes_of_picked (hpick : pool.pickTeamPart parts = .picked next taken) :
    Takes parts pool.waiting next.waiting := by
  have hcounts := @pickTeamPart_counts pool parts
  rw [hpick] at hcounts
  have hwaiting := hcounts.2.1
  exact ⟨hwaiting 1, hwaiting 2, hwaiting 3, hwaiting 4⟩

/-- A pick of two teams of two raises when there is one. -/
theorem twos_of_raised (hpick : pool.pickTeamPart [⟨2, 1⟩, ⟨2, 1⟩] = .raised next) :
    pool.waiting 2 = 1 := by
  have hcounts := @pickTeamPart_counts pool [⟨2, 1⟩, ⟨2, 1⟩]
  rw [hpick] at hcounts
  obtain ⟨henough, groupid, hless⟩ := hcounts
  have hone : 1 ≤ pool.waiting 2 := henough ⟨2, 1⟩ List.mem_cons_self
  by_cases heq : groupid = 2
  · subst heq
    have htwo : needed [⟨2, 1⟩, ⟨2, 1⟩] 2 = 2 := rfl
    omega
  · have hzero : needed [⟨2, 1⟩, ⟨2, 1⟩] groupid = 0 := by
      rw [needed_cons, needed_cons, if_neg (Ne.symm heq)]
      rfl
    omega

/-- The search for a right side, by what the first side does. -/
theorem pickRight_rule {others : List (List Part)} {Goal : Pick → Prop}
    (hrefused : (∃ part ∈ parts, pool.waiting part.groupid < part.count) →
      Goal (pool.pickRight others))
    (hraised : ∀ next, pool.pickTeamPart parts = .raised next → Goal (.raised next))
    (hpicked : ∀ next taken, pool.pickTeamPart parts = .picked next taken →
      Goal (.picked next taken)) :
    Goal (pool.pickRight (parts :: others)) := by
  have hcounts := @pickTeamPart_counts pool parts
  rw [pickRight]
  cases hpick : pool.pickTeamPart parts with
  | refused =>
      rw [hpick] at hcounts
      exact hrefused hcounts
  | raised next => exact hraised next hpick
  | picked next taken => exact hpicked next taken hpick

theorem pickRight_fours : RightEnds pool.waiting (pool.pickRight CombatType.ct4v4.sides) := by
  apply pickRight_rule
  case hraised => exact fun next h => absurd h (pickTeamPart_ne_raised (by decide) next)
  case hpicked => exact fun next taken h => .inl (takes_of_picked h)
  intro hfour
  have hfour : pool.waiting 4 = 0 := by simpa using hfour
  apply pickRight_rule
  case hraised => exact fun next h => absurd h (pickTeamPart_ne_raised (by decide) next)
  case hpicked => exact fun next taken h => .inr (.inl ⟨hfour, takes_of_picked h⟩)
  intro hthree
  have hnone : NoFour pool.waiting := ⟨hfour, by simpa using hthree⟩
  apply pickRight_rule
  case hraised => exact fun next h => ⟨hnone, twos_of_raised h⟩
  case hpicked => exact fun next taken h => .inr (.inr (.inl ⟨hnone, takes_of_picked h⟩))
  intro htwo
  have htwo : pool.waiting 2 = 0 := by simpa using htwo
  apply pickRight_rule
  case hraised => exact fun next h => absurd h (pickTeamPart_ne_raised (by decide) next)
  case hpicked =>
    intro next taken h
    have htwos := (takes_of_picked h).twos
    have hneeded : needed [⟨2, 1⟩, ⟨1, 2⟩] 2 = 1 := rfl
    omega
  intro _
  apply pickRight_rule
  case hraised => exact fun next h => absurd h (pickTeamPart_ne_raised (by decide) next)
  case hpicked => exact fun next taken h => .inr (.inr (.inr ⟨hnone, htwo, takes_of_picked h⟩))
  intro hone
  exact ⟨hnone, htwo, by simpa using hone⟩

/-! ## The five loops -/

/-- What a loop has to keep, in terms of the lengths: `Enter` holds before each
turn, `Leave` afterwards, and no pair changes whether the lengths overdraw. -/
structure Phase (parts : List Part) (Enter Leave : (Nat → Nat) → Prop) : Prop where
  refused : ∀ {before}, Enter before → (∃ part ∈ parts, before part.groupid < part.count) →
    Leave before
  raised : ∀ {before}, Enter before → (∃ groupid, before groupid < needed parts groupid) →
    (∀ part ∈ parts, part.count ≤ before part.groupid) → Overdraws before
  alone : ∀ {before middle}, Enter before → Takes parts before middle → NoFour middle →
    middle 2 = 0 → middle 1 < 4 → Leave before
  overdrawn : ∀ {before middle}, Enter before → Takes parts before middle → NoFour middle →
    middle 2 = 1 → Overdraws before
  opposed : ∀ {before middle after}, Enter before → Takes parts before middle →
    Opposes middle after → Enter after ∧ (Overdraws after ↔ Overdraws before)

theorem turn_of_phase {Enter Leave : (Nat → Nat) → Prop} {Bad : Prop}
    (hphase : Phase parts Enter Leave)
    (hpool : Enter pool.waiting ∧ (Overdraws pool.waiting ↔ Bad)) :
    Turn CombatType.ct4v4.sides parts
      (fun pool => Enter pool.waiting ∧ (Overdraws pool.waiting ↔ Bad))
      (fun pool => Leave pool.waiting ∧ (Overdraws pool.waiting ↔ Bad)) Bad pool := by
  obtain ⟨henter, hbad⟩ := hpool
  have hcounts := @pickTeamPart_counts pool parts
  unfold Turn
  cases hpick : pool.pickTeamPart parts with
  | refused =>
      rw [hpick] at hcounts
      exact ⟨hphase.refused henter hcounts, hbad⟩
  | raised next =>
      rw [hpick] at hcounts
      exact hbad.mp (hphase.raised henter hcounts.2 hcounts.1)
  | picked middle itemLeft =>
      rw [hpick] at hcounts
      have htakes := takes_of_picked hpick
      have hright := @pickRight_fours middle
      dsimp only
      cases hpickRight : middle.pickRight CombatType.ct4v4.sides with
      | refused =>
          rw [hpickRight] at hright
          obtain ⟨hnone, htwo, hone⟩ := hright
          have hback : (middle.putBack parts itemLeft).waiting = pool.waiting := by
            funext groupid
            rw [putBack_waiting hcounts.2.2]
            exact hcounts.2.1 groupid
          show Leave (middle.putBack parts itemLeft).waiting ∧
            (Overdraws (middle.putBack parts itemLeft).waiting ↔ Bad)
          rw [hback]
          exact ⟨hphase.alone henter htakes hnone htwo hone, hbad⟩
      | raised next =>
          rw [hpickRight] at hright
          exact hbad.mp (hphase.overdrawn henter htakes hright.1 hright.2)
      | picked last itemRight =>
          rw [hpickRight] at hright
          obtain ⟨hafter, hsame⟩ := hphase.opposed henter htakes hright
          exact ⟨hafter, hsame.trans hbad⟩

theorem needed_eq_zero {groupid : Nat} (hnone : groupid ∉ parts.map Part.groupid) :
    needed parts groupid = 0 := by
  induction parts with
  | nil => rfl
  | cons part parts ih =>
      rw [List.map_cons, List.mem_cons, not_or] at hnone
      rw [needed_cons, if_neg (Ne.symm hnone.1), ih hnone.2]

/-- With one part for each group the lengths that were checked suffice. -/
theorem needed_le {before : Nat → Nat} (hnodup : (parts.map Part.groupid).Nodup)
    (henough : ∀ part ∈ parts, part.count ≤ before part.groupid) (groupid : Nat) :
    needed parts groupid ≤ before groupid := by
  induction parts with
  | nil => exact Nat.zero_le _
  | cons part parts ih =>
      rw [List.map_cons, List.nodup_cons] at hnodup
      rw [needed_cons]
      by_cases heq : part.groupid = groupid
      · subst heq
        rw [if_pos rfl, needed_eq_zero hnodup.1, Nat.add_zero]
        exact henough part List.mem_cons_self
      · rw [if_neg heq, Nat.zero_add]
        exact ih hnodup.2 fun other hother => henough other (List.mem_cons_of_mem _ hother)

theorem not_overdrawn {before : Nat → Nat} {Goal : Prop}
    (hnodup : (parts.map Part.groupid).Nodup)
    (hless : ∃ groupid, before groupid < needed parts groupid)
    (henough : ∀ part ∈ parts, part.count ≤ before part.groupid) : Goal := by
  obtain ⟨groupid, hless⟩ := hless
  exact absurd (needed_le hnodup henough groupid) (Nat.not_le_of_lt hless)

/-- The right sides in numbers. -/
theorem Opposes.cases {before after : Nat → Nat} (hopposes : Opposes before after) :
    (before 4 = after 4 + 1 ∧ before 3 = after 3 ∧ before 2 = after 2 ∧
      before 1 = after 1) ∨
    (before 4 = 0 ∧ after 4 = 0 ∧ before 3 = after 3 + 1 ∧ before 2 = after 2 ∧
      before 1 = after 1 + 1) ∨
    (NoFour before ∧ NoFour after ∧ after 3 = before 3 ∧ before 2 = after 2 + 2 ∧
      before 1 = after 1) ∨
    (NoFour before ∧ after 4 = 0 ∧ before 3 = after 3 ∧ before 2 = 0 ∧ after 2 = 0 ∧
      before 1 = after 1 + 4) := by
  rcases hopposes with h | ⟨_, h⟩ | ⟨_, h⟩ | ⟨_, _, h⟩
  all_goals
    obtain ⟨hones, htwos, hthrees, hfours⟩ := h
    simp only [needed, List.map_cons, List.map_nil, List.sum_cons, List.sum_nil] at *
    unfold NoFour at *
    simp at *
    omega

/-- The teams of four: afterwards there is none, or no team of two. -/
theorem phase_four : Phase [⟨4, 1⟩] (fun _ => True) (fun w => w 2 = 0 ∨ w 4 = 0) := by
  constructor
  · intro before _ hshort
    simp at hshort
    exact .inr hshort
  · exact fun _ => not_overdrawn (by decide)
  · intro before middle _ ⟨_, htwos, _, _⟩ _ htwo _
    simp [needed] at htwos
    exact .inl (htwos ▸ htwo)
  · intro before middle _ ⟨_, htwos, _, _⟩ _ htwo
    simp [needed] at htwos
    unfold Overdraws
    omega
  · intro before middle after _ ⟨hones, htwos, hthrees, hfours⟩ hopposes
    simp [needed] at hones htwos hthrees hfours
    have hright := hopposes.cases
    refine ⟨trivial, ?_⟩
    unfold NoFour at hright
    unfold Overdraws
    omega

/-- Then the teams of three with a single player. -/
theorem phase_threeOne :
    Phase [⟨3, 1⟩, ⟨1, 1⟩] (fun w => w 2 = 0 ∨ w 4 = 0) (fun w => w 2 = 0 ∨ NoFour w) := by
  constructor
  · intro before henter hshort
    simp at hshort
    unfold NoFour
    omega
  · exact fun _ => not_overdrawn (by decide)
  · intro before middle _ ⟨_, htwos, _, _⟩ _ htwo _
    simp [needed] at htwos
    exact .inl (htwos ▸ htwo)
  · intro before middle _ ⟨_, htwos, _, _⟩ _ htwo
    simp [needed] at htwos
    unfold Overdraws
    omega
  · intro before middle after henter ⟨hones, htwos, hthrees, hfours⟩ hopposes
    simp [needed] at hones htwos hthrees hfours
    have hright := hopposes.cases
    unfold NoFour at hright
    unfold Overdraws
    omega

/-- Then the teams of two, two on each side or two against four single players;
the last two may find no opponent. -/
theorem phase_twoTwo :
    Phase [⟨2, 1⟩, ⟨2, 1⟩] (fun w => w 2 = 0 ∨ NoFour w)
      (fun w => w 2 = 0 ∨ w 2 = 2 ∧ NoFour w ∧ w 1 < 4) := by
  constructor
  · intro before _ hshort
    simp at hshort
    exact .inl hshort
  · intro before _ ⟨groupid, hless⟩ henough
    have hone : 1 ≤ before 2 := henough ⟨2, 1⟩ List.mem_cons_self
    by_cases heq : groupid = 2
    · subst heq
      simp [needed] at hless
      unfold Overdraws
      omega
    · have hzero : needed [⟨2, 1⟩, ⟨2, 1⟩] groupid = 0 :=
        needed_eq_zero (by simpa using heq)
      omega
  · intro before middle henter ⟨hones, htwos, hthrees, hfours⟩ hnone htwo hone
    simp [needed] at hones htwos hthrees hfours
    unfold NoFour at *
    omega
  · intro before middle _ ⟨_, htwos, _, _⟩ _ htwo
    simp [needed] at htwos
    unfold Overdraws
    omega
  · intro before middle after henter ⟨hones, htwos, hthrees, hfours⟩ hopposes
    simp [needed] at hones htwos hthrees hfours
    have hright := hopposes.cases
    unfold NoFour at *
    unfold Overdraws
    omega

/-- A team of two with two single players takes one of the last two teams of
two, and the other one has no partner. -/
theorem phase_twoOnes :
    Phase [⟨2, 1⟩, ⟨1, 2⟩] (fun w => w 2 = 0 ∨ w 2 = 2 ∧ NoFour w ∧ w 1 < 4)
      (fun w => w 2 = 0 ∨ w 2 = 2 ∧ w 1 < 2) := by
  constructor
  · intro before henter hshort
    simp at hshort
    omega
  · exact fun _ => not_overdrawn (by decide)
  · intro before middle henter ⟨_, htwos, _, _⟩ _ htwo _
    simp [needed] at htwos
    omega
  · intro before middle henter ⟨hones, htwos, hthrees, hfours⟩ _ htwo
    simp [needed] at hones htwos hthrees hfours
    unfold NoFour at henter
    unfold Overdraws
    omega
  · intro before middle after henter ⟨hones, htwos, hthrees, hfours⟩ hopposes
    simp [needed] at hones htwos hthrees hfours
    have hright := hopposes.cases
    unfold NoFour at *
    unfold Overdraws
    omega

/-- The single players do not meet a team of two any more. -/
theorem phase_ones :
    Phase [⟨1, 4⟩] (fun w => w 2 = 0 ∨ w 2 = 2 ∧ w 1 < 2) (fun w => ¬ Overdraws w) := by
  constructor
  · intro before henter _
    unfold Overdraws
    omega
  · exact fun _ => not_overdrawn (by decide)
  · intro before middle henter _ _ _ _
    unfold Overdraws
    omega
  · intro before middle henter ⟨hones, htwos, _, _⟩ _ htwo
    simp [needed] at hones htwos
    omega
  · intro before middle after henter ⟨hones, htwos, hthrees, hfours⟩ hopposes
    simp [needed] at hones htwos hthrees hfours
    have hright := hopposes.cases
    unfold NoFour at hright
    unfold Overdraws
    omega

/-! ## `do_match` -/

theorem doMatch_raised_iff (htype : pool.combatType = .ct4v4) :
    pool.doMatch.raised = true ↔ Overdraws pool.waiting := by
  have hends : pool.doMatch.Ends
      (fun last => ¬ Overdraws last.waiting ∧
        (Overdraws last.waiting ↔ Overdraws pool.waiting)) (Overdraws pool.waiting) := by
    unfold doMatch
    rw [htype]
    apply matchSides_ends Nat.one_pos (fun _ => turn_of_phase phase_four)
    case hround => exact ⟨fun h => (by cases h), fun _ => ⟨trivial, Iff.rfl⟩⟩
    intro _ hround
    apply matchSides_ends Nat.one_pos (fun _ => turn_of_phase phase_threeOne) _ hround
    intro _ hround
    apply matchSides_ends Nat.one_pos (fun _ => turn_of_phase phase_twoTwo) _ hround
    intro _ hround
    apply matchSides_ends Nat.one_pos (fun _ => turn_of_phase phase_twoOnes) _ hround
    intro _ hround
    apply matchSides_ends (by decide) (fun _ => turn_of_phase phase_ones) _ hround
    exact fun _ h => h
  constructor
  · exact hends.1
  · intro hoverdraws
    by_contra hraised
    obtain ⟨hnot, hsame⟩ := hends.2 (Bool.eq_false_of_not_eq_true hraised)
    exact hnot (hsame.mpr hoverdraws)

variable {arrays : Arrays}

/-- For a pool for 4v4 `do_match` does what it is for unless the lengths of the
queues overdraw. -/
theorem fourVersusFour_places_iff (htype : pool.combatType = .ct4v4)
    (hlisted : pool.Listed arrays) :
    pool.Places arrays ↔ ¬ Overdraws pool.waiting := by
  rw [← doMatch_raised_iff htype, Bool.not_eq_true]
  exact ⟨Places.raised, places_of_not_raised hlisted⟩

/-- A team of two. -/
def aloneTwo : TeamMatch := ((emptyPool .ct4v4).addTeam 21 2 2).1

theorem listed_aloneTwo : aloneTwo.Listed countedArrays :=
  (listed_emptyPool .ct4v4).addTeam 21 2

example : Overdraws aloneTwo.waiting := by decide

/-- Two teams of two and a team of four. -/
def twosAndFour : TeamMatch := ((aloneTwo.addTeam 22 2 2).1.addTeam 23 4 4).1

theorem fourVersusFour_twosAndFour :
    twosAndFour.Places countedArrays ↔ ¬ Overdraws twosAndFour.waiting :=
  fourVersusFour_places_iff rfl ((listed_aloneTwo.addTeam 22 2).addTeam 23 4)

/-- A team of two without company makes `do_match` raise. -/
theorem not_places_aloneTwo :
    ¬ ∀ (arrays : Arrays) (pool : TeamMatch), pool.combatType = .ct4v4 →
      pool.Listed arrays → pool.Places arrays := by
  intro h
  have hplaces : aloneTwo.Places countedArrays := h _ _ rfl listed_aloneTwo
  exact absurd hplaces.raised (by decide)

end TeamMatch
end Match
end ArmyRs
