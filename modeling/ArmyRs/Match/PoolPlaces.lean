import ArmyRs.Match.PoolItems

/-!
# The places of the teams of a pool

`Places` says what one `do_match` is for: it does not raise, every team of the
pool is afterwards in exactly one place, in the queue of its size or on a side
of a pair, and every side has the full number of members.

What holds for every pool is that `do_match` gets there unless it raises
(`places_of_not_raised`).  It can only raise in a pick with two parts of one
group, which the pools for 4v4 alone have; hence the other pools get there
after every run of requests, removals and matches (`places_of_run`).
-/

namespace ArmyRs
namespace Match

open Foundation

/-- The number of members of the team of an item. -/
def Arrays.size (arrays : Arrays) (item : Item) : Nat :=
  (arrays item.membersInfo).length

namespace TeamMatch

variable {size : Item → Nat} {pool next : TeamMatch} {parts : List Part} {taken all : List Item}

/-- Every team waits in the queue of its size. -/
def Grouped (size : Item → Nat) (pool : TeamMatch) : Prop :=
  ∀ groupid ∈ pool.groups, ∀ item ∈ pool.teamInfos groupid, size item = groupid

/-- The sizes of the teams that make up a side. -/
def partSizes (parts : List Part) : List Nat :=
  parts.flatMap fun part => List.replicate part.count part.groupid

theorem Grouped.setGroup (hgrouped : pool.Grouped size) {groupid : Nat} {queue : List Item}
    (hqueue : groupid ∈ pool.groups → ∀ item ∈ queue, size item = groupid) :
    (pool.setGroup groupid queue).Grouped size := by
  intro other hgroup item hitem
  unfold TeamMatch.setGroup at hitem
  dsimp only at hitem
  by_cases hother : other = groupid
  · subst hother
    rw [Function.update_self] at hitem
    exact hqueue hgroup item hitem
  · rw [Function.update_of_ne hother] at hitem
    exact hgrouped other hgroup item hitem

theorem Grouped.drop (hgrouped : pool.Grouped size) (groupid count : Nat) :
    (pool.setGroup groupid ((pool.teamInfos groupid).drop count)).Grouped size :=
  hgrouped.setGroup fun hgroup item hitem =>
    hgrouped groupid hgroup item (List.mem_of_mem_drop hitem)

/-- The teams at the head of a queue have its size. -/
theorem Grouped.map_take (hgrouped : pool.Grouped size) {groupid count : Nat}
    (hgroup : groupid ∈ pool.groups) (hcount : count ≤ (pool.teamInfos groupid).length) :
    ((pool.teamInfos groupid).take count).map size = List.replicate count groupid := by
  rw [List.eq_replicate_iff]
  constructor
  · rw [List.length_map, List.length_take, Nat.min_eq_left hcount]
  · intro n hn
    obtain ⟨item, hitem, rfl⟩ := List.mem_map.mp hn
    exact hgrouped groupid hgroup item (List.mem_of_mem_take hitem)

theorem Grouped.removeTeam (hgrouped : pool.Grouped size) (teamId : Nat) :
    (pool.removeTeam teamId).Grouped size :=
  fun groupid hgroup item hitem => hgrouped groupid hgroup item (List.mem_of_mem_filter hitem)

/-! ## Picks -/

/-- A pick takes teams of the sizes that its parts ask for. -/
theorem shiftParts_sizes (hgrouped : pool.Grouped size)
    (hparts : ∀ part ∈ parts, part.groupid ∈ pool.groups)
    (hpick : pool.shiftParts parts taken = .picked next all) :
    next.Grouped size ∧ all.map size = taken.map size ++ partSizes parts := by
  induction parts generalizing pool taken with
  | nil =>
      cases hpick
      exact ⟨hgrouped, (List.append_nil _).symm⟩
  | cons part parts ih =>
      unfold shiftParts at hpick
      dsimp only at hpick
      split at hpick
      · cases hpick
      · next hlength =>
        obtain ⟨hnext, hsizes⟩ := ih (hgrouped.drop part.groupid part.count)
          (fun other hother => hparts other (List.mem_cons_of_mem _ hother)) hpick
        have hgroup : part.groupid ∈ pool.groups := hparts part List.mem_cons_self
        refine ⟨hnext, ?_⟩
        rw [hsizes, List.map_append, hgrouped.map_take hgroup (by omega), List.append_assoc]
        rfl

/-- A pick that raises has taken from the queues only. -/
theorem shiftParts_grouped (hgrouped : pool.Grouped size)
    (hpick : pool.shiftParts parts taken = .raised next) : next.Grouped size := by
  induction parts generalizing pool taken with
  | nil => cases hpick
  | cons part parts ih =>
      unfold shiftParts at hpick
      dsimp only at hpick
      split at hpick
      · cases hpick
        exact hgrouped.drop part.groupid part.count
      · exact ih (hgrouped.drop part.groupid part.count) hpick

theorem pickTeamPart_grouped (hgrouped : pool.Grouped size)
    (hpick : pool.pickTeamPart parts = .raised next) : next.Grouped size := by
  unfold pickTeamPart at hpick
  split at hpick
  · exact shiftParts_grouped hgrouped hpick
  · cases hpick

theorem pickTeamPart_sizes (hgrouped : pool.Grouped size)
    (hparts : ∀ part ∈ parts, part.groupid ∈ pool.groups)
    (hpick : pool.pickTeamPart parts = .picked next all) :
    next.Grouped size ∧ all.map size = partSizes parts := by
  unfold pickTeamPart at hpick
  split at hpick
  · exact shiftParts_sizes hgrouped hparts hpick
  · cases hpick

theorem pickRight_sizes {sides : List (List Part)} (hgrouped : pool.Grouped size)
    (hsides : ∀ parts ∈ sides, ∀ part ∈ parts, part.groupid ∈ pool.groups)
    (hpick : pool.pickRight sides = .picked next all) :
    next.Grouped size ∧ ∃ parts ∈ sides, all.map size = partSizes parts := by
  induction sides with
  | nil => cases hpick
  | cons parts others ih =>
      unfold pickRight at hpick
      split at hpick
      · obtain ⟨hnext, side, hside, hsizes⟩ :=
          ih (fun other hother => hsides other (List.mem_cons_of_mem _ hother)) hpick
        exact ⟨hnext, side, List.mem_cons_of_mem _ hside, hsizes⟩
      · obtain ⟨hnext, hsizes⟩ :=
          pickTeamPart_sizes hgrouped (hsides parts List.mem_cons_self) hpick
        exact ⟨hnext, parts, List.mem_cons_self, hsizes⟩

theorem pickRight_grouped {sides : List (List Part)} (hgrouped : pool.Grouped size)
    (hpick : pool.pickRight sides = .raised next) : next.Grouped size := by
  induction sides with
  | nil => cases hpick
  | cons parts others ih =>
      unfold pickRight at hpick
      split at hpick
      · exact ih hpick
      · exact pickTeamPart_grouped hgrouped hpick

/-- A left side of the right sizes goes back to its queues, and nothing gets
lost. -/
theorem putBack_sizes {itemLeft : List Item} (hgrouped : pool.Grouped size)
    (hparts : ∀ part ∈ parts, part.groupid ∈ pool.groups)
    (hsizes : itemLeft.map size = partSizes parts) :
    (pool.putBack parts itemLeft).Grouped size ∧
      (pool.putBack parts itemLeft).items.Perm (pool.items ++ itemLeft) := by
  induction parts generalizing pool itemLeft with
  | nil =>
      have hempty : itemLeft = [] := List.map_eq_nil_iff.mp hsizes
      subst hempty
      exact ⟨hgrouped, List.append_nil _ ▸ List.Perm.refl _⟩
  | cons part parts ih =>
      have hgroup : part.groupid ∈ pool.groups := hparts part List.mem_cons_self
      have hsplit : itemLeft.map size =
          List.replicate part.count part.groupid ++ partSizes parts := hsizes
      have hhead : (itemLeft.take part.count).map size =
          List.replicate part.count part.groupid := by
        rw [List.map_take, hsplit, List.take_left' List.length_replicate]
      have htail : (itemLeft.drop part.count).map size = partSizes parts := by
        rw [List.map_drop, hsplit, List.drop_left' List.length_replicate]
      have hpush : (pool.setGroup part.groupid
          (pool.teamInfos part.groupid ++ itemLeft.take part.count)).Grouped size := by
        refine hgrouped.setGroup fun _ item hitem => ?_
        rcases List.mem_append.mp hitem with hold | hnew
        · exact hgrouped part.groupid hgroup item hold
        · have hmem : size item ∈ (itemLeft.take part.count).map size :=
            List.mem_map_of_mem hnew
          rw [hhead] at hmem
          exact List.eq_of_mem_replicate hmem
      obtain ⟨hback, hperm⟩ := ih hpush
        (fun other hother => hparts other (List.mem_cons_of_mem _ hother)) htail
      unfold putBack
      refine ⟨hback, hperm.trans ?_⟩
      have hitems := (items_push_perm hgroup (itemLeft.take part.count)).append_right
        (itemLeft.drop part.count)
      rw [List.append_assoc, List.take_append_drop] at hitems
      exact hitems

/-! ## Matching -/

/-- What a part of `do_match` keeps: the queues are by size, each side of a pair
was made up in one of the ways, and unless it has raised no item is missing. -/
structure Round.Placed (size : Item → Nat) (sides : List (List Part)) (round : Round)
    (items : List Item) : Prop where
  items : round.raised = false → round.items.Perm items
  grouped : round.pool.Grouped size
  made : ∀ pair ∈ round.res, (∃ parts ∈ sides, pair.left.map size = partSizes parts) ∧
    ∃ parts ∈ sides, pair.right.map size = partSizes parts

theorem matchPair_placed {sides : List (List Part)} {turns : Nat} {res : List Pair}
    (hsides : ∀ parts ∈ sides, ∀ part ∈ parts, part.groupid ∈ pool.groups)
    (hparts : parts ∈ sides)
    (hbefore : Round.Placed size sides ⟨pool, res, false⟩ (Round.items ⟨pool, res, false⟩)) :
    (matchPair sides parts turns pool res).Placed size sides
      (Round.items ⟨pool, res, false⟩) := by
  induction turns generalizing pool res with
  | zero => exact hbefore
  | succ turns ih =>
      have hleft := pickTeamPart_conserves (hsides parts hparts)
      unfold matchPair
      cases hpick : pool.pickTeamPart parts with
      | refused => exact hbefore
      | raised raisedPool =>
          exact ⟨fun h => (by cases h), pickTeamPart_grouped hbefore.grouped hpick, hbefore.made⟩
      | picked middle itemLeft =>
          rw [hpick] at hleft
          obtain ⟨htype, hperm⟩ := hleft
          obtain ⟨hgrouped, hsizes⟩ :=
            pickTeamPart_sizes hbefore.grouped (hsides parts hparts) hpick
          rw [List.append_nil] at hperm
          have hgroups : middle.groups = pool.groups := by
            unfold groups
            rw [htype]
          have hright : (middle.pickRight sides).Conserves middle [] :=
            pickRight_conserves (hgroups ▸ hsides)
          dsimp only
          cases hpickRight : middle.pickRight sides with
          | raised raisedPool =>
              exact ⟨fun h => (by cases h), pickRight_grouped hgrouped hpickRight, hbefore.made⟩
          | refused =>
              obtain ⟨hback, hbackPerm⟩ := putBack_sizes hgrouped
                (hgroups ▸ hsides parts hparts) hsizes
              refine ⟨fun _ => ?_, hback, hbefore.made⟩
              exact (hbackPerm.trans hperm).append_right _
          | picked last itemRight =>
              rw [hpickRight] at hright
              obtain ⟨htypeRight, hpermRight⟩ := hright
              obtain ⟨hgroupedRight, hsizesRight⟩ :=
                pickRight_sizes hgrouped (hgroups ▸ hsides) hpickRight
              rw [List.append_nil] at hpermRight
              have hgroupsRight : last.groups = pool.groups := by
                unfold groups
                rw [htypeRight, htype]
              -- the two sides of the new pair have left the queues
              have hboth : (Round.items ⟨last, res ++ [⟨itemLeft, itemRight⟩], false⟩).Perm
                  (Round.items ⟨pool, res, false⟩) := by
                have hsidesPerm : (last.items ++ (itemLeft ++ itemRight)).Perm pool.items := by
                  refine (List.perm_append_comm.append_left _).trans ?_
                  rw [← List.append_assoc]
                  exact (hpermRight.append_right _).trans hperm
                unfold Round.items
                rw [List.flatMap_append]
                refine (List.perm_append_comm.append_left _).trans ?_
                rw [← List.append_assoc]
                simpa [Pair.tms] using hsidesPerm.append_right (res.flatMap Pair.tms)
              have hmade : Round.Placed size sides ⟨last, res ++ [⟨itemLeft, itemRight⟩], false⟩
                  (Round.items ⟨last, res ++ [⟨itemLeft, itemRight⟩], false⟩) := by
                refine ⟨fun _ => List.Perm.refl _, hgroupedRight, ?_⟩
                intro pair hpair
                rcases List.mem_append.mp hpair with hold | hnew
                · exact hbefore.made pair hold
                · cases List.mem_singleton.mp hnew
                  exact ⟨⟨parts, hparts, hsizes⟩, hsizesRight⟩
              have hrest := ih (hgroupsRight ▸ hsides) hmade
              exact ⟨fun h => (hrest.items h).trans hboth, hrest.grouped, hrest.made⟩

/-- A round that has raised stays as it is. -/
theorem matchSides_raised {sides lefts : List (List Part)} {round : Round}
    (hraised : round.raised = true) : matchSides sides lefts round = round := by
  cases lefts with
  | nil => rfl
  | cons parts others =>
      unfold matchSides
      rw [if_pos hraised]

theorem matchSides_placed {sides lefts : List (List Part)} {round : Round}
    (hsides : ∀ parts ∈ sides, ∀ part ∈ parts, part.groupid ∈ round.pool.groups)
    (hlefts : ∀ parts ∈ lefts, parts ∈ sides)
    (hbefore : round.Placed size sides round.items) :
    (matchSides sides lefts round).Placed size sides round.items := by
  induction lefts generalizing round with
  | nil => exact hbefore
  | cons parts others ih =>
      unfold matchSides
      split
      · exact hbefore
      · have hparts := hlefts parts List.mem_cons_self
        have hpair : (matchPair sides parts (round.pool.turns parts) round.pool
            round.res).Placed size sides round.items := by
          have hgoes : Round.Placed size sides ⟨round.pool, round.res, false⟩
              (Round.items ⟨round.pool, round.res, false⟩) :=
            ⟨fun _ => List.Perm.refl _, hbefore.grouped, hbefore.made⟩
          exact matchPair_placed hsides hparts hgoes
        have hgroups : (matchPair sides parts (round.pool.turns parts) round.pool
            round.res).pool.groups = round.pool.groups := by
          have hwithin : (matchPair sides parts (round.pool.turns parts) round.pool
              round.res).Within _ _ := matchPair_within hsides (hsides parts hparts)
          unfold groups
          rw [hwithin.combatType]
        have hrest := ih (hgroups ▸ hsides)
          (fun other hother => hlefts other (List.mem_cons_of_mem _ hother))
          ⟨fun _ => List.Perm.refl _, hpair.grouped, hpair.made⟩
        refine ⟨fun hraised => ?_, hrest.grouped, hrest.made⟩
        have hpairRaised : (matchPair sides parts (round.pool.turns parts) round.pool
            round.res).raised = false := by
          cases hcase : (matchPair sides parts (round.pool.turns parts) round.pool
              round.res).raised with
          | false => rfl
          | true =>
              rw [matchSides_raised hcase, hcase] at hraised
              cases hraised
        exact (hrest.items hraised).trans (hpair.items hpairRaised)

theorem doMatch_placed (hgrouped : pool.Grouped size) :
    pool.doMatch.Placed size pool.combatType.sides pool.items := by
  have hsides : ∀ parts ∈ pool.combatType.sides, ∀ part ∈ parts, part.groupid ∈ pool.groups :=
    sides_groups pool.combatType
  have hbefore : Round.Placed size pool.combatType.sides ⟨pool, [], false⟩
      (Round.items ⟨pool, [], false⟩) :=
    ⟨fun _ => List.Perm.refl _, hgrouped, fun _ h => (nomatch h)⟩
  have hplaced : pool.doMatch.Placed size pool.combatType.sides
      (Round.items ⟨pool, [], false⟩) :=
    matchSides_placed hsides (fun _ h => h) hbefore
  have hitems : Round.items ⟨pool, [], false⟩ = pool.items := by
    unfold Round.items
    rw [List.flatMap_nil, List.append_nil]
  rwa [hitems] at hplaced

theorem combatType_doMatch : pool.doMatch.pool.combatType = pool.combatType := by
  have hsides : ∀ parts ∈ pool.combatType.sides, ∀ part ∈ parts, part.groupid ∈ pool.groups :=
    sides_groups pool.combatType
  have hwithin : pool.doMatch.Within pool.combatType (Round.items ⟨pool, [], false⟩) :=
    matchSides_within hsides hsides
  exact hwithin.combatType

theorem groups_doMatch : pool.doMatch.pool.groups = pool.groups := by
  unfold groups
  rw [combatType_doMatch]

/-! ## The places -/

/-- Every team waits once, in the queue of its size. -/
structure Listed (arrays : Arrays) (pool : TeamMatch) : Prop where
  grouped : pool.Grouped arrays.size
  once : (pool.items.map Item.teamId).Nodup

/-- What `do_match` is for. -/
structure Places (arrays : Arrays) (pool : TeamMatch) : Prop where
  raised : pool.doMatch.raised = false
  /-- Every team of the pool is in one queue or on one side, and there once. -/
  once : ∀ item ∈ pool.items,
    (pool.doMatch.items.map Item.teamId).count item.teamId = 1
  /-- Nothing else is there. -/
  known : ∀ item ∈ pool.doMatch.items, item ∈ pool.items
  grouped : ∀ groupid ∈ pool.groups, ∀ item ∈ pool.doMatch.pool.teamInfos groupid,
    arrays.size item = groupid
  full : ∀ pair ∈ pool.doMatch.res,
    (pair.left.map arrays.size).sum = pool.combatType.size ∧
      (pair.right.map arrays.size).sum = pool.combatType.size

/-- Each way to make up a side has the full number of members. -/
theorem sum_partSizes (combatType : CombatType) :
    ∀ parts ∈ combatType.sides, (partSizes parts).sum = combatType.size := by
  cases combatType <;> decide

variable {arrays : Arrays}

/-- Both sides of a pair have the full number of members, whether `do_match`
has raised later on or not. -/
theorem doMatch_full (hgrouped : pool.Grouped size) :
    ∀ pair ∈ pool.doMatch.res, (pair.left.map size).sum = pool.combatType.size ∧
      (pair.right.map size).sum = pool.combatType.size := by
  intro pair hpair
  obtain ⟨⟨left, hleft, hleftSizes⟩, right, hright, hrightSizes⟩ :=
    (doMatch_placed hgrouped).made pair hpair
  rw [hleftSizes, hrightSizes]
  exact ⟨sum_partSizes _ left hleft, sum_partSizes _ right hright⟩

theorem places_of_not_raised (hlisted : pool.Listed arrays)
    (hraised : pool.doMatch.raised = false) : pool.Places arrays := by
  have hplaced := doMatch_placed hlisted.grouped
  have hitems := hplaced.items hraised
  have hgrouped := hplaced.grouped
  unfold Grouped at hgrouped
  rw [groups_doMatch] at hgrouped
  refine ⟨hraised, ?_, fun item hitem => hitems.mem_iff.mp hitem, hgrouped,
    doMatch_full hlisted.grouped⟩
  intro item hitem
  rw [(hitems.map Item.teamId).count_eq]
  exact List.count_eq_one_of_mem hlisted.once (List.mem_map_of_mem hitem)

/-- `do_match` leaves the teams listed. -/
theorem Listed.doMatch (hlisted : pool.Listed arrays) (hraised : pool.doMatch.raised = false) :
    pool.doMatch.pool.Listed arrays := by
  have hplaced := doMatch_placed hlisted.grouped
  refine ⟨hplaced.grouped, ?_⟩
  have hnodup := ((hplaced.items hraised).map Item.teamId).nodup_iff.mpr hlisted.once
  unfold Round.items at hnodup
  rw [List.map_append] at hnodup
  exact (List.nodup_append.mp hnodup).1

/-! ## Pools whose picks have one part for a group -/

/-- With one part for each group the lengths that were checked suffice. -/
theorem shiftParts_ne_raised (hnodup : (parts.map Part.groupid).Nodup)
    (hlengths : ∀ part ∈ parts, part.count ≤ (pool.teamInfos part.groupid).length)
    (raisedPool : TeamMatch) : pool.shiftParts parts taken ≠ .raised raisedPool := by
  induction parts generalizing pool taken with
  | nil => exact fun h => (by cases h)
  | cons part parts ih =>
      rw [List.map_cons, List.nodup_cons] at hnodup
      have hlength := hlengths part List.mem_cons_self
      unfold shiftParts
      dsimp only
      rw [if_neg (by omega)]
      refine ih hnodup.2 fun other hother => ?_
      have hne : other.groupid ≠ part.groupid := fun heq =>
        hnodup.1 (heq ▸ List.mem_map_of_mem hother)
      have hkept : (pool.setGroup part.groupid
          ((pool.teamInfos part.groupid).drop part.count)).teamInfos other.groupid =
            pool.teamInfos other.groupid := Function.update_of_ne hne _ _
      rw [hkept]
      exact hlengths other (List.mem_cons_of_mem _ hother)

theorem pickTeamPart_ne_raised (hnodup : (parts.map Part.groupid).Nodup)
    (raisedPool : TeamMatch) : pool.pickTeamPart parts ≠ .raised raisedPool := by
  unfold pickTeamPart
  split
  · next hlengths =>
    refine shiftParts_ne_raised hnodup (fun part hpart => ?_) raisedPool
    exact of_decide_eq_true (List.all_eq_true.mp hlengths part hpart)
  · exact fun h => (by cases h)

theorem pickRight_ne_raised {sides : List (List Part)}
    (hnodup : ∀ parts ∈ sides, (parts.map Part.groupid).Nodup) (raisedPool : TeamMatch) :
    pool.pickRight sides ≠ .raised raisedPool := by
  induction sides with
  | nil => exact fun h => (by cases h)
  | cons parts others ih =>
      unfold pickRight
      split
      · exact ih fun other hother => hnodup other (List.mem_cons_of_mem _ hother)
      · exact pickTeamPart_ne_raised (hnodup parts List.mem_cons_self) raisedPool

theorem matchPair_not_raised {sides : List (List Part)} {turns : Nat} {res : List Pair}
    (hnodup : ∀ parts ∈ sides, (parts.map Part.groupid).Nodup) (hparts : parts ∈ sides) :
    (matchPair sides parts turns pool res).raised = false := by
  induction turns generalizing pool res with
  | zero => rfl
  | succ turns ih =>
      unfold matchPair
      cases hpick : pool.pickTeamPart parts with
      | refused => rfl
      | raised raisedPool =>
          exact absurd hpick (pickTeamPart_ne_raised (hnodup parts hparts) raisedPool)
      | picked middle itemLeft =>
          dsimp only
          cases hpickRight : middle.pickRight sides with
          | refused => rfl
          | raised raisedPool => exact absurd hpickRight (pickRight_ne_raised hnodup raisedPool)
          | picked last itemRight => exact ih

theorem matchSides_not_raised {sides lefts : List (List Part)} {round : Round}
    (hnodup : ∀ parts ∈ sides, (parts.map Part.groupid).Nodup)
    (hlefts : ∀ parts ∈ lefts, parts ∈ sides) (hround : round.raised = false) :
    (matchSides sides lefts round).raised = false := by
  induction lefts generalizing round with
  | nil => exact hround
  | cons parts others ih =>
      unfold matchSides
      rw [if_neg (by rw [hround]; exact Bool.false_ne_true)]
      exact ih (fun other hother => hlefts other (List.mem_cons_of_mem _ hother))
        (matchPair_not_raised hnodup (hlefts parts List.mem_cons_self))

/-- Only the sides for 4v4 have two parts of one group. -/
theorem sides_nodup {combatType : CombatType} (hother : combatType ≠ .ct4v4) :
    ∀ parts ∈ combatType.sides, (parts.map Part.groupid).Nodup := by
  cases combatType with
  | ct4v4 => exact absurd rfl hother
  | ct1v1 | ct2v2 | ct3v3 | ct5v5 => decide

theorem doMatch_not_raised (hother : pool.combatType ≠ .ct4v4) :
    pool.doMatch.raised = false :=
  matchSides_not_raised (sides_nodup hother) (fun _ h => h) rfl

/-! ## Runs of a pool -/

/-- An empty pool. -/
def emptyPool (combatType : CombatType) : TeamMatch := ⟨combatType, fun _ => []⟩

inductive PoolEvent
  | addTeam (teamId : Nat) (membersInfo : Ref)
  | removeTeam (teamId : Nat)
  | doMatch
  deriving DecidableEq, Repr

/-- A call of a pool, for member lists that do not change. -/
def poolStep (arrays : Arrays) (pool : TeamMatch) : PoolEvent → Option TeamMatch
  | .addTeam teamId membersInfo =>
      some (pool.addTeam teamId membersInfo (arrays membersInfo).length).1
  | .removeTeam teamId => some (pool.removeTeam teamId)
  | .doMatch => some pool.doMatch.pool

theorem combatType_addTeam (teamId : Nat) (membersInfo : Ref) (memberCount : Nat) :
    (pool.addTeam teamId membersInfo memberCount).1.combatType = pool.combatType := by
  unfold addTeam
  dsimp only
  split <;> rfl

theorem Listed.removeTeam (hlisted : pool.Listed arrays) (teamId : Nat) :
    (pool.removeTeam teamId).Listed arrays := by
  refine ⟨hlisted.grouped.removeTeam teamId, ?_⟩
  rw [items_removeTeam]
  exact (List.filter_sublist.map Item.teamId).nodup hlisted.once

/-- A request comes to the queue of its size. -/
theorem Grouped.addTeam (hgrouped : pool.Grouped size) {teamId memberCount : Nat}
    {membersInfo : Ref} (hsize : size ⟨teamId, membersInfo⟩ = memberCount) :
    (pool.addTeam teamId membersInfo memberCount).1.Grouped size := by
  unfold TeamMatch.addTeam
  dsimp only
  split
  · refine (hgrouped.removeTeam teamId).setGroup fun hgroup item hitem => ?_
    rcases List.mem_append.mp hitem with hold | hnew
    · exact hgrouped.removeTeam teamId _ hgroup item hold
    · cases List.mem_singleton.mp hnew
      exact hsize
  · exact hgrouped.removeTeam teamId

theorem Listed.addTeam (hlisted : pool.Listed arrays) (teamId : Nat) (membersInfo : Ref) :
    (pool.addTeam teamId membersInfo (arrays membersInfo).length).1.Listed arrays := by
  refine ⟨hlisted.grouped.addTeam rfl, ?_⟩
  have hremoved := (hlisted.removeTeam teamId).once
  cases hadded : (pool.addTeam teamId membersInfo (arrays membersInfo).length).2 with
  | true =>
      have hperm := (items_addTeam hadded).map Item.teamId
      rw [hperm.nodup_iff, List.map_append, List.nodup_append, ← items_removeTeam]
      refine ⟨hremoved, List.nodup_singleton _, ?_⟩
      intro id hid other hother
      rw [List.mem_singleton.mp hother]
      obtain ⟨item, hitem, rfl⟩ := List.mem_map.mp hid
      rw [items_removeTeam] at hitem
      exact of_decide_eq_true (List.mem_filter.mp hitem).2
  | false =>
      rw [items_addTeam_refused hadded, ← items_removeTeam]
      exact hremoved

theorem listed_emptyPool (combatType : CombatType) : (emptyPool combatType).Listed arrays := by
  refine ⟨fun _ _ _ h => (nomatch h), ?_⟩
  have hempty : (emptyPool combatType).items = [] :=
    List.flatMap_eq_nil_iff.mpr fun _ _ => rfl
  rw [hempty]
  exact List.nodup_nil

/-- After every run of a pool that is not for 4v4 `do_match` places every
team. -/
theorem places_of_run {combatType : CombatType} (hother : combatType ≠ .ct4v4)
    {events : List PoolEvent}
    (hrun : Run (poolStep arrays) free (emptyPool combatType) events pool) :
    pool.Places arrays := by
  have hinv : pool.combatType = combatType ∧ pool.Listed arrays := by
    induction hrun with
    | refl => exact ⟨rfl, listed_emptyPool combatType⟩
    | @snoc events before event after _ _ hstep ih =>
        obtain ⟨htype, hlisted⟩ := ih
        cases event with
        | addTeam teamId membersInfo =>
            cases hstep
            exact ⟨(combatType_addTeam _ _ _).trans htype, hlisted.addTeam teamId membersInfo⟩
        | removeTeam teamId =>
            cases hstep
            exact ⟨htype, hlisted.removeTeam teamId⟩
        | doMatch =>
            cases hstep
            exact ⟨combatType_doMatch.trans htype,
              hlisted.doMatch (doMatch_not_raised (htype ▸ hother))⟩
  exact places_of_not_raised hinv.2 (doMatch_not_raised (hinv.1 ▸ hother))

/-- An array whose address is its length. -/
def countedArrays : Arrays := fun ref => List.replicate ref ⟨0, 1000, true⟩

/-- Teams of 2 and 3, a team of 5 and a single player ask for a 5v5. -/
def fiveVersusFive : List PoolEvent :=
  [.addTeam 21 2, .addTeam 22 3, .addTeam 23 5, .addTeam 24 1]

theorem places_fiveVersusFive :
    ((exec (poolStep countedArrays) free (emptyPool .ct5v5) fiveVersusFive).getD
      (emptyPool .ct5v5)).Places countedArrays := by
  have hrun : Run (poolStep countedArrays) free (emptyPool .ct5v5) fiveVersusFive _ :=
    run_exec_getD (emptyPool .ct5v5) (by decide)
  exact places_of_run (by decide) hrun

end TeamMatch
end Match
end ArmyRs
