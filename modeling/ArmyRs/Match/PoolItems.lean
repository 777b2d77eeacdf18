import ArmyRs.Match.TeamManager

/-!
# Where the requests are

A pool never has an item twice that came to it once: what `do_match` leaves in
the queues and what it puts into pairs are, together, items that waited before
(`doMatch_subperm`).  Some can be missing when `do_match` raises.

`Checker.updatePools_shrinks` carries this over to a checker: the items in the
pools and in the live pairs after an `update` are among those before it.
-/

namespace ArmyRs
namespace Match

open Foundation

namespace TeamMatch

/-! ## One pool -/

variable {pool : TeamMatch} {parts : List Part} {taken : List Item}

@[simp] theorem combatType_setGroup (groupid : Nat) (queue : List Item) :
    (pool.setGroup groupid queue).combatType = pool.combatType := rfl

@[simp] theorem groups_setGroup (groupid : Nat) (queue : List Item) :
    (pool.setGroup groupid queue).groups = pool.groups := rfl

theorem groups_nodup (pool : TeamMatch) : pool.groups.Nodup :=
  List.nodup_range'

/-- The sides of a pool name its groups only. -/
theorem sides_groups (combatType : CombatType) :
    ∀ parts ∈ combatType.sides, ∀ part ∈ parts,
      part.groupid ∈ List.range' 1 combatType.size := by
  cases combatType <;> decide

theorem items_removeTeam (teamId : Nat) :
    (pool.removeTeam teamId).items = pool.items.filter fun item => item.teamId ≠ teamId :=
  contents_filter _

theorem items_drop_perm {groupid : Nat} (hgroup : groupid ∈ pool.groups) (count : Nat) :
    ((pool.setGroup groupid ((pool.teamInfos groupid).drop count)).items ++
      (pool.teamInfos groupid).take count).Perm pool.items :=
  contents_drop_perm pool.groups_nodup hgroup count

theorem items_push_perm {groupid : Nat} (hgroup : groupid ∈ pool.groups) (queue : List Item) :
    (pool.setGroup groupid (pool.teamInfos groupid ++ queue)).items.Perm (pool.items ++ queue) :=
  contents_push_perm pool.groups_nodup hgroup queue

/-- An accepted request is the only new item. -/
theorem items_addTeam {teamId memberCount : Nat} {membersInfo : Ref}
    (hadded : (pool.addTeam teamId membersInfo memberCount).2 = true) :
    (pool.addTeam teamId membersInfo memberCount).1.items.Perm
      ((pool.items.filter fun item => item.teamId ≠ teamId) ++ [⟨teamId, membersInfo⟩]) := by
  unfold addTeam at hadded ⊢
  dsimp only at hadded ⊢
  split at hadded
  · next hgroup =>
    rw [if_pos hgroup, ← items_removeTeam]
    exact items_push_perm hgroup _
  · cases hadded

/-- A refused request only takes the earlier one of the team away. -/
theorem items_addTeam_refused {teamId memberCount : Nat} {membersInfo : Ref}
    (hrefused : (pool.addTeam teamId membersInfo memberCount).2 = false) :
    (pool.addTeam teamId membersInfo memberCount).1.items =
      pool.items.filter fun item => item.teamId ≠ teamId := by
  unfold addTeam at hrefused ⊢
  dsimp only at hrefused ⊢
  split at hrefused
  · cases hrefused
  · next hgroup =>
    rw [if_neg hgroup]
    exact items_removeTeam teamId

/-- What a pick does with the items of a pool when `taken` are taken already. -/
def Pick.Conserves (pool : TeamMatch) (taken : List Item) : Pick → Prop
  | .refused => True
  | .picked next all =>
      next.combatType = pool.combatType ∧ (next.items ++ all).Perm (pool.items ++ taken)
  | .raised next =>
      next.combatType = pool.combatType ∧ next.items.Subperm pool.items

theorem shiftParts_conserves (hparts : ∀ part ∈ parts, part.groupid ∈ pool.groups) :
    (pool.shiftParts parts taken).Conserves pool taken := by
  induction parts generalizing pool taken with
  | nil => exact ⟨rfl, List.Perm.refl _⟩
  | cons part parts ih =>
      have hgroup : part.groupid ∈ pool.groups := hparts part List.mem_cons_self
      have hdrop := items_drop_perm hgroup part.count
      unfold shiftParts
      dsimp only
      split
      · -- the queue has run out of teams
        constructor
        · rfl
        · exact (List.sublist_append_left _ _).subperm.trans hdrop.subperm
      · have hrest : ((pool.setGroup part.groupid
            ((pool.teamInfos part.groupid).drop part.count)).shiftParts parts
              (taken ++ (pool.teamInfos part.groupid).take part.count)).Conserves _ _ :=
          ih fun other hother => hparts other (List.mem_cons_of_mem _ hother)
        generalize (pool.setGroup part.groupid
          ((pool.teamInfos part.groupid).drop part.count)).shiftParts parts
            (taken ++ (pool.teamInfos part.groupid).take part.count) = pick at hrest ⊢
        cases pick with
        | refused => trivial
        | picked next all =>
            obtain ⟨htype, hperm⟩ := hrest
            refine ⟨htype, hperm.trans ?_⟩
            refine (List.perm_append_comm.append_left _).trans ?_
            rw [← List.append_assoc]
            exact hdrop.append_right _
        | raised next =>
            obtain ⟨htype, hsub⟩ := hrest
            refine ⟨htype, hsub.trans ?_⟩
            exact (List.sublist_append_left _ _).subperm.trans hdrop.subperm

theorem pickTeamPart_conserves (hparts : ∀ part ∈ parts, part.groupid ∈ pool.groups) :
    (pool.pickTeamPart parts).Conserves pool [] := by
  unfold pickTeamPart
  split
  · exact shiftParts_conserves hparts
  · trivial

theorem pickRight_conserves {sides : List (List Part)}
    (hsides : ∀ parts ∈ sides, ∀ part ∈ parts, part.groupid ∈ pool.groups) :
    (pool.pickRight sides).Conserves pool [] := by
  induction sides with
  | nil => trivial
  | cons parts others ih =>
      have hpick := pickTeamPart_conserves (hsides parts List.mem_cons_self)
      unfold pickRight
      split
      · exact ih fun other hother => hsides other (List.mem_cons_of_mem _ hother)
      · exact hpick

theorem putBack_subperm (hparts : ∀ part ∈ parts, part.groupid ∈ pool.groups)
    (itemLeft : List Item) :
    (pool.putBack parts itemLeft).items.Subperm (pool.items ++ itemLeft) := by
  induction parts generalizing pool itemLeft with
  | nil => exact (List.sublist_append_left _ _).subperm
  | cons part parts ih =>
      have hgroup : part.groupid ∈ pool.groups := hparts part List.mem_cons_self
      have hpush := items_push_perm hgroup (itemLeft.take part.count)
      have hperm := hpush.append_right (itemLeft.drop part.count)
      rw [List.append_assoc, List.take_append_drop] at hperm
      unfold putBack
      refine List.Subperm.trans (ih ?_ _) hperm.subperm
      exact fun other hother => hparts other (List.mem_cons_of_mem _ hother)

theorem combatType_putBack (itemLeft : List Item) :
    (pool.putBack parts itemLeft).combatType = pool.combatType := by
  induction parts generalizing pool itemLeft with
  | nil => rfl
  | cons part parts ih =>
      unfold putBack
      exact ih _

/-! ### The loop of `match_Pair_I` and `match_Pair_II` ends by itself -/

/-- A pick makes no queue longer. -/
def Pick.Shortens (pool : TeamMatch) : Pick → Prop
  | .picked next _ =>
      ∀ groupid, (next.teamInfos groupid).length ≤ (pool.teamInfos groupid).length
  | _ => True

theorem length_setGroup_drop (groupid count other : Nat) :
    ((pool.setGroup groupid ((pool.teamInfos groupid).drop count)).teamInfos other).length ≤
      (pool.teamInfos other).length := by
  unfold setGroup
  by_cases hother : other = groupid
  · subst hother
    simp
  · simp [Function.update_of_ne hother]

theorem Pick.Shortens.of_le {first : TeamMatch} {pick : Pick}
    (hfirst : ∀ groupid, (first.teamInfos groupid).length ≤ (pool.teamInfos groupid).length)
    (hpick : pick.Shortens first) : pick.Shortens pool := by
  cases pick with
  | refused => trivial
  | raised next => trivial
  | picked next taken => exact fun groupid => (hpick groupid).trans (hfirst groupid)

theorem shiftParts_shortens : (pool.shiftParts parts taken).Shortens pool := by
  induction parts generalizing pool taken with
  | nil => exact fun _ => Nat.le_refl _
  | cons part parts ih =>
      unfold shiftParts
      dsimp only
      split
      · trivial
      · exact Pick.Shortens.of_le (length_setGroup_drop part.groupid part.count) ih

theorem pickTeamPart_shortens : (pool.pickTeamPart parts).Shortens pool := by
  unfold pickTeamPart
  split
  · exact shiftParts_shortens
  · trivial

theorem pickRight_shortens {sides : List (List Part)} :
    (pool.pickRight sides).Shortens pool := by
  induction sides with
  | nil => trivial
  | cons parts others ih =>
      unfold pickRight
      split
      · exact ih
      · exact pickTeamPart_shortens

/-- A left side takes teams from its first group. -/
theorem turns_pickTeamPart {part : Part} {next : TeamMatch} {itemLeft : List Item}
    (hcount : 0 < part.count)
    (hpick : pool.pickTeamPart (part :: parts) = .picked next itemLeft) :
    next.turns (part :: parts) < pool.turns (part :: parts) := by
  unfold pickTeamPart at hpick
  split at hpick
  · next hlengths =>
    have hlength : part.count ≤ (pool.teamInfos part.groupid).length := by
      simpa using List.all_eq_true.mp hlengths part List.mem_cons_self
    unfold shiftParts at hpick
    dsimp only at hpick
    rw [if_neg (by omega)] at hpick
    have hrest : ((pool.setGroup part.groupid
        ((pool.teamInfos part.groupid).drop part.count)).shiftParts parts
          ([] ++ (pool.teamInfos part.groupid).take part.count)).Shortens _ :=
      shiftParts_shortens
    rw [hpick] at hrest
    have hfirst := hrest part.groupid
    have hdrop : ((pool.setGroup part.groupid
        ((pool.teamInfos part.groupid).drop part.count)).teamInfos part.groupid).length =
          (pool.teamInfos part.groupid).length - part.count := by
      simp [setGroup]
    show (next.teamInfos part.groupid).length < (pool.teamInfos part.groupid).length
    omega
  · cases hpick

/-- More turns than the first queue has teams change nothing: the loop has left
by its condition. -/
theorem matchPair_succ {sides : List (List Part)} {part : Part} {turns : Nat} {res : List Pair}
    (hcount : 0 < part.count) (hturns : pool.turns (part :: parts) ≤ turns) :
    matchPair sides (part :: parts) (turns + 1) pool res =
      matchPair sides (part :: parts) turns pool res := by
  induction turns generalizing pool res with
  | zero =>
      have hempty : (pool.teamInfos part.groupid).length = 0 := Nat.le_zero.mp hturns
      have hrefused : pool.pickTeamPart (part :: parts) = .refused := by
        unfold pickTeamPart
        rw [if_neg]
        intro hall
        have hpart := List.all_eq_true.mp hall part List.mem_cons_self
        rw [hempty] at hpart
        simp only [decide_eq_true_eq] at hpart
        omega
      unfold matchPair
      rw [hrefused]
  | succ turns ih =>
      unfold matchPair
      cases hpick : pool.pickTeamPart (part :: parts) with
      | refused => rfl
      | raised next => rfl
      | picked next itemLeft =>
          have hleft := turns_pickTeamPart hcount hpick
          dsimp only
          cases hpickRight : next.pickRight sides with
          | refused => rfl
          | raised last => rfl
          | picked last itemRight =>
              have hright : (next.pickRight sides).Shortens next := pickRight_shortens
              rw [hpickRight] at hright
              have hlast : last.turns (part :: parts) ≤ next.turns (part :: parts) :=
                hright part.groupid
              exact ih (by omega)

/-! ### `do_match` -/

/-- The items of a round: in the queues and in the pairs found so far. -/
def Round.items (round : Round) : List Item :=
  round.pool.items ++ round.res.flatMap Pair.tms

/-- What every part of `do_match` keeps. -/
structure Round.Within (round : Round) (combatType : CombatType) (items : List Item) : Prop where
  combatType : round.pool.combatType = combatType
  items : round.items.Subperm items

theorem matchPair_within {sides : List (List Part)} {turns : Nat} {res : List Pair}
    (hsides : ∀ parts ∈ sides, ∀ part ∈ parts, part.groupid ∈ pool.groups)
    (hparts : ∀ part ∈ parts, part.groupid ∈ pool.groups) :
    (matchPair sides parts turns pool res).Within pool.combatType
      (pool.items ++ res.flatMap Pair.tms) := by
  induction turns generalizing pool res with
  | zero => exact ⟨rfl, List.Subperm.refl _⟩
  | succ turns ih =>
      have hleft := pickTeamPart_conserves hparts
      unfold matchPair
      cases hpick : pool.pickTeamPart parts with
      | refused => exact ⟨rfl, List.Subperm.refl _⟩
      | raised next =>
          rw [hpick] at hleft
          exact ⟨hleft.1, (List.subperm_append_right _).mpr hleft.2⟩
      | picked next itemLeft =>
          rw [hpick] at hleft
          obtain ⟨htype, hperm⟩ := hleft
          rw [List.append_nil] at hperm
          have hgroups : next.groups = pool.groups := by
            unfold groups
            rw [htype]
          have hright : (next.pickRight sides).Conserves next [] :=
            pickRight_conserves (hgroups ▸ hsides)
          dsimp only
          cases hpickRight : next.pickRight sides with
          | refused =>
              constructor
              · exact (combatType_putBack itemLeft).trans htype
              · show (_ ++ _ : List Item).Subperm _
                refine (List.subperm_append_right _).mpr ?_
                exact (putBack_subperm (hgroups ▸ hparts) itemLeft).trans hperm.subperm
          | raised last =>
              rw [hpickRight] at hright
              constructor
              · exact hright.1.trans htype
              · show (_ ++ _ : List Item).Subperm _
                refine (List.subperm_append_right _).mpr (hright.2.trans ?_)
                exact (List.sublist_append_left _ _).subperm.trans hperm.subperm
          | picked last itemRight =>
              rw [hpickRight] at hright
              obtain ⟨htypeRight, hpermRight⟩ := hright
              rw [List.append_nil] at hpermRight
              have hgroupsRight : last.groups = pool.groups := by
                unfold groups
                rw [htypeRight, htype]
              have hrest : (matchPair sides parts turns last
                  (res ++ [⟨itemLeft, itemRight⟩])).Within _ _ :=
                ih (hgroupsRight ▸ hsides) (hgroupsRight ▸ hparts)
              constructor
              · exact hrest.combatType.trans (htypeRight.trans htype)
              · refine hrest.items.trans (List.Perm.subperm ?_)
                -- the two sides of the new pair have left the queues
                have hboth : (last.items ++ (itemLeft ++ itemRight)).Perm pool.items := by
                  refine (List.perm_append_comm.append_left _).trans ?_
                  rw [← List.append_assoc]
                  exact (hpermRight.append_right _).trans hperm
                rw [List.flatMap_append]
                refine (List.perm_append_comm.append_left _).trans ?_
                rw [← List.append_assoc]
                simpa [Pair.tms] using hboth.append_right (res.flatMap Pair.tms)

theorem matchSides_within {sides lefts : List (List Part)} {round : Round}
    (hsides : ∀ parts ∈ sides, ∀ part ∈ parts, part.groupid ∈ round.pool.groups)
    (hlefts : ∀ parts ∈ lefts, ∀ part ∈ parts, part.groupid ∈ round.pool.groups) :
    (matchSides sides lefts round).Within round.pool.combatType round.items := by
  induction lefts generalizing round with
  | nil => exact ⟨rfl, List.Subperm.refl _⟩
  | cons parts others ih =>
      unfold matchSides
      split
      · exact ⟨rfl, List.Subperm.refl _⟩
      · have hpair : (matchPair sides parts (round.pool.turns parts) round.pool
            round.res).Within _ _ :=
          matchPair_within hsides (hlefts parts List.mem_cons_self)
        have hgroups : (matchPair sides parts (round.pool.turns parts) round.pool
            round.res).pool.groups = round.pool.groups := by
          unfold groups
          rw [hpair.combatType]
        have hrest : (matchSides sides others (matchPair sides parts
            (round.pool.turns parts) round.pool round.res)).Within _ _ :=
          ih (hgroups ▸ hsides)
            (fun other hother => hgroups ▸ hlefts other (List.mem_cons_of_mem _ hother))
        exact ⟨hrest.combatType.trans hpair.combatType, hrest.items.trans hpair.items⟩

/-- What `do_match` leaves in the queues and what it puts into pairs waited in
the pool before. -/
theorem doMatch_subperm (pool : TeamMatch) :
    (pool.doMatch.pool.items ++ pool.doMatch.res.flatMap Pair.tms).Subperm pool.items := by
  have hsides : ∀ parts ∈ pool.combatType.sides, ∀ part ∈ parts, part.groupid ∈ pool.groups :=
    sides_groups pool.combatType
  have hwithin : pool.doMatch.Within _ (Round.items ⟨pool, [], false⟩) :=
    matchSides_within hsides hsides
  have hitems := hwithin.items
  unfold Round.items at hitems
  rwa [List.flatMap_nil, List.append_nil] at hitems

end TeamMatch
end Match
end ArmyRs
