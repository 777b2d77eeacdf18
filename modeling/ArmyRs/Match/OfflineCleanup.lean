import ArmyRs.Match.MemberCounts
import ArmyRs.Match.PairConfirmation
import ArmyRs.Match.PoolExclusion

/-!
# What is left of a player who goes offline

`Cleaned` says that `remove_player` takes the player's team out of every pool
and every live pair: nothing that stays has the player in its array.

The cleanup follows `player_teamid`, `player_pair` and `player_pool_team`.  It
holds in a run whose commands meet `Tracks` (`cleaned_of_run`): the team of a
request is nowhere else, and no member but the creator still has the entry of an
old pair, which the timeout and the refusal of a pair leave behind; who joins a
team that waits or is paired has the entries that go with it; no team is removed
while it is paired.

The invariant is `Traced`.  Every item belongs to a team that is still there as
long as somebody is in its array, `player_pair` names the pair of an item, and
`player_pool_team` names its pool unless the player has created the team.
-/

namespace ArmyRs
namespace Match

open Foundation

/-- After the removal of the player nothing that waits or is paired has an array
that the player was in. -/
def Checker.Cleaned (c : Checker) (pid : PlayerId) : Prop :=
  ∀ item ∈ (c.removePlayer pid).matching.items, pid ∉ c.teams.arrays.pids item.membersInfo

/-- The team that a new team replaces is in no live pair. -/
def Checker.ReplacesUnpaired (c : Checker) (pid : PlayerId) : Prop :=
  c.inForeignTeam pid = true ∨ ∀ id ∈ c.teams.teamMap pid, ∀ info ∈ c.teams.teamInfos id,
    Apart c.matching.pairItems info

/-- A team is removed only while it is in no live pair.  A request is of a team
that waits nowhere else and is not paired, and whose members, the creator apart,
have no entry in `player_pair`.  Who joins a team that waits or is paired has the
entries of it.  Besides, the tables of the teams stay right (`Regular`). -/
def Tracks (profiles : List PoolProfile) (c : Checker) : Event → Prop
  | .createTeam pid _ _ => c.FreshId pid ∧ c.ReplacesUnpaired pid
  | .removeTeam id => ∀ info ∈ c.teams.teamInfos id, Apart c.matching.pairItems info
  | .joinTeam id pid _ =>
      ∀ info ∈ c.teams.teamInfos id, c.teams.canJoin info pid = true →
        c.teams.membercount info ≠ 5 ∧ c.Leaves pid info
  | .leaveTeam id pid =>
      Regular c (.leaveTeam id pid) ∧ ∀ info ∈ c.teams.teamInfos id, info.creator = pid →
        Apart c.matching.pairItems info ∨
          ∀ other ∈ c.teams.arrays.pids info.membersInfo, other = pid
  | .kickMember id kickedPid => Regular c (.kickMember id kickedPid)
  | .matchRequest id zone mtype ctype closed =>
      ∀ info ∈ c.teams.teamInfos id,
        ∀ found ∈ c.acceptedBy profiles info zone mtype ctype closed,
          (∀ item ∈ c.itemsBeside id found, item.teamId ≠ id) ∧
            ∀ pid ∈ c.teams.arrays.pids info.membersInfo, pid ≠ info.creator →
              c.matching.playerPair pid = none
  | _ => True

instance (c : Checker) (pid : PlayerId) : Decidable (c.ReplacesUnpaired pid) :=
  inferInstanceAs (Decidable (_ ∨ ∀ id ∈ c.teams.teamMap pid, ∀ info ∈ c.teams.teamInfos id,
    Apart c.matching.pairItems info))

instance (profiles : List PoolProfile) (c : Checker) :
    (event : Event) → Decidable (Tracks profiles c event)
  | .createTeam pid _ _ => inferInstanceAs (Decidable (c.FreshId pid ∧ c.ReplacesUnpaired pid))
  | .removeTeam id =>
      inferInstanceAs (Decidable (∀ info ∈ c.teams.teamInfos id,
        Apart c.matching.pairItems info))
  | .joinTeam id pid _ =>
      inferInstanceAs (Decidable (∀ info ∈ c.teams.teamInfos id,
        c.teams.canJoin info pid = true → c.teams.membercount info ≠ 5 ∧ c.Leaves pid info))
  | .leaveTeam id pid =>
      inferInstanceAs (Decidable (Regular c (.leaveTeam id pid) ∧
        ∀ info ∈ c.teams.teamInfos id, info.creator = pid →
          Apart c.matching.pairItems info ∨
            ∀ other ∈ c.teams.arrays.pids info.membersInfo, other = pid))
  | .kickMember id kickedPid =>
      inferInstanceAs (Decidable (Regular c (.kickMember id kickedPid)))
  | .matchRequest id zone mtype ctype closed =>
      inferInstanceAs (Decidable (∀ info ∈ c.teams.teamInfos id,
        ∀ found ∈ c.acceptedBy profiles info zone mtype ctype closed,
          (∀ item ∈ c.itemsBeside id found, item.teamId ≠ id) ∧
            ∀ pid ∈ c.teams.arrays.pids info.membersInfo, pid ≠ info.creator →
              c.matching.playerPair pid = none))
  | .teamMemberReady .. | .matchCancel .. | .matchConfirm .. | .removePlayer .. | .update =>
      inferInstanceAs (Decidable True)

/-! ## The invariant -/

/-- What the tables know of the items.  `flight` are the items of the pairs that
`do_match` has returned and `update` has not yet put into the table. -/
structure Traced (t : TeamManager) (m : MatchManager) (flight : List Item) : Prop where
  ids : ((m.items ++ flight).map Item.teamId).Nodup
  link : ∀ item ∈ m.items ++ flight, ∀ pid ∈ t.arrays.pids item.membersInfo,
    ∃ info, t.teamInfos item.teamId = some info ∧ info.membersInfo = item.membersInfo
  paired : ∀ mp ∈ m.matchedPairs, ∀ item ∈ mp.pair.tms,
    ∀ pid ∈ t.arrays.pids item.membersInfo, m.playerPair pid = some mp.pairId
  pooled : ∀ pool ∈ m.pools, ∀ item ∈ pool.teamMatch.items,
    ∀ pid ∈ t.arrays.pids item.membersInfo, t.teamMap pid = some item.teamId ∨
      m.playerPair pid = none ∧
        m.playerPoolTeam pid = some ⟨pool.zone, pool.poolId, item.teamId⟩

def Checker.Traceable (c : Checker) : Prop :=
  Traced c.teams c.matching []

variable {profiles : List PoolProfile} {c next : Checker} {t new : TeamManager}
  {m nextMatching : MatchManager} {flight : List Item} {item other : Item} {pid : PlayerId}

/-- Whoever is in the array of an item is a member of its team. -/
theorem Traced.member (h : Traced t m flight) (hitem : item ∈ m.items ++ flight)
    (hpid : pid ∈ t.arrays.pids item.membersInfo) : t.registry.Member item.teamId pid := by
  obtain ⟨info, hinfo, href⟩ := h.link item hitem pid hpid
  exact TeamManager.member_registry.mpr ⟨info, hinfo, href ▸ hpid⟩

theorem Traced.playerTeamid (h : Traced t m flight) (hconsistent : t.registry.Consistent)
    (hitem : item ∈ m.items ++ flight) (hpid : pid ∈ t.arrays.pids item.membersInfo) :
    t.playerTeamid pid = some item.teamId :=
  (hconsistent.memberOf pid item.teamId).mpr (h.member hitem hpid)

/-- Nobody is in two items of different teams. -/
theorem Traced.same_team (h : Traced t m flight) (hconsistent : t.registry.Consistent)
    (hitem : item ∈ m.items ++ flight) (hother : other ∈ m.items ++ flight)
    (hpid : pid ∈ t.arrays.pids item.membersInfo)
    (hpidOther : pid ∈ t.arrays.pids other.membersInfo) : item.teamId = other.teamId :=
  hconsistent.member_unique (h.member hitem hpid) (h.member hother hpidOther)

theorem MatchManager.mem_items_of_pool {pool : Pool} (hpool : pool ∈ m.pools)
    (hitem : item ∈ pool.teamMatch.items) : item ∈ m.items :=
  List.mem_append_left _ (List.mem_flatMap.mpr ⟨pool, hpool, hitem⟩)

theorem MatchManager.mem_items_of_pair {mp : MatchedPair} (hmp : mp ∈ m.matchedPairs)
    (hitem : item ∈ mp.pair.tms) : item ∈ m.items :=
  List.mem_append_right _ (List.mem_flatMap.mpr ⟨mp, hmp, hitem⟩)

/-- The pools and the pairs lose something. -/
theorem Traced.narrow (h : Traced t m flight) (hnarrows : m.Narrows nextMatching)
    (hitems : nextMatching.items.Subperm m.items)
    (hpair : ∀ pid, nextMatching.playerPair pid = m.playerPair pid ∨
      nextMatching.playerPair pid = none ∧ ∀ mp ∈ nextMatching.matchedPairs,
        ∀ item ∈ mp.pair.tms, pid ∉ t.arrays.pids item.membersInfo)
    (hpoolTeam : nextMatching.playerPoolTeam = m.playerPoolTeam) :
    Traced t nextMatching flight := by
  have hsub := (List.subperm_append_right flight).mpr hitems
  constructor
  · exact nodup_map_of_subperm hsub h.ids
  · exact fun item hitem => h.link item (hsub.subset hitem)
  · intro mp hmp item hitem pid hpid
    obtain ⟨old, hold, hsame⟩ := hnarrows.pairs mp hmp
    rcases hpair pid with heq | ⟨-, hnot⟩
    · rw [heq, hsame.pairId]
      exact h.paired old hold item (hsame.pair ▸ hitem) pid hpid
    · exact absurd hpid (hnot mp hmp item hitem)
  · intro pool hpool item hitem pid hpid
    obtain ⟨old, hold, hpoolNarrows⟩ := hnarrows.pools pool hpool
    rcases h.pooled old hold item (hpoolNarrows.items item hitem) pid hpid with
      hcreator | ⟨hnone, hentry⟩
    · exact .inl hcreator
    · refine .inr ⟨?_, ?_⟩
      · rcases hpair pid with heq | ⟨heq, -⟩
        · rw [heq, hnone]
        · exact heq
      · rw [hpoolTeam, hpoolNarrows.zone, hpoolNarrows.poolId, hentry]

/-- The teams change, and nobody is new in the array of an item. -/
theorem Traced.teams (h : Traced t m flight)
    (hpids : ∀ item ∈ m.items ++ flight, ∀ pid ∈ new.arrays.pids item.membersInfo,
      pid ∈ t.arrays.pids item.membersInfo)
    (hinfos : ∀ item ∈ m.items ++ flight, ∀ pid ∈ new.arrays.pids item.membersInfo, ∀ info,
      t.teamInfos item.teamId = some info → info.membersInfo = item.membersInfo →
        ∃ newInfo, new.teamInfos item.teamId = some newInfo ∧
          newInfo.membersInfo = item.membersInfo)
    (hmap : ∀ item ∈ m.poolItems, ∀ pid ∈ new.arrays.pids item.membersInfo,
      t.teamMap pid = some item.teamId → new.teamMap pid = some item.teamId) :
    Traced new m flight := by
  constructor
  · exact h.ids
  · intro item hitem pid hpid
    obtain ⟨info, hinfo, href⟩ := h.link item hitem pid (hpids item hitem pid hpid)
    exact hinfos item hitem pid hpid info hinfo href
  · intro mp hmp item hitem pid hpid
    have hmem := List.mem_append_left flight (MatchManager.mem_items_of_pair hmp hitem)
    exact h.paired mp hmp item hitem pid (hpids item hmem pid hpid)
  · intro pool hpool item hitem pid hpid
    have hmem := List.mem_append_left flight (MatchManager.mem_items_of_pool hpool hitem)
    refine (h.pooled pool hpool item hitem pid (hpids item hmem pid hpid)).imp_left ?_
    exact hmap item (List.mem_flatMap.mpr ⟨pool, hpool, hitem⟩) pid hpid

theorem Traced.alike (h : Traced t m flight) (halike : t.Alike new) : Traced new m flight := by
  apply h.teams
  · intro item _ pid hpid
    rwa [halike.pids] at hpid
  · intro item _ pid _ info hinfo href
    cases hnew : new.teamInfos item.teamId with
    | none =>
        rw [halike.kept _ hnew] at hinfo
        cases hinfo
    | some newInfo =>
        obtain ⟨old, hold, -, hrefOld⟩ := halike.infos _ newInfo hnew
        rw [hinfo] at hold
        cases hold
        exact ⟨newInfo, rfl, hrefOld.symm.trans href⟩
  · intro item _ pid _ hmap
    rw [halike.teamMap, hmap]

/-! ## Teams -/

theorem TeamManager.teamMap_creator {id : Nat} {info : TeamInfo}
    (hconsistent : t.registry.Consistent) (hinfo : t.teamInfos id = some info) :
    t.teamMap info.creator = some id :=
  (hconsistent.ownerOf info.creator id).mpr
    (TeamManager.owner_registry.mpr ⟨info, hinfo, rfl⟩)

theorem TeamManager.creator_mem {id : Nat} {info : TeamInfo}
    (hconsistent : t.registry.Consistent) (hinfo : t.teamInfos id = some info) :
    info.creator ∈ t.arrays.pids info.membersInfo :=
  hconsistent.owner_mem id _ (TeamManager.clubs_of_info hinfo)

/-- A member goes. -/
theorem traceable_removeMember (h : c.Traceable) (info : TeamInfo) (pid : PlayerId) :
    Checker.Traceable { c with
      teams := (c.teams.removeMember info pid).deletePlayerTeamids [pid] } := by
  apply Traced.teams h
  · exact fun item _ other hother =>
      (TeamManager.shrinks_removeMember info pid).pids item.membersInfo other hother
  · exact fun item _ _ _ old hold href => ⟨old, hold, href⟩
  · exact fun _ _ _ _ hmap => hmap

/-- A team goes that is in no pool, and in no pair with a player. -/
theorem Traced.deleteTeam {id : Nat} {info : TeamInfo} (h : Traced t m flight)
    (hown : t.teamMap info.creator = some id)
    (hgone : ∀ item ∈ m.items ++ flight, ∀ pid ∈ t.arrays.pids item.membersInfo,
      item.teamId ≠ id) : Traced (t.deleteTeam id info) m flight := by
  apply h.teams
  · exact fun item _ pid hpid => hpid
  · intro item hitem pid hpid old hold href
    refine ⟨old, ?_, href⟩
    show Function.update t.teamInfos id none item.teamId = some old
    rw [Function.update_of_ne (hgone item hitem pid hpid), hold]
  · intro item hitem pid hpid hmap
    show Function.update t.teamMap info.creator none pid = some item.teamId
    rw [Function.update_of_ne, hmap]
    rintro rfl
    rw [hmap] at hown
    have hmem : item ∈ m.items ++ flight :=
      List.mem_append_left _ (List.mem_append_left _ hitem)
    exact hgone item hmem info.creator hpid (Option.some_inj.mp hown)

/-- A removed team leaves the pools; it has to be in no pair with a player. -/
theorem traceable_removed {id : Nat} {info : TeamInfo} (h : c.Traceable)
    (hinfo : c.teams.teamInfos id = some info) (hown : c.teams.teamMap info.creator = some id)
    (hunpaired : ∀ item ∈ c.matching.pairItems, item.membersInfo = info.membersInfo →
      ∀ pid, pid ∉ c.teams.arrays.pids item.membersInfo)
    (hteams : next.teams = c.teams.deleteTeam id info)
    (hmatching : next.matching =
      c.matching.keepItems fun _ _ item => decide (item.teamId ≠ id)) : next.Traceable := by
  have hnarrows := MatchManager.narrows_keepItems (m := c.matching)
    fun _ _ item => decide (item.teamId ≠ id)
  have hitems := MatchManager.items_removeFrom (m := c.matching) (fun _ => true) id
  have hkept : Traced c.teams next.matching [] := by
    rw [hmatching]
    apply Traced.narrow h hnarrows
    · rw [← MatchManager.delTeamDetail_eq]
      exact hitems
    · exact fun _ => .inl rfl
    · rfl
  unfold Checker.Traceable
  rw [hteams]
  apply hkept.deleteTeam hown
  intro item hitem pid hpid heq
  rw [hmatching, List.append_nil] at hitem
  rcases List.mem_append.mp hitem with hpoolItem | hpairItem
  · obtain ⟨pool, hpool, hmem⟩ := List.mem_flatMap.mp hpoolItem
    exact of_decide_eq_true (MatchManager.keep_of_mem_keepItems hpool hmem) heq
  · -- the item has the array of the team, as long as somebody is in it
    have hmem : item ∈ c.matching.items ++ [] :=
      List.mem_append_left _ (List.mem_append_right _ hpairItem)
    obtain ⟨own, hown, href⟩ := h.link item hmem pid hpid
    rw [heq, hinfo] at hown
    cases hown
    exact hunpaired item hpairItem href.symm pid hpid

theorem traceable_removeTeam {id : Nat} (h : c.Traceable)
    (hconsistent : c.teams.registry.Consistent)
    (hapart : ∀ info, c.teams.teamInfos id = some info → Apart c.matching.pairItems info) :
    (c.removeTeam id).Traceable := by
  cases hinfo : c.teams.teamInfos id with
  | none =>
      unfold Checker.removeTeam Checker.doRemoveTeam
      rw [hinfo]
      exact h
  | some info =>
      apply traceable_removed h hinfo (TeamManager.teamMap_creator hconsistent hinfo)
      · exact fun item hitem href => absurd href (hapart info hinfo item hitem)
      · exact teams_removeTeam hinfo
      · exact Checker.matching_removeTeam hinfo

theorem traceable_leaveTeam {id : Nat} (h : c.Traceable)
    (hconsistent : c.teams.registry.Consistent)
    (htracks : Tracks profiles c (.leaveTeam id pid)) : (c.leaveTeam id pid).Traceable := by
  unfold Checker.leaveTeam
  cases hinfo : c.teams.teamInfos id with
  | none => exact h
  | some info =>
      have hleft := traceable_removeMember h info pid
      dsimp only
      split
      · next hcreator =>
        have hown := TeamManager.teamMap_creator hconsistent hinfo
        generalize hc : ({ c with
          teams := (c.teams.deletePlayerTeamids [pid]).removeMember info pid } : Checker) = left
        have htraceable : left.Traceable := by
          subst hc
          exact hleft
        have hinfoLeft : left.teams.teamInfos id = some info := by
          subst hc
          exact hinfo
        apply traceable_removed htraceable hinfoLeft
        · subst hc
          exact hown
        · intro item hitem href other hother
          subst hc
          rw [href] at hother
          have hfilter : other ∈ (c.teams.arrays.pids info.membersInfo).filter
              fun other => other ≠ pid := by
            rw [← TeamManager.pids_removeMember]
            exact hother
          obtain ⟨hmem, hne⟩ := List.mem_filter.mp hfilter
          rcases htracks.2 info hinfo hcreator with hapart | halone
          · exact hapart item hitem href
          · exact of_decide_eq_true hne (halone other hmem)
        · exact teams_removeTeam hinfoLeft
        · exact Checker.matching_removeTeam hinfoLeft
      · exact hleft

theorem traceable_kickMember (h : c.Traceable) (id : Nat) (kickedPid : PlayerId) :
    (c.kickMember id kickedPid).Traceable := by
  unfold Checker.kickMember
  cases c.teams.teamInfos id with
  | none => exact h
  | some info =>
      dsimp only
      split
      · exact h
      · exact traceable_removeMember h info kickedPid

/-- A team comes under a free id, with a player who is in no item. -/
theorem Traced.newTeam (h : Traced t m flight)
    (hrefs : ∀ item ∈ m.items ++ flight, item.membersInfo < t.nextRef)
    (hfresh : t.teamInfos t.genTeamId = none)
    (hfree : ∀ item ∈ m.items ++ flight, pid ∉ t.arrays.pids item.membersInfo)
    (score teamType : Int) : Traced (t.newTeam pid score teamType) m flight := by
  have hpids : ∀ item ∈ m.items ++ flight,
      (t.newTeam pid score teamType).arrays.pids item.membersInfo =
        t.arrays.pids item.membersInfo := by
    intro item hitem
    show (Function.update t.arrays t.nextRef _ item.membersInfo).map Member.pid = _
    rw [Function.update_of_ne (hrefs item hitem).ne]
    rfl
  apply h.teams
  · intro item hitem other hother
    rwa [hpids item hitem] at hother
  · intro item hitem other _ info hinfo href
    refine ⟨info, ?_, href⟩
    show Function.update t.teamInfos t.genTeamId _ item.teamId = some info
    rw [Function.update_of_ne, hinfo]
    intro heq
    rw [heq, hfresh] at hinfo
    cases hinfo
  · intro item hitem other hother hmap
    have hmem : item ∈ m.items ++ flight :=
      List.mem_append_left _ (List.mem_append_left _ hitem)
    rw [hpids item hmem] at hother
    show Function.update t.teamMap pid _ other = some item.teamId
    rw [Function.update_of_ne, hmap]
    rintro rfl
    exact hfree item hmem hother

theorem traceable_createTeam {score teamType : Int} {owner : Ref → Nat} (h : c.Traceable)
    (hconsistent : c.teams.registry.Consistent) (howned : Owned c owner)
    (htracks : Tracks profiles c (.createTeam pid score teamType)) :
    (c.createTeam pid score teamType).Traceable := by
  rcases createTeam_cases c pid score teamType with
    hsame | ⟨removed, hforeign, hremoved, hnext⟩
  · rw [hsame]
    exact h
  · obtain ⟨hfresh, hreplaces⟩ := htracks
    have hownedRemoved := howned.shrink (shrinks_of_createTeam hremoved)
    obtain ⟨hconsistentRemoved, hfree⟩ := free_of_createTeam hconsistent hforeign hremoved
    have hgone : removed.Traceable := by
      rcases hremoved with ⟨-, rfl⟩ | ⟨id, hmap, hremoved⟩
      · exact h
      · obtain ⟨info, hinfo, hteams⟩ := teams_doRemoveTeam hremoved
        have hapart : Apart c.matching.pairItems info := by
          rcases hreplaces with hother | hunpaired
          · rw [hforeign] at hother
            cases hother
          · exact hunpaired id hmap info hinfo
        apply traceable_removed h hinfo (TeamManager.teamMap_creator hconsistent hinfo)
        · exact fun item hitem href => absurd href (hapart item hitem)
        · exact hteams
        · exact Checker.matching_doRemoveTeam hremoved
    rw [hnext]
    apply Traced.newTeam hgone
    · intro item hitem
      rw [List.append_nil] at hitem
      exact (hownedRemoved.items item hitem).1
    · exact fresh_of_createTeam hfresh hforeign hremoved
    · intro item hitem hpid
      have hentry := Traced.playerTeamid hgone hconsistentRemoved hitem hpid
      rw [hfree] at hentry
      cases hentry

/-- A player joins who has the entries of the items of the team. -/
theorem traceable_addMember {id : Nat} {info : TeamInfo} (h : c.Traceable)
    (hconsistent : c.teams.registry.Consistent)
    (hinfo : c.teams.teamInfos id = some info) (hleaves : c.Leaves pid info) (score : Int) :
    Traced (c.teams.addMember id info pid score) c.matching [] := by
  have hteamMap : (c.teams.addMember id info pid score).teamMap = c.teams.teamMap := by
    unfold TeamManager.addMember
    split <;> rfl
  have hcreator := TeamManager.creator_mem hconsistent hinfo
  constructor
  · exact h.ids
  · intro item hitem other hother
    have hold : ∃ own, c.teams.teamInfos item.teamId = some own ∧
        own.membersInfo = item.membersInfo := by
      rcases mem_pids_addMember hother with hmem | ⟨-, href, -⟩
      · exact h.link item hitem other hmem
      · exact h.link item hitem info.creator (href ▸ hcreator)
    obtain ⟨own, hown, href⟩ := hold
    unfold TeamManager.addMember
    split
    · exact ⟨own, hown, href⟩
    · show ∃ new, Function.update c.teams.teamInfos id _ item.teamId = some new ∧ _
      by_cases heq : item.teamId = id
      · rw [heq] at hown ⊢
        rw [hinfo] at hown
        cases hown
        exact ⟨_, Function.update_self _ _ _, href⟩
      · exact ⟨own, (Function.update_of_ne heq _ _).trans hown, href⟩
  · intro mp hmp item hitem other hother
    rcases mem_pids_addMember hother with hmem | ⟨rfl, href, -⟩
    · exact h.paired mp hmp item hitem other hmem
    · exact hleaves.pairs mp hmp item hitem href
  · intro pool hpool item hitem other hother
    rw [hteamMap]
    rcases mem_pids_addMember hother with hmem | ⟨rfl, href, -⟩
    · exact h.pooled pool hpool item hitem other hmem
    · right
      have hwithdraws := hleaves.pools pool hpool item hitem href
      cases hpair : c.matching.playerPair other with
      | none =>
          exact ⟨rfl, (Checker.withdraws_of_unpaired hpair _ _ _).mp hwithdraws⟩
      | some pairId =>
          -- a team that waits is not in a live pair
          unfold Checker.Withdraws at hwithdraws
          rw [hpair] at hwithdraws
          obtain ⟨mp, hmp, hteam⟩ := hwithdraws
          obtain ⟨paired, hpaired, heq⟩ := List.mem_map.mp hteam
          have hids := h.ids
          rw [List.append_nil] at hids
          unfold MatchManager.items at hids
          rw [List.map_append, List.nodup_append] at hids
          refine absurd heq.symm (hids.2.2 _ (List.mem_map_of_mem ?_) _ (List.mem_map_of_mem ?_))
          · exact List.mem_flatMap.mpr ⟨pool, hpool, hitem⟩
          · exact List.mem_flatMap.mpr ⟨mp, List.mem_of_find?_eq_some hmp, hpaired⟩

theorem traceable_joinTeam {id : Nat} {score : Int} (h : c.Traceable)
    (hconsistent : c.teams.registry.Consistent)
    (htracks : Tracks profiles c (.joinTeam id pid score)) :
    (c.joinTeam id pid score).Traceable := by
  rcases joinTeam_cases c id pid score with hsame | ⟨info, hinfo, hjoin, hnext⟩
  · rw [hsame]
    exact h
  · rw [hnext]
    have hadded := traceable_addMember h hconsistent hinfo
      (htracks info hinfo hjoin).2 score
    -- `player_teamid` is not read here
    exact ⟨hadded.ids, hadded.link, hadded.paired, hadded.pooled⟩

/-! ## Departures -/

theorem tables_dismiss (mp : MatchedPair) :
    (c.dismiss mp).matching.playerPair = c.matching.playerPair ∧
      (c.dismiss mp).matching.playerPoolTeam = c.matching.playerPoolTeam := by
  show ((c.matching.deletePair mp.pairId).delTeamDetailByMp mp).playerPair = _ ∧
    ((c.matching.deletePair mp.pairId).delTeamDetailByMp mp).playerPoolTeam = _
  rw [MatchManager.delTeamDetailByMp_eq]
  exact ⟨rfl, rfl⟩

theorem traceable_dismiss (h : c.Traceable) (mp : MatchedPair) : (c.dismiss mp).Traceable := by
  apply Traced.narrow h (Checker.narrows_dismiss mp) (Checker.shrinks_dismiss mp).items
  · exact fun other => .inl (congrFun (tables_dismiss mp).1 other)
  · exact (tables_dismiss mp).2

theorem traceable_dismissPairOnPlayeroffline (h : c.Traceable) (pid : PlayerId) :
    (c.dismissPairOnPlayeroffline pid).Traceable := by
  have hnarrows := Checker.narrows_dismissPairOnPlayeroffline (c := c) pid
  have hitems := (Checker.shrinks_dismissPairOnPlayeroffline (c := c) pid).items
  have hpairs := Checker.mem_pairs_dismissPairOnPlayeroffline c pid
  revert hnarrows hitems hpairs
  unfold Checker.dismissPairOnPlayeroffline
  cases hpair : c.matching.playerPair pid with
  | none =>
      dsimp only
      cases c.matching.playerPoolTeam pid with
      | none => exact fun _ _ _ => h
      | some entry =>
          intro hnarrows hitems _
          exact Traced.narrow h hnarrows hitems (fun _ => .inl rfl) rfl
  | some pairId =>
      dsimp only
      cases hmp : c.matching.findPair pairId with
      | none => exact fun _ _ _ => h
      | some mp =>
          have hkey : mp.pairId = pairId := of_decide_eq_true
            (List.find?_some (p := fun mp : MatchedPair => decide (mp.pairId = pairId)) hmp)
          intro hnarrows hitems hpairs
          refine Traced.narrow h hnarrows hitems (fun other => ?_) (tables_dismiss mp).2
          by_cases hother : other ∈ c.teams.arrays.pairPids mp.pair
          · refine .inr ⟨if_pos hother, fun live hlive item hitem hmem => ?_⟩
            obtain ⟨hold, hnot⟩ := (hpairs live).mp hlive
            -- both pairs are the one that `player_pair` names
            obtain ⟨member, hmember, hin⟩ := List.mem_flatMap.mp hother
            have hdismissed := h.paired mp (List.mem_of_find?_eq_some hmp) member hmember other hin
            rw [h.paired live hold item hitem other hmem, hkey] at hdismissed
            apply hnot
            unfold Checker.Dissolves
            rw [hpair, hdismissed]
          · refine .inl ((if_neg hother).trans ?_)
            exact congrFun (tables_dismiss mp).1 other

/-- What stays paired is not the player's. -/
theorem not_mem_pairItems_dismissed (h : c.Traceable) :
    ∀ item ∈ (c.dismissPairOnPlayeroffline pid).matching.pairItems,
      pid ∉ c.teams.arrays.pids item.membersInfo := by
  intro item hitem hpid
  obtain ⟨mp, hmp, hmem⟩ := List.mem_flatMap.mp hitem
  obtain ⟨hold, hnot⟩ := (Checker.mem_pairs_dismissPairOnPlayeroffline c pid mp).mp hmp
  exact hnot (h.paired mp hold item hmem pid hpid)

/-- What stays in a pool and is the player's belongs to a team of the player. -/
theorem teamMap_of_dismissed (h : c.Traceable) :
    ∀ item ∈ (c.dismissPairOnPlayeroffline pid).matching.poolItems,
      pid ∈ c.teams.arrays.pids item.membersInfo → c.teams.teamMap pid = some item.teamId := by
  intro item hitem hpid
  obtain ⟨pool, hpool, hmem⟩ := List.mem_flatMap.mp hitem
  rw [Checker.pools_dismissPairOnPlayeroffline] at hpool
  have hstays : ¬ c.Withdraws pid pool.zone pool.poolId item.teamId :=
    of_decide_eq_true (MatchManager.keep_of_mem_keepItems hpool hmem)
  obtain ⟨old, hold, hnarrows⟩ := (MatchManager.narrows_keepItems _).pools pool hpool
  rcases h.pooled old hold item (hnarrows.items item hmem) pid hpid with
    hcreator | ⟨hnone, hentry⟩
  · exact hcreator
  · refine absurd ?_ hstays
    rw [Checker.withdraws_of_unpaired hnone, hentry, hnarrows.zone, hnarrows.poolId]

/-- A departure, for a player whose team is there. -/
theorem removePlayer_of_info {id : Nat} {info : TeamInfo} (hid : c.teams.playerTeamid pid = some id)
    (hinfo : c.teams.teamInfos id = some info) :
    ∃ status : Checker, c.teams.Alike status.teams ∧ status.matching = c.matching ∧
      c.removePlayer pid =
        if info.creator = pid then (status.dismissPairOnPlayeroffline pid).removeTeam id
        else { status.dismissPairOnPlayeroffline pid with
          teams := ((status.dismissPairOnPlayeroffline pid).teams.removeMember info
            pid).deletePlayerTeamids [pid] } := by
  refine ⟨{ c with teams := c.teams.setStatus id 0 }, TeamManager.alike_setStatus id 0, rfl, ?_⟩
  unfold Checker.removePlayer
  rw [hid]
  dsimp only
  rw [hinfo]

theorem traceable_of_alike {status : Checker} (h : c.Traceable)
    (halike : c.teams.Alike status.teams) (hmatching : status.matching = c.matching) :
    status.Traceable := by
  unfold Checker.Traceable
  rw [hmatching]
  exact Traced.alike h halike

theorem traceable_removePlayer (h : c.Traceable) (hconsistent : c.teams.registry.Consistent)
    (pid : PlayerId) : (c.removePlayer pid).Traceable := by
  cases hid : c.teams.playerTeamid pid with
  | none =>
      unfold Checker.removePlayer
      rw [hid]
      exact h
  | some id =>
      cases hinfo : c.teams.teamInfos id with
      | none =>
          unfold Checker.removePlayer
          rw [hid]
          dsimp only
          rw [hinfo]
          exact h
      | some info =>
          obtain ⟨status, halike, hmatching, hremoved⟩ := removePlayer_of_info hid hinfo
          have hstatus := traceable_of_alike h halike hmatching
          have hleft := traceable_dismissPairOnPlayeroffline hstatus pid
          have hteams := Checker.teams_dismissPairOnPlayeroffline (c := status) pid
          rw [hremoved]
          split
          · next hcreator =>
            have hconsistentStatus : status.teams.registry.Consistent := by
              rw [TeamManager.registry_of_alike halike]
              exact hconsistent
            apply traceable_removeTeam hleft
            · rw [hteams]
              exact hconsistentStatus
            · -- the pairs of the creator have just been dismissed
              intro now hnow item hitem href
              rw [hteams] at hnow
              have hmem := TeamManager.creator_mem hconsistentStatus hnow
              obtain ⟨old, hold, hcreatorOld, -⟩ := halike.infos id now hnow
              rw [hinfo] at hold
              cases hold
              rw [← hcreatorOld, hcreator, ← href] at hmem
              exact not_mem_pairItems_dismissed hstatus item hitem hmem
          · exact traceable_removeMember hleft info pid

/-- The cleanup, as long as the tables are traced. -/
theorem Checker.Traceable.cleaned (h : c.Traceable) (hconsistent : c.teams.registry.Consistent)
    (pid : PlayerId) : c.Cleaned pid := by
  intro item hitem hpid
  have hold : item ∈ c.matching.items ++ [] :=
    List.mem_append_left _ ((Checker.shrinks_removePlayer pid).items.subset hitem)
  have hid := Traced.playerTeamid h hconsistent hold hpid
  obtain ⟨info, hinfo, href⟩ := h.link item hold pid hpid
  obtain ⟨status, halike, hmatching, hremoved⟩ := removePlayer_of_info hid hinfo
  have hstatus := traceable_of_alike h halike hmatching
  rw [← halike.pids] at hpid
  rw [hremoved] at hitem
  split at hitem
  · next hcreator =>
    obtain ⟨now, hnow⟩ : ∃ now, status.teams.teamInfos item.teamId = some now := by
      by_contra hnone
      push Not at hnone
      have hgone := halike.kept item.teamId (Option.eq_none_iff_forall_ne_some.mpr hnone)
      rw [hinfo] at hgone
      cases hgone
    rw [← Checker.teams_dismissPairOnPlayeroffline pid] at hnow
    rw [Checker.matching_removeTeam hnow] at hitem
    rcases List.mem_append.mp hitem with hpoolItem | hpairItem
    · obtain ⟨pool, hpool, hmem⟩ := List.mem_flatMap.mp hpoolItem
      exact of_decide_eq_true (MatchManager.keep_of_mem_keepItems hpool hmem) rfl
    · exact not_mem_pairItems_dismissed hstatus item hpairItem hpid
  · next hcreator =>
    rcases List.mem_append.mp hitem with hpoolItem | hpairItem
    · -- only the creator has an entry in `team_map`
      have hmap := teamMap_of_dismissed hstatus item hpoolItem hpid
      rw [halike.teamMap] at hmap
      obtain ⟨own, hown, howner⟩ := TeamManager.owner_registry.mp
        ((hconsistent.ownerOf pid item.teamId).mp hmap)
      rw [hinfo] at hown
      cases hown
      exact hcreator howner
    · exact not_mem_pairItems_dismissed hstatus item hpairItem hpid

/-! ## Requests -/

/-- A request of a team that is nowhere else and whose members, the creator
apart, have no entry in `player_pair`. -/
theorem traceable_accepted {id zone poolId : Nat} {info : TeamInfo} {found : Pool}
    (h : c.Traceable) (hconsistent : c.teams.registry.Consistent)
    (hinfo : c.teams.teamInfos id = some info)
    (hfound : c.matching.findPool zone poolId = some found)
    (haccepted : (found.teamMatch.addTeam id info.membersInfo
      (c.teams.arrays.pids info.membersInfo).length).2 = true)
    (hbeside : ∀ item ∈ c.itemsBeside id found, item.teamId ≠ id)
    (hunpaired : ∀ pid ∈ c.teams.arrays.pids info.membersInfo, pid ≠ info.creator →
      c.matching.playerPair pid = none) :
    Traced c.teams (c.matching.addTeam id zone (some poolId) info.membersInfo
      (c.teams.arrays.pids info.membersInfo)).1 [] := by
  have hitems := items_addTeam_accepted hfound haccepted
  have hsub : (c.itemsBeside id found).Subperm c.matching.items := itemsBeside_subperm hfound
  obtain ⟨before, after, -, hput⟩ := pools_setPool hfound
  obtain ⟨hzone, -⟩ := key_findPool hfound
  have hmember : ∀ pid ∈ c.teams.arrays.pids info.membersInfo, c.teams.registry.Member id pid :=
    fun pid hpid => TeamManager.member_registry.mpr ⟨info, hinfo, hpid⟩
  -- the members of the team are in no other item
  have hapart : ∀ item ∈ c.itemsBeside id found, ∀ pid ∈ c.teams.arrays.pids item.membersInfo,
      pid ∉ c.teams.arrays.pids info.membersInfo := by
    intro item hitem pid hpid hmem
    apply hbeside item hitem
    apply hconsistent.member_unique (p := pid) ?_ (hmember pid hmem)
    exact Traced.member h (List.mem_append_left _ (hsub.subset hitem)) hpid
  have hmatching : (c.matching.addTeam id zone (some poolId) info.membersInfo
      (c.teams.arrays.pids info.membersInfo)).1 = { c.matching with
        pools := before ++ { found with teamMatch := (found.teamMatch.addTeam id info.membersInfo
          (c.teams.arrays.pids info.membersInfo).length).1 } :: after
        playerPoolTeam := fun pid =>
          if pid ∈ c.teams.arrays.pids info.membersInfo then some ⟨zone, found.poolId, id⟩
          else c.matching.playerPoolTeam pid } := by
    unfold MatchManager.addTeam
    rw [Option.bind_some, hfound]
    dsimp only
    rw [if_pos haccepted, hput]
    rfl
  constructor
  · rw [List.append_nil]
    refine ((hitems.map Item.teamId).nodup_iff).mpr ?_
    rw [List.map_append, List.nodup_append]
    refine ⟨nodup_map_of_subperm hsub ?_, List.nodup_singleton _, ?_⟩
    · have hids := h.ids
      rwa [List.append_nil] at hids
    · rintro teamId hteam other hother rfl
      obtain ⟨item, hitem, hid⟩ := List.mem_map.mp hteam
      exact hbeside item hitem (hid.trans (List.mem_singleton.mp hother))
  · intro item hitem pid hpid
    rw [List.append_nil] at hitem
    rcases List.mem_append.mp (hitems.mem_iff.mp hitem) with hold | hnew
    · exact h.link item (List.mem_append_left _ (hsub.subset hold)) pid hpid
    · cases List.mem_singleton.mp hnew
      exact ⟨info, hinfo, rfl⟩
  · rw [hmatching]
    exact h.paired
  · rw [hmatching]
    -- the requests of the others are in the same pools as before
    have hothers : ∀ pool ∈ before ++
        { found with teamMatch := found.teamMatch.removeTeam id } :: after,
        ∀ item ∈ pool.teamMatch.items, ∀ pid ∈ c.teams.arrays.pids item.membersInfo,
        c.teams.teamMap pid = some item.teamId ∨ c.matching.playerPair pid = none ∧
          (if pid ∈ c.teams.arrays.pids info.membersInfo then some ⟨zone, found.poolId, id⟩
          else c.matching.playerPoolTeam pid) = some ⟨pool.zone, pool.poolId, item.teamId⟩ := by
      intro pool hpool item hitem pid hpid
      rw [← hput] at hpool
      have hmem : item ∈ c.itemsBeside id found := MatchManager.mem_items_of_pool hpool hitem
      rw [if_neg (hapart item hmem pid hpid)]
      obtain ⟨old, hold, hnarrows⟩ := (MatchManager.narrows_setPool hfound
        (MatchManager.narrows_removeTeam found id)).pools pool hpool
      rw [hnarrows.zone, hnarrows.poolId]
      exact h.pooled old hold item (hnarrows.items item hitem) pid hpid
    intro pool hpool item hitem pid hpid
    rcases List.mem_append.mp hpool with hbefore | hrest
    · exact hothers pool (List.mem_append_left _ hbefore) item hitem pid hpid
    · rcases List.mem_cons.mp hrest with rfl | hafter
      · rcases List.mem_append.mp ((TeamMatch.items_addTeam haccepted).mem_iff.mp hitem) with
          hold | hnew
        · refine hothers { found with teamMatch := found.teamMatch.removeTeam id }
            (List.mem_append_right _ List.mem_cons_self) item ?_ pid hpid
          rw [TeamMatch.items_removeTeam]
          exact hold
        · cases List.mem_singleton.mp hnew
          by_cases hcreator : pid = info.creator
          · subst hcreator
            exact .inl (TeamManager.teamMap_creator hconsistent hinfo)
          · refine .inr ⟨hunpaired pid hpid hcreator, ?_⟩
            show (if pid ∈ c.teams.arrays.pids info.membersInfo then _ else _) = _
            rw [if_pos hpid, hzone]
      · exact hothers pool (List.mem_append_right _ (List.mem_cons_of_mem _ hafter)) item hitem
          pid hpid

theorem traceable_matchRequest {id zone mtype ctype : Nat} {closed : Bool} (h : c.Traceable)
    (hconsistent : c.teams.registry.Consistent)
    (htracks : Tracks profiles c (.matchRequest id zone mtype ctype closed)) :
    (c.matchRequest profiles id zone mtype ctype closed).Traceable := by
  rcases matchRequest_cases profiles c id zone mtype ctype closed with
    hsame | ⟨info, hinfo, ⟨hadded, hnext⟩ | ⟨hadded, hnext⟩⟩
  · rw [hsame]
    exact h
  · rw [hnext]
    refine Traced.narrow h (MatchManager.narrows_addTeam hadded)
      (items_addTeam_not_accepted hadded) (fun _ => .inl ?_) ?_
    all_goals
      unfold MatchManager.addTeam at hadded ⊢
      split
      · rfl
      · next found hfound =>
        rw [hfound] at hadded
        dsimp only at hadded ⊢
        split at hadded
        · cases hadded
        · next hrefused =>
          rw [if_neg hrefused]
          rfl
  · obtain ⟨poolId, found, hpoolId, hfound, haccepted, hby⟩ := acceptedBy_of_addTeam hadded
    obtain ⟨hbeside, hunpaired⟩ := htracks info hinfo found hby
    have hrequest := traceable_accepted h hconsistent hinfo hfound haccepted hbeside hunpaired
    rw [hnext, hpoolId]
    exact Traced.alike hrequest (TeamManager.alike_setStatus id 1)

/-! ## The periodic update -/

/-- What has not come to the table of the pairs does not count any more. -/
theorem Traced.land (h : Traced t m flight) : Traced t m [] := by
  have hsub : (m.items ++ []).Sublist (m.items ++ flight) :=
    (List.append_sublist_append_left _).mpr (List.nil_sublist flight)
  exact ⟨nodup_map_of_subperm hsub.subperm h.ids,
    fun item hitem => h.link item (hsub.subset hitem), h.paired, h.pooled⟩

/-- Whoever is in an item in flight is in no other item. -/
theorem Traced.not_mem_flight {front rest : List Item} (h : Traced t m (front ++ rest))
    (hconsistent : t.registry.Consistent) (hitem : item ∈ m.items) (hother : other ∈ front)
    (hpid : pid ∈ t.arrays.pids item.membersInfo) : pid ∉ t.arrays.pids other.membersInfo := by
  intro hpidOther
  have hsame := h.same_team hconsistent (List.mem_append_left _ hitem)
    (List.mem_append_right _ (List.mem_append_left _ hother)) hpid hpidOther
  have hids := h.ids
  rw [List.map_append, List.nodup_append] at hids
  exact hids.2.2 _ (List.mem_map_of_mem hitem) _
    (List.mem_map_of_mem (List.mem_append_left _ hother)) hsame

/-- A pair comes to the table, and its players get their entries. -/
theorem Traced.formPair {pair : Pair} (h : Traced t m (pair.tms ++ flight))
    (hconsistent : t.registry.Consistent) (pool : Pool) :
    Traced t (MatchManager.formPair t.arrays pool m pair) flight := by
  have hitems : ((MatchManager.formPair t.arrays pool m pair).items ++ flight).Subperm
      (m.items ++ (pair.tms ++ flight)) := by
    have hpairs := MatchManager.pairItems_formPair (m := m) t.arrays pool pair
    show ((m.poolItems ++ (MatchManager.formPair t.arrays pool m pair).pairItems) ++
      flight).Subperm ((m.poolItems ++ m.pairItems) ++ (pair.tms ++ flight))
    rw [List.append_assoc, List.append_assoc]
    apply (List.subperm_append_left _).mpr
    rw [← List.append_assoc]
    apply (List.subperm_append_right _).mpr
    exact hpairs.trans List.perm_append_comm.subperm
  -- only the players of the pair get other entries, and they are in no other item
  have hothers : ∀ item ∈ m.items, ∀ pid ∈ t.arrays.pids item.membersInfo,
      (MatchManager.formPair t.arrays pool m pair).playerPair pid = m.playerPair pid := by
    intro item hitem pid hpid
    apply if_neg
    intro hmem
    obtain ⟨other, hother, hpidOther⟩ := List.mem_flatMap.mp hmem
    exact h.not_mem_flight hconsistent hitem hother hpid hpidOther
  constructor
  · exact nodup_map_of_subperm hitems h.ids
  · exact fun item hitem => h.link item (hitems.subset hitem)
  · intro mp hmp item hitem pid hpid
    rcases List.mem_cons.mp ((put_subperm MatchedPair.pairId _ _).subset hmp) with rfl | hold
    · exact if_pos (List.mem_flatMap.mpr ⟨item, hitem, hpid⟩)
    · rw [hothers item (MatchManager.mem_items_of_pair hold hitem) pid hpid]
      exact h.paired mp hold item hitem pid hpid
  · intro other hother item hitem pid hpid
    rw [hothers item (MatchManager.mem_items_of_pool hother hitem) pid hpid]
    exact h.pooled other hother item hitem pid hpid

theorem Traced.formPairs {res : List Pair} (h : Traced t m (res.flatMap Pair.tms))
    (hconsistent : t.registry.Consistent) (pool : Pool) :
    Traced t (res.foldl (MatchManager.formPair t.arrays pool) m) [] := by
  induction res generalizing m with
  | nil => exact h
  | cons pair res ih => exact ih (h.formPair hconsistent pool)

/-- The pools of a checker are those before, the first, and those to come. -/
def MatchManager.withPools (m : MatchManager) (pools : List Pool) : MatchManager :=
  { m with pools := pools }

theorem withPools_formPairs (arrays : Arrays) (pool : Pool) (res : List Pair)
    (pools : List Pool) :
    (res.foldl (MatchManager.formPair arrays pool) m).withPools pools =
      res.foldl (MatchManager.formPair arrays pool) (m.withPools pools) := by
  induction res generalizing m with
  | nil => rfl
  | cons pair res ih => exact ih (m := MatchManager.formPair arrays pool m pair)

/-- `do_match` takes the items of its pairs out of the pool. -/
theorem Traced.matched {before after : List Pool} {pool : Pool}
    (h : Traced t (m.withPools (before ++ pool :: after)) []) (tick : Nat) :
    Traced t (m.withPools (before ++ Checker.matched pool tick :: after))
      (pool.teamMatch.doMatch.res.flatMap Pair.tms) := by
  have hmatch := pool.teamMatch.doMatch_subperm
  have hitems : ((m.withPools (before ++ Checker.matched pool tick :: after)).items ++
      pool.teamMatch.doMatch.res.flatMap Pair.tms).Subperm
        ((m.withPools (before ++ pool :: after)).items ++ []) := by
    show ((((before ++ Checker.matched pool tick :: after).flatMap
        fun pool => pool.teamMatch.items) ++ m.pairItems) ++ _).Subperm
      ((((before ++ pool :: after).flatMap fun pool => pool.teamMatch.items) ++ m.pairItems) ++ [])
    rw [List.append_nil]
    simp only [List.flatMap_append, List.flatMap_cons, List.append_assoc]
    apply (List.subperm_append_left _).mpr
    -- what was found moves beside the items of the pool
    calc
      pool.teamMatch.doMatch.pool.items ++ (after.flatMap (fun pool => pool.teamMatch.items) ++
        (m.pairItems ++ pool.teamMatch.doMatch.res.flatMap Pair.tms))
      _ |>.Subperm ((pool.teamMatch.doMatch.pool.items ++
          pool.teamMatch.doMatch.res.flatMap Pair.tms) ++
            (after.flatMap (fun pool => pool.teamMatch.items) ++ m.pairItems)) := by
          rw [List.append_assoc]
          refine (List.subperm_append_left _).mpr (List.Perm.subperm ?_)
          rw [← List.append_assoc]
          exact List.perm_append_comm
      _ |>.Subperm (pool.teamMatch.items ++
          (after.flatMap (fun pool => pool.teamMatch.items) ++ m.pairItems)) :=
          (List.subperm_append_right _).mpr hmatch
  constructor
  · exact nodup_map_of_subperm hitems h.ids
  · exact fun item hitem => h.link item (hitems.subset hitem)
  · exact h.paired
  · intro other hother item hitem pid hpid
    rcases List.mem_append.mp hother with hbefore | hrest
    · exact h.pooled other (List.mem_append_left _ hbefore) item hitem pid hpid
    · rcases List.mem_cons.mp hrest with rfl | hafter
      · exact h.pooled pool (List.mem_append_right _ List.mem_cons_self) item
          (hmatch.subset (List.mem_append_left _ hitem)) pid hpid
      · exact h.pooled other (List.mem_append_right _ (List.mem_cons_of_mem _ hafter)) item
          hitem pid hpid

theorem traced_updatePools (pools before : List Pool) (hconsistent : c.teams.registry.Consistent)
    (h : Traced c.teams (c.matching.withPools (before ++ pools)) []) :
    Traced (c.updatePools pools).1.teams
      ((c.updatePools pools).1.matching.withPools (before ++ (c.updatePools pools).2.1)) [] := by
  revert before hconsistent
  refine Checker.updatePools_induct (P := fun c pools rest => ∀ before,
    c.teams.registry.Consistent →
      Traced c.teams (c.matching.withPools (before ++ pools)) [] →
        Traced rest.1.teams (rest.1.matching.withPools (before ++ rest.2.1)) []) ?_ ?_ ?_ ?_ c pools
  · exact fun c before _ h => h
  · intro c pool pools _ before _ h
    exact (h.matched c.matching.tick).land.alike (TeamManager.alike_setStatuses _ 2)
  · intro c pool pools rest _ hrest before hconsistent h
    have halike : c.teams.Alike (c.formPairs pool).teams := TeamManager.alike_setStatuses _ 2
    have hformed : (c.formPairs pool).teams.registry.Consistent := by
      rw [TeamManager.registry_of_alike halike]
      exact hconsistent
    have hnext := hrest (before ++ [Checker.matched pool c.matching.tick]) hformed
    rw [List.append_assoc, List.append_assoc] at hnext
    apply hnext
    show Traced (c.formPairs pool).teams (MatchManager.withPools (List.foldl _ c.matching _) _) []
    rw [withPools_formPairs]
    exact ((h.matched c.matching.tick).alike halike).formPairs hformed _
  · intro c pool pools rest hrest before hconsistent h
    have hnext := hrest (before ++ [pool]) hconsistent
    rw [List.append_assoc, List.append_assoc] at hnext
    exact hnext h

theorem traceable_update (h : c.Traceable) (hconsistent : c.teams.registry.Consistent) :
    c.update.Traceable := by
  have hmatched : c.matchedPools.Traceable :=
    traced_updatePools (c := c.ticked) c.matching.pools [] hconsistent
      ⟨h.ids, h.link, h.paired, h.pooled⟩
  rcases Checker.update_cases c with heq | heq
  · rw [heq]
    exact hmatched
  · rw [heq]
    exact Traced.narrow hmatched MatchManager.narrows_checkTimeout
      MatchManager.items_checkTimeout (fun _ => .inl rfl) rfl

/-! ## Runs -/

/-- A confirmation leaves the entries of the players as they are, since no combat
is ever started. -/
theorem tables_comfirmMatchPair (pairId : Nat) (pid : PlayerId) (ok server : Bool) (now : Nat) :
    (c.comfirmMatchPair profiles pairId pid ok server now).matching.playerPair =
        c.matching.playerPair ∧
      (c.comfirmMatchPair profiles pairId pid ok server now).matching.playerPoolTeam =
        c.matching.playerPoolTeam := by
  unfold Checker.comfirmMatchPair
  split
  · exact ⟨rfl, rfl⟩
  · next mp hmp =>
    split
    · dsimp only
      rw [checkMatchAllConfirmed_eq]
      split
      · show (Checker.recordCompleted _ _ _).matching.playerPair = _ ∧
          (Checker.recordCompleted _ _ _).matching.playerPoolTeam = _
        rw [Checker.matching_recordCompleted]
        exact ⟨rfl, rfl⟩
      · rw [Checker.matching_recordCompleted]
        exact ⟨rfl, rfl⟩
    · exact tables_dismiss mp

theorem traceable_matchConfirm (h : c.Traceable) (pairId : Nat) (pid : PlayerId)
    (ok server : Bool) (now : Nat) :
    (c.comfirmMatchPair profiles pairId pid ok server now).Traceable := by
  obtain ⟨hpair, hpoolTeam⟩ :=
    @tables_comfirmMatchPair profiles c pairId pid ok server now
  unfold Checker.Traceable
  rw [Checker.teams_comfirmMatchPair]
  apply Traced.narrow h
  · exact Checker.narrows_comfirmMatchPair profiles pairId pid ok server now
  · exact (Checker.shrinks_comfirmMatchPair profiles pairId pid ok server now).items
  · exact fun other => .inl (congrFun hpair other)
  · exact hpoolTeam

theorem traceable_matchCancel (h : c.Traceable) (id poolid : Nat) :
    (c.matchCancel id poolid).Traceable := by
  have hnarrows := Checker.narrows_matchCancel (c := c) id poolid
  have hitems := (Checker.shrinks_matchCancel (c := c) id poolid).items
  have halike := alike_matchCancel (c := c) id poolid
  have htables : (c.matchCancel id poolid).matching.playerPair = c.matching.playerPair ∧
      (c.matchCancel id poolid).matching.playerPoolTeam = c.matching.playerPoolTeam := by
    unfold Checker.matchCancel
    split
    all_goals exact ⟨rfl, rfl⟩
  have hkept := Traced.narrow h hnarrows hitems
    (fun other => .inl (congrFun htables.1 other)) htables.2
  exact Traced.alike hkept halike

theorem regular_of_tracks {event : Event} (htracks : Tracks profiles c event) :
    Regular c event := by
  cases event with
  | createTeam pid score teamType => exact htracks.1
  | joinTeam id pid score => exact fun info hinfo hjoin => (htracks info hinfo hjoin).1
  | leaveTeam id pid => exact htracks.1
  | kickMember id kickedPid => exact htracks
  | removeTeam | teamMemberReady | matchRequest | matchCancel | matchConfirm | removePlayer
  | update => exact trivial

/-- A command that meets the condition keeps the tables traced. -/
theorem traceable_step {event : Event} (h : c.Traceable)
    (hconsistent : c.teams.registry.Consistent) (howned : ∃ owner, Owned c owner)
    (htracks : Tracks profiles c event) (hstep : step profiles c event = some next) :
    next.Traceable := by
  obtain ⟨owner, howned⟩ := howned
  cases event with
  | createTeam pid score teamType =>
      cases hstep
      exact traceable_createTeam h hconsistent howned htracks
  | removeTeam id =>
      cases hstep
      exact traceable_removeTeam h hconsistent htracks
  | joinTeam id pid score =>
      cases hstep
      exact traceable_joinTeam h hconsistent htracks
  | leaveTeam id pid =>
      cases hstep
      exact traceable_leaveTeam h hconsistent htracks
  | kickMember id kickedPid =>
      cases hstep
      exact traceable_kickMember h id kickedPid
  | teamMemberReady id pid ready =>
      cases hstep
      apply traceable_of_alike h (alike_teamMemberReady id pid ready)
      unfold Checker.teamMemberReady
      split <;> rfl
  | matchRequest id zone mtype ctype closed =>
      cases hstep
      exact traceable_matchRequest h hconsistent htracks
  | matchCancel id poolid =>
      cases hstep
      exact traceable_matchCancel h id poolid
  | matchConfirm pairId pid ok server now =>
      cases hstep
      exact traceable_matchConfirm h pairId pid ok server now
  | removePlayer pid =>
      cases hstep
      exact traceable_removePlayer h hconsistent pid
  | update =>
      cases hstep
      exact traceable_update h hconsistent

theorem traceable_initial (profiles : List PoolProfile) (zones : List Nat)
    (random : Nat → Nat → Nat) (maxTeamid : Option Nat) :
    (initial profiles zones random maxTeamid).Traceable := by
  have hitems := items_initial profiles zones random maxTeamid
  constructor
  · rw [hitems]
    exact List.nodup_nil
  · rw [hitems]
    exact fun item hitem => (nomatch hitem)
  · exact fun mp hmp => (nomatch hmp)
  · intro pool hpool item hitem
    have hmem := MatchManager.mem_items_of_pool hpool hitem
    rw [hitems] at hmem
    cases hmem

/-- In a run whose commands meet the condition nothing is left of a player who
goes offline, in every state. -/
theorem cleaned_of_run {zones : List Nat} {random : Nat → Nat → Nat} {maxTeamid : Option Nat}
    {events : List Event}
    (hrun : Run (step profiles) (Tracks profiles) (initial profiles zones random maxTeamid)
      events c) (pid : PlayerId) : c.Cleaned pid := by
  have hinv : (∃ owner, Owned c owner) ∧ c.teams.registry.Consistent ∧ c.Traceable := by
    induction hrun with
    | refl =>
        exact ⟨⟨_, owned_initial _ _ _ _⟩, consistent_initial _ _ _ _, traceable_initial _ _ _ _⟩
    | snoc _ htracks hstep ih =>
        obtain ⟨howned, hconsistent, htraceable⟩ := ih
        exact ⟨owned_step howned hstep,
          consistent_step hconsistent howned (regular_of_tracks htracks) hstep,
          traceable_step htraceable hconsistent howned htracks hstep⟩
  exact hinv.2.2.cleaned hinv.2.1 pid

/-- Two teams of two are paired for a 2v2, and a third one waits. -/
def doublesAndWaiting : List Event :=
  [.createTeam 7 1000 1, .joinTeam 1 9 1000, .teamMemberReady 1 9 true,
    .createTeam 8 1000 1, .joinTeam 2 10 1000, .teamMemberReady 2 10 true,
    .matchRequest 1 1 1 1 false, .matchRequest 2 1 1 1 false,
    .update, .update, .update, .update, .update,
    .createTeam 11 1000 1, .joinTeam 3 12 1000, .teamMemberReady 3 12 true,
    .matchRequest 3 1 1 1 false]

theorem cleaned_doublesAndWaiting :
    ((exec (step singlesAndDoubles) (Tracks singlesAndDoubles) emptyChecker
      doublesAndWaiting).getD emptyChecker).Cleaned 9 := by
  have hrun : Run (step singlesAndDoubles) (Tracks singlesAndDoubles) emptyChecker doublesAndWaiting
      ((exec (step singlesAndDoubles) (Tracks singlesAndDoubles) emptyChecker
        doublesAndWaiting).getD emptyChecker) :=
    run_exec_getD emptyChecker (by decide +kernel)
  exact cleaned_of_run hrun 9

/-- A pair of two teams of two times out, and one of the teams asks again. -/
def asksAgain : List Event :=
  [.createTeam 7 1000 1, .joinTeam 1 9 1000, .teamMemberReady 1 9 true,
    .createTeam 8 1000 1, .joinTeam 2 10 1000, .teamMemberReady 2 10 true,
    .matchRequest 1 1 1 1 false, .matchRequest 2 1 1 1 false] ++
  List.replicate 25 .update ++ [.matchRequest 1 1 1 1 false]

/-- Without the condition the team of a player who goes offline still waits. -/
theorem not_cleaned_asksAgain :
    ¬ ∀ events c, Run (step singlesAndDoubles) free emptyChecker events c →
      ∀ pid, c.Cleaned pid := by
  intro h
  generalize hlast : (exec (step singlesAndDoubles) free emptyChecker asksAgain).getD
    emptyChecker = last
  have hrun : Run (step singlesAndDoubles) free emptyChecker asksAgain last := by
    rw [← hlast]
    exact run_exec_getD emptyChecker (by decide +kernel)
  have hwaits : ⟨1, 0⟩ ∈ (last.removePlayer 9).matching.items := by
    subst hlast
    decide +kernel
  have hmember : 9 ∈ last.teams.arrays.pids 0 := by
    subst hlast
    decide +kernel
  exact h _ _ hrun 9 ⟨1, 0⟩ hwaits hmember

end Match
end ArmyRs
