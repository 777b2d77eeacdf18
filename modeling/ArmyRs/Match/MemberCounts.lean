import ArmyRs.Match.Narrowing
import ArmyRs.Match.PoolPlaces

/-!
# The sizes of the teams that wait or are paired

`Counted` says that a team waits in the queue of the number of members it has
now, and that both sides of a live pair still are full.  The items hold the
arrays of the teams themselves, so whoever joins, leaves or is kicked meanwhile
changes the size of an item without the pool or the pair taking notice.

It holds in a run whose commands meet `Keeps`: a join, a kick, and the departure
of a member touch no team that still waits or is paired afterwards, and a
creator does not leave a team that is paired (`counted_of_run`).
-/

namespace ArmyRs
namespace Match

open Foundation

/-- Every team waits in the queue of its size, and the sides of every live pair
are full. -/
structure Checker.Counted (c : Checker) : Prop where
  pools : ∀ pool ∈ c.matching.pools, ∀ groupid ∈ pool.teamMatch.groups,
    ∀ item ∈ pool.teamMatch.teamInfos groupid,
      ∃ info, c.teams.teamInfos item.teamId = some info ∧ c.teams.membercount info = groupid
  pairs : ∀ mp ∈ c.matching.matchedPairs,
    ∃ pool, c.matching.findPool mp.zone mp.poolId = some pool ∧
      (mp.pair.left.map c.teams.arrays.size).sum = pool.teamMatch.combatType.size ∧
      (mp.pair.right.map c.teams.arrays.size).sum = pool.teamMatch.combatType.size

/-- No item of the list has the array of the team. -/
def Apart (items : List Item) (info : TeamInfo) : Prop :=
  ∀ item ∈ items, item.membersInfo ≠ info.membersInfo

instance (items : List Item) (info : TeamInfo) : Decidable (Apart items info) :=
  inferInstanceAs (Decidable (∀ item ∈ items, item.membersInfo ≠ info.membersInfo))

/-- Whatever has the array of the team leaves its pool or its pair when the
player goes offline. -/
structure Checker.Leaves (c : Checker) (pid : PlayerId) (info : TeamInfo) : Prop where
  pools : ∀ pool ∈ c.matching.pools, ∀ item ∈ pool.teamMatch.items,
    item.membersInfo = info.membersInfo → c.Withdraws pid pool.zone pool.poolId item.teamId
  pairs : ∀ mp ∈ c.matching.matchedPairs, ∀ item ∈ mp.pair.tms,
    item.membersInfo = info.membersInfo → c.Dissolves pid mp

instance (c : Checker) (pid : PlayerId) (info : TeamInfo) : Decidable (c.Leaves pid info) :=
  decidable_of_iff
    ((∀ pool ∈ c.matching.pools, ∀ item ∈ pool.teamMatch.items,
      item.membersInfo = info.membersInfo → c.Withdraws pid pool.zone pool.poolId item.teamId) ∧
    ∀ mp ∈ c.matching.matchedPairs, ∀ item ∈ mp.pair.tms,
      item.membersInfo = info.membersInfo → c.Dissolves pid mp)
    ⟨fun h => ⟨h.1, h.2⟩, fun h => ⟨h.pools, h.pairs⟩⟩

/-- A new team does not take the id of another one.  Whose number of members
changes is in no pool and no live pair, or leaves them at the same time. -/
def Keeps (c : Checker) : Event → Prop
  | .createTeam pid _ _ => c.FreshId pid
  | .joinTeam id pid _ =>
      ∀ info ∈ c.teams.teamInfos id, c.teams.canJoin info pid = true →
        c.teams.membercount info ≠ 5 → Apart c.matching.items info
  | .leaveTeam id pid =>
      ∀ info ∈ c.teams.teamInfos id, pid ∈ c.teams.arrays.pids info.membersInfo →
        Apart (if info.creator = pid then c.matching.pairItems else c.matching.items) info
  | .kickMember id kickedPid =>
      ∀ info ∈ c.teams.teamInfos id, info.creator ≠ kickedPid →
        kickedPid ∈ c.teams.arrays.pids info.membersInfo → Apart c.matching.items info
  | .removePlayer pid =>
      ∀ id ∈ c.teams.playerTeamid pid, ∀ info ∈ c.teams.teamInfos id, info.creator ≠ pid →
        pid ∈ c.teams.arrays.pids info.membersInfo → c.Leaves pid info
  | _ => True

instance (c : Checker) : (event : Event) → Decidable (Keeps c event)
  | .createTeam pid _ _ => inferInstanceAs (Decidable (c.FreshId pid))
  | .joinTeam id pid _ =>
      inferInstanceAs (Decidable (∀ info ∈ c.teams.teamInfos id,
        c.teams.canJoin info pid = true →
          c.teams.membercount info ≠ 5 → Apart c.matching.items info))
  | .leaveTeam id pid =>
      inferInstanceAs (Decidable (∀ info ∈ c.teams.teamInfos id,
        pid ∈ c.teams.arrays.pids info.membersInfo →
          Apart (if info.creator = pid then c.matching.pairItems else c.matching.items) info))
  | .kickMember id kickedPid =>
      inferInstanceAs (Decidable (∀ info ∈ c.teams.teamInfos id, info.creator ≠ kickedPid →
        kickedPid ∈ c.teams.arrays.pids info.membersInfo → Apart c.matching.items info))
  | .removePlayer pid =>
      inferInstanceAs (Decidable (∀ id ∈ c.teams.playerTeamid pid,
        ∀ info ∈ c.teams.teamInfos id, info.creator ≠ pid →
          pid ∈ c.teams.arrays.pids info.membersInfo → c.Leaves pid info))
  | .removeTeam .. | .teamMemberReady .. | .matchRequest .. | .matchCancel ..
  | .matchConfirm .. | .update => inferInstanceAs (Decidable True)

/-! ## The invariant -/

/-- A live pair whose sides are full for the class of its pool. -/
def MatchedPair.Full (signature : List (Nat × Nat × CombatType)) (size : Item → Nat)
    (mp : MatchedPair) : Prop :=
  ∃ combatType : CombatType, (mp.zone, mp.poolId, combatType) ∈ signature ∧
    (mp.pair.left.map size).sum = combatType.size ∧
    (mp.pair.right.map size).sum = combatType.size

structure Checker.Aligned (c : Checker) : Prop where
  /-- A team that waits is there and has the array of its item. -/
  link : ∀ item ∈ c.matching.poolItems,
    ∃ info, c.teams.teamInfos item.teamId = some info ∧ info.membersInfo = item.membersInfo
  grouped : ∀ pool ∈ c.matching.pools, pool.teamMatch.Grouped c.teams.arrays.size
  full : ∀ mp ∈ c.matching.matchedPairs, mp.Full c.matching.signature c.teams.arrays.size

/-- The pools have different keys. -/
def MatchManager.Keyed (m : MatchManager) : Prop :=
  (m.signature.map fun entry => (entry.1, entry.2.1)).Nodup

variable {profiles : List PoolProfile} {c next : Checker}

theorem Checker.Aligned.counted (haligned : c.Aligned) (hkeyed : c.matching.Keyed) :
    c.Counted := by
  constructor
  · intro pool hpool groupid hgroup item hitem
    have hmem : item ∈ c.matching.poolItems :=
      List.mem_flatMap.mpr ⟨pool, hpool, TeamMatch.mem_items.mpr ⟨groupid, hgroup, hitem⟩⟩
    obtain ⟨info, hinfo, href⟩ := haligned.link item hmem
    refine ⟨info, hinfo, ?_⟩
    have hsize := haligned.grouped pool hpool groupid hgroup item hitem
    unfold Arrays.size at hsize
    unfold TeamManager.membercount
    rw [href, hsize]
  · intro mp hmp
    obtain ⟨combatType, hentry, hleft, hright⟩ := haligned.full mp hmp
    obtain ⟨pool, hpool, heq⟩ := List.mem_map.mp hentry
    cases hfound : c.matching.findPool mp.zone mp.poolId with
    | none =>
        have hnone := List.find?_eq_none.mp hfound pool hpool
        simp only [Prod.mk.injEq] at heq
        simp [heq.1, heq.2.1] at hnone
    | some found =>
        obtain ⟨hzone, hpoolId⟩ := key_findPool hfound
        have hfoundMem : found ∈ c.matching.pools := List.mem_of_find?_eq_some hfound
        -- the pool that is found has the key of the pair, so also its class
        have hsame : found.teamMatch.combatType = combatType := by
          have hfoundEntry : (found.zone, found.poolId, found.teamMatch.combatType) ∈
              c.matching.signature := List.mem_map_of_mem hfoundMem
          have hkeys : (fun entry : Nat × Nat × CombatType => (entry.1, entry.2.1))
              (found.zone, found.poolId, found.teamMatch.combatType) =
                (fun entry : Nat × Nat × CombatType => (entry.1, entry.2.1))
                  (mp.zone, mp.poolId, combatType) := by
            simp only [hzone, hpoolId]
          have hone := List.inj_on_of_nodup_map hkeyed hfoundEntry hentry hkeys
          exact congrArg (fun entry => entry.2.2) hone
        exact ⟨found, rfl, hsame ▸ hleft, hsame ▸ hright⟩

/-- A step that takes away only and does not change the size of what stays. -/
theorem Checker.Aligned.narrow (haligned : c.Aligned) (hnarrows : c.matching.Narrows next.matching)
    (hsize : ∀ item ∈ next.matching.items,
      next.teams.arrays.size item = c.teams.arrays.size item)
    (hlink : ∀ item ∈ next.matching.poolItems, ∀ info,
      c.teams.teamInfos item.teamId = some info →
        ∃ new, next.teams.teamInfos item.teamId = some new ∧
          new.membersInfo = info.membersInfo) : next.Aligned := by
  constructor
  · intro item hitem
    obtain ⟨info, hinfo, href⟩ := haligned.link item (hnarrows.poolItems item hitem)
    obtain ⟨new, hnew, hnewRef⟩ := hlink item hitem info hinfo
    exact ⟨new, hnew, hnewRef.trans href⟩
  · intro new hnew groupid hgroup item hitem
    obtain ⟨pool, hpool, hpoolNarrows⟩ := hnarrows.pools new hnew
    have hmem : item ∈ next.matching.items := List.mem_append_left _
      (List.mem_flatMap.mpr ⟨new, hnew, TeamMatch.mem_items.mpr ⟨groupid, hgroup, hitem⟩⟩)
    rw [hsize item hmem]
    apply haligned.grouped pool hpool groupid
    · unfold TeamMatch.groups at hgroup ⊢
      rwa [hpoolNarrows.combatType] at hgroup
    · exact hpoolNarrows.queues groupid item hitem
  · intro mp hmp
    obtain ⟨old, hold, hsame⟩ := hnarrows.pairs mp hmp
    obtain ⟨combatType, hentry, hleft, hright⟩ := haligned.full old hold
    -- a pair that stays has its old teams
    have hsizes : ∀ item ∈ mp.pair.tms,
        next.teams.arrays.size item = c.teams.arrays.size item :=
      fun item hitem => hsize item
        (List.mem_append_right _ (List.mem_flatMap.mpr ⟨mp, hmp, hitem⟩))
    refine ⟨combatType, ?_, ?_, ?_⟩
    · rw [hsame.zone, hsame.poolId, hnarrows.signature]
      exact hentry
    · rw [List.map_congr_left fun item hitem => hsizes item (List.mem_append_left _ hitem),
        hsame.pair]
      exact hleft
    · rw [List.map_congr_left fun item hitem => hsizes item (List.mem_append_right _ hitem),
        hsame.pair]
      exact hright

/-! ## Sizes -/

theorem size_of_pids {arrays other : Arrays} {item : Item}
    (hpids : arrays.pids item.membersInfo = other.pids item.membersInfo) :
    arrays.size item = other.size item := by
  have hlength := congrArg List.length hpids
  unfold Arrays.pids at hlength
  rwa [List.length_map, List.length_map] at hlength

theorem size_of_alike {t new : TeamManager} (halike : t.Alike new) (item : Item) :
    new.arrays.size item = t.arrays.size item :=
  size_of_pids (halike.pids item.membersInfo)

theorem size_setArray {t : TeamManager} {ref : Ref} {members : List Member} {item : Item}
    (hne : item.membersInfo ≠ ref) :
    (t.setArray ref members).arrays.size item = t.arrays.size item := by
  unfold Arrays.size
  rw [TeamManager.arrays_setArray, Function.update_of_ne hne]

/-- Nobody's size changes when the player is not in the array. -/
theorem size_removeMember {t : TeamManager} {info : TeamInfo} {pid : PlayerId} {item : Item}
    (h : pid ∈ t.arrays.pids info.membersInfo → item.membersInfo ≠ info.membersInfo) :
    (t.removeMember info pid).arrays.size item = t.arrays.size item := by
  by_cases hpid : pid ∈ t.arrays.pids info.membersInfo
  · exact size_setArray (h hpid)
  · apply size_of_pids
    by_cases href : item.membersInfo = info.membersInfo
    · rw [href, TeamManager.pids_removeMember, List.filter_eq_self]
      intro other hother
      refine decide_eq_true ?_
      rintro rfl
      exact hpid hother
    · unfold Arrays.pids TeamManager.removeMember
      rw [TeamManager.arrays_setArray, Function.update_of_ne href]

theorem Checker.Aligned.alike (haligned : c.Aligned) (halike : c.teams.Alike next.teams)
    (hnarrows : c.matching.Narrows next.matching) : next.Aligned := by
  refine haligned.narrow hnarrows (fun item _ => size_of_alike halike item) ?_
  intro item _ info hinfo
  cases hnew : next.teams.teamInfos item.teamId with
  | none =>
      rw [halike.kept _ hnew] at hinfo
      cases hinfo
  | some new =>
      obtain ⟨old, hold, -, href⟩ := halike.infos _ new hnew
      rw [hinfo] at hold
      cases hold
      exact ⟨new, rfl, href.symm⟩

/-! ## Commands -/

/-- A team that is removed leaves all pools. -/
theorem aligned_removed {id : Nat} (haligned : c.Aligned)
    (hinfos : next.teams.teamInfos = Function.update c.teams.teamInfos id none)
    (hmatching : next.matching =
      c.matching.keepItems fun _ _ item => decide (item.teamId ≠ id))
    (hsize : ∀ item ∈ next.matching.items,
      next.teams.arrays.size item = c.teams.arrays.size item) : next.Aligned := by
  refine haligned.narrow ?_ hsize ?_
  · rw [hmatching]
    exact MatchManager.narrows_keepItems _
  · intro item hitem old hold
    obtain ⟨pool, hpool, hmem⟩ := List.mem_flatMap.mp hitem
    rw [hmatching] at hpool
    have hne : item.teamId ≠ id :=
      of_decide_eq_true (MatchManager.keep_of_mem_keepItems hpool hmem)
    refine ⟨old, ?_, rfl⟩
    rw [hinfos, Function.update_of_ne hne, hold]

/-- What is paired keeps its array when the team is removed. -/
theorem aligned_removeTeam (haligned : c.Aligned) (id : Nat) : (c.removeTeam id).Aligned := by
  cases hinfo : c.teams.teamInfos id with
  | none =>
      unfold Checker.removeTeam Checker.doRemoveTeam
      rw [hinfo]
      exact haligned
  | some info =>
      refine aligned_removed haligned ?_ (Checker.matching_removeTeam hinfo) ?_
      all_goals rw [teams_removeTeam hinfo]
      · rfl
      · exact fun item _ => rfl

/-- A member goes, and no item that stays has the array of the team. -/
theorem aligned_removeMember {info : TeamInfo} {pid : PlayerId} (haligned : c.Aligned)
    (hapart : pid ∈ c.teams.arrays.pids info.membersInfo → Apart c.matching.items info) :
    Checker.Aligned { c with
      teams := (c.teams.removeMember info pid).deletePlayerTeamids [pid] } := by
  refine haligned.narrow ?_ ?_ ?_
  · exact MatchManager.Narrows.refl _
  · exact fun item hitem => size_removeMember fun hpid => hapart hpid item hitem
  · exact fun item _ old hold => ⟨old, hold, rfl⟩

theorem aligned_leaveTeam {id : Nat} {pid : PlayerId} {owner : Ref → Nat} (haligned : c.Aligned)
    (howned : Owned c owner) (hkeeps : Keeps c (.leaveTeam id pid)) :
    (c.leaveTeam id pid).Aligned := by
  unfold Checker.leaveTeam
  cases hinfo : c.teams.teamInfos id with
  | none => exact haligned
  | some info =>
      have hapart := hkeeps info hinfo
      dsimp only
      split
      · next hcreator =>
        -- the creator takes the team along: `removeTeam` after `removeMember`
        rw [if_pos hcreator] at hapart
        generalize hleft : ({ c with
          teams := (c.teams.deletePlayerTeamids [pid]).removeMember info pid } : Checker) = left
        have hinfoLeft : left.teams.teamInfos id = some info := by
          subst hleft
          exact hinfo
        have hmatching : (left.removeTeam id).matching =
            c.matching.keepItems fun _ _ item => decide (item.teamId ≠ id) := by
          rw [Checker.matching_removeTeam hinfoLeft]
          subst hleft
          rfl
        refine aligned_removed haligned ?_ hmatching ?_
        · rw [teams_removeTeam hinfoLeft]
          subst hleft
          rfl
        · intro item hitem
          rw [teams_removeTeam hinfoLeft]
          subst hleft
          apply size_removeMember
          intro hpid href
          rw [hmatching] at hitem
          rcases List.mem_append.mp hitem with hpoolItem | hpairItem
          · -- the items of the team have left the pools
            obtain ⟨pool, hpool, hmem⟩ := List.mem_flatMap.mp hpoolItem
            have hne : item.teamId ≠ id :=
              of_decide_eq_true (MatchManager.keep_of_mem_keepItems hpool hmem)
            have hold : item ∈ c.matching.items := List.mem_append_left _
              ((MatchManager.narrows_keepItems _).poolItems item hpoolItem)
            apply hne
            rw [← (howned.items item hold).2, href, (howned.infos id info hinfo).2]
          · -- the pairs keep it, and there nobody may be missed
            exact hapart hpid item hpairItem href
      · next hcreator =>
        rw [if_neg hcreator] at hapart
        exact aligned_removeMember haligned hapart

theorem aligned_kickMember {id : Nat} {kickedPid : PlayerId} (haligned : c.Aligned)
    (hkeeps : Keeps c (.kickMember id kickedPid)) : (c.kickMember id kickedPid).Aligned := by
  unfold Checker.kickMember
  cases hinfo : c.teams.teamInfos id with
  | none => exact haligned
  | some info =>
      dsimp only
      split
      · exact haligned
      · next hcreator => exact aligned_removeMember haligned (hkeeps info hinfo hcreator)

theorem aligned_removePlayer {pid : PlayerId} (haligned : c.Aligned)
    (hkeeps : Keeps c (.removePlayer pid)) : (c.removePlayer pid).Aligned := by
  unfold Checker.removePlayer
  cases hid : c.teams.playerTeamid pid with
  | none => exact haligned
  | some id =>
      dsimp only
      cases hinfo : c.teams.teamInfos id with
      | none => exact haligned
      | some info =>
          dsimp only
          -- `setStatus` comes first; it concerns no array
          generalize hstatus : ({ c with teams := c.teams.setStatus id 0 } : Checker) = status
          have halike : c.teams.Alike status.teams := by
            subst hstatus
            exact TeamManager.alike_setStatus id 0
          have hmatching : status.matching = c.matching := by
            subst hstatus
            rfl
          have hteams := Checker.teams_dismissPairOnPlayeroffline (c := status) pid
          have hleft : (status.dismissPairOnPlayeroffline pid).Aligned := by
            apply haligned.alike
            · rw [hteams]
              exact halike
            · rw [← hmatching]
              exact Checker.narrows_dismissPairOnPlayeroffline pid
          split
          · exact aligned_removeTeam hleft id
          · next hcreator =>
            apply aligned_removeMember hleft
            rw [hteams, halike.pids]
            intro hpid item hitem href
            have hleaves := hkeeps id hid info hinfo hcreator hpid
            rcases List.mem_append.mp hitem with hpoolItem | hpairItem
            · -- an item that stays in the pools has not been withdrawn
              obtain ⟨new, hnew, hmem⟩ := List.mem_flatMap.mp hpoolItem
              rw [Checker.pools_dismissPairOnPlayeroffline] at hnew
              have hstays : ¬ status.Withdraws pid new.zone new.poolId item.teamId :=
                of_decide_eq_true (MatchManager.keep_of_mem_keepItems hnew hmem)
              obtain ⟨pool, hpool, hnarrows⟩ := (MatchManager.narrows_keepItems _).pools new hnew
              have hwithdraws := hleaves.pools pool (hmatching ▸ hpool) item
                (hnarrows.items item hmem) href
              rw [hnarrows.zone, hnarrows.poolId] at hstays
              apply hstays
              unfold Checker.Withdraws at hwithdraws ⊢
              rw [hmatching]
              exact hwithdraws
            · -- a pair that stays has not been dissolved
              obtain ⟨mp, hmp, hmem⟩ := List.mem_flatMap.mp hpairItem
              obtain ⟨hmpOld, hstays⟩ :=
                (Checker.mem_pairs_dismissPairOnPlayeroffline status pid mp).mp hmp
              have hdissolves := hleaves.pairs mp (hmatching ▸ hmpOld) item hmem href
              apply hstays
              unfold Checker.Dissolves at hdissolves ⊢
              rw [hmatching]
              exact hdissolves

theorem aligned_joinTeam {id : Nat} {pid : PlayerId} {score : Int} (haligned : c.Aligned)
    (hkeeps : Keeps c (.joinTeam id pid score)) : (c.joinTeam id pid score).Aligned := by
  rcases joinTeam_cases c id pid score with hsame | ⟨info, hinfo, hjoin, hnext⟩
  · rw [hsame]
    exact haligned
  · rw [hnext]
    unfold TeamManager.addMember
    by_cases hcount : c.teams.membercount info = 5
    · rw [if_pos hcount]
      refine haligned.narrow ?_ ?_ ?_
      · exact MatchManager.Narrows.refl _
      · exact fun item _ => rfl
      · exact fun item _ old hold => ⟨old, hold, rfl⟩
    · rw [if_neg hcount]
      have hapart := hkeeps info hinfo hjoin hcount
      refine haligned.narrow ?_ ?_ ?_
      · exact MatchManager.Narrows.refl _
      · exact fun item hitem => size_setArray (hapart item hitem)
      · intro item _ old hold
        show ∃ new, Function.update c.teams.teamInfos id _ item.teamId = some new ∧ _
        by_cases heq : item.teamId = id
        · rw [heq] at hold ⊢
          rw [hinfo] at hold
          cases hold
          exact ⟨_, Function.update_self _ _ _, rfl⟩
        · exact ⟨old, (Function.update_of_ne heq _ _).trans hold, rfl⟩

theorem aligned_createTeam {pid : PlayerId} {score teamType : Int} {owner : Ref → Nat}
    (haligned : c.Aligned) (howned : Owned c owner)
    (hkeeps : Keeps c (.createTeam pid score teamType)) :
    (c.createTeam pid score teamType).Aligned := by
  rcases createTeam_cases c pid score teamType with
    hsame | ⟨removed, hforeign, hremoved, hnext⟩
  · rw [hsame]
    exact haligned
  · have hfresh := fresh_of_createTeam hkeeps hforeign hremoved
    have hownedRemoved := howned.shrink (shrinks_of_createTeam hremoved)
    have halignedRemoved : removed.Aligned := by
      rcases hremoved with ⟨-, rfl⟩ | ⟨id, -, hremoved⟩
      · exact haligned
      · -- the old team of the player is removed first
        obtain ⟨info, hinfo, hteams⟩ := teams_doRemoveTeam hremoved
        refine aligned_removed haligned ?_ (Checker.matching_doRemoveTeam hremoved) ?_
        all_goals rw [hteams]
        · rfl
        · exact fun item _ => rfl
    rw [hnext]
    refine halignedRemoved.narrow ?_ ?_ ?_
    · exact MatchManager.Narrows.refl _
    · intro item hitem
      -- the array of the new team is at a place that is not in use
      have hne : item.membersInfo ≠ removed.teams.nextRef := (hownedRemoved.items item hitem).1.ne
      show (Function.update removed.teams.arrays removed.teams.nextRef _ item.membersInfo).length =
        _
      rw [Function.update_of_ne hne]
      rfl
    · intro item _ old hold
      refine ⟨old, ?_, rfl⟩
      show Function.update removed.teams.teamInfos removed.teams.genTeamId _ item.teamId = some old
      rw [Function.update_of_ne, hold]
      -- no team has the new id
      intro heq
      rw [heq, hfresh] at hold
      cases hold

/-- A request comes to the queue of the number of members the team has. -/
theorem aligned_accepted {id : Nat} {info : TeamInfo} {found : Pool} {before after : List Pool}
    (haligned : c.Aligned) (hinfo : c.teams.teamInfos id = some info)
    (hpools : c.matching.pools = before ++ found :: after)
    (haccepted : (found.teamMatch.addTeam id info.membersInfo
      (c.teams.arrays.pids info.membersInfo).length).2 = true)
    (hteams : next.teams = c.teams)
    (hnext : next.matching.pools = before ++ { found with
      teamMatch := (found.teamMatch.addTeam id info.membersInfo
        (c.teams.arrays.pids info.membersInfo).length).1 } :: after)
    (hpairs : next.matching.matchedPairs = c.matching.matchedPairs) : next.Aligned := by
  have hsignature : next.matching.signature = c.matching.signature := by
    unfold MatchManager.signature
    rw [hnext, hpools]
    simp only [List.map_append, List.map_cons, TeamMatch.combatType_addTeam]
  -- the other pools are those of before
  have hcases : ∀ pool ∈ next.matching.pools, pool ∈ c.matching.pools ∨
      found ∈ c.matching.pools ∧ pool = { found with
        teamMatch := (found.teamMatch.addTeam id info.membersInfo
          (c.teams.arrays.pids info.membersInfo).length).1 } := by
    intro pool hpool
    rw [hnext] at hpool
    rw [hpools]
    rcases List.mem_append.mp hpool with hbefore | hrest
    · exact .inl (List.mem_append_left _ hbefore)
    · rcases List.mem_cons.mp hrest with rfl | hafter
      · exact .inr ⟨List.mem_append_right _ List.mem_cons_self, rfl⟩
      · exact .inl (List.mem_append_right _ (List.mem_cons_of_mem _ hafter))
  constructor
  · intro item hitem
    rw [hteams]
    obtain ⟨pool, hpool, hmem⟩ := List.mem_flatMap.mp hitem
    rcases hcases pool hpool with hold | ⟨hfound, rfl⟩
    · exact haligned.link item (List.mem_flatMap.mpr ⟨pool, hold, hmem⟩)
    · rcases List.mem_append.mp ((TeamMatch.items_addTeam haccepted).mem_iff.mp hmem) with
        hold | hnew
      · exact haligned.link item
          (List.mem_flatMap.mpr ⟨found, hfound, List.mem_of_mem_filter hold⟩)
      · cases List.mem_singleton.mp hnew
        exact ⟨info, hinfo, rfl⟩
  · intro pool hpool
    rw [hteams]
    rcases hcases pool hpool with hold | ⟨hfound, rfl⟩
    · exact haligned.grouped pool hold
    · apply (haligned.grouped found hfound).addTeam
      exact (List.length_map _).symm
  · intro mp hmp
    rw [hsignature, hteams]
    exact haligned.full mp (hpairs ▸ hmp)

theorem aligned_matchRequest {id zone mtype ctype : Nat} {closed : Bool} (haligned : c.Aligned) :
    (c.matchRequest profiles id zone mtype ctype closed).Aligned := by
  rcases matchRequest_cases profiles c id zone mtype ctype closed with
    hsame | ⟨info, hinfo, ⟨hadded, hnext⟩ | ⟨hadded, hnext⟩⟩
  · rw [hsame]
    exact haligned
  · rw [hnext]
    exact haligned.alike (TeamManager.Alike.refl _) (MatchManager.narrows_addTeam hadded)
  · obtain ⟨found, before, after, -, hpools, haccepted, hmatching⟩ :=
      MatchManager.addTeam_accepted hadded
    have hnew : Checker.Aligned { c with
        matching := (c.matching.addTeam id zone (c.requestPool profiles info mtype ctype closed)
          info.membersInfo (c.teams.arrays.pids info.membersInfo)).1 } := by
      rw [hmatching]
      exact aligned_accepted haligned hinfo hpools haccepted rfl rfl rfl
    rw [hnext]
    exact hnew.alike (TeamManager.alike_setStatus id 1) (MatchManager.Narrows.refl _)

/-! ## The periodic update -/

/-- What `update` needs of the pools and the pairs, and leaves. -/
structure Ready (signature : List (Nat × Nat × CombatType)) (size : Item → Nat)
    (pools : List Pool) (pairs : List MatchedPair) : Prop where
  grouped : ∀ pool ∈ pools, pool.teamMatch.Grouped size
  listed : ∀ pool ∈ pools, (pool.zone, pool.poolId, pool.teamMatch.combatType) ∈ signature
  full : ∀ mp ∈ pairs, mp.Full signature size

theorem Ready.tail {signature : List (Nat × Nat × CombatType)} {size : Item → Nat} {pool : Pool}
    {pools : List Pool} {pairs : List MatchedPair}
    (hready : Ready signature size (pool :: pools) pairs) : Ready signature size pools pairs :=
  ⟨fun other hother => hready.grouped other (List.mem_cons_of_mem _ hother),
    fun other hother => hready.listed other (List.mem_cons_of_mem _ hother), hready.full⟩

/-- A pool like the one that was the first comes to the others. -/
theorem Ready.cons {signature : List (Nat × Nat × CombatType)} {size : Item → Nat} {pool new : Pool}
    {others pools : List Pool} {otherPairs pairs : List MatchedPair}
    (hready : Ready signature size (pool :: others) otherPairs)
    (hrest : Ready signature size pools pairs) (hgrouped : new.teamMatch.Grouped size)
    (hzone : new.zone = pool.zone) (hpoolId : new.poolId = pool.poolId)
    (htype : new.teamMatch.combatType = pool.teamMatch.combatType) :
    Ready signature size (new :: pools) pairs := by
  constructor
  · intro other hother
    rcases List.mem_cons.mp hother with rfl | hmem
    · exact hgrouped
    · exact hrest.grouped other hmem
  · intro other hother
    rcases List.mem_cons.mp hother with rfl | hmem
    · rw [hzone, hpoolId, htype]
      exact hready.listed pool List.mem_cons_self
    · exact hrest.listed other hmem
  · exact hrest.full

theorem updatePools_ready {signature : List (Nat × Nat × CombatType)} {size : Item → Nat}
    {pools : List Pool} (hready : Ready signature size pools c.matching.matchedPairs) :
    Ready signature size (c.updatePools pools).2.1
      (c.updatePools pools).1.matching.matchedPairs := by
  revert hready
  refine Checker.updatePools_induct (P := fun c pools rest =>
    Ready signature size pools c.matching.matchedPairs →
      Ready signature size rest.2.1 rest.1.matching.matchedPairs) ?_ ?_ ?_ ?_ c pools
  · exact fun c hready => hready
  · intro c pool pools _ hready
    have hgrouped := hready.grouped pool List.mem_cons_self
    exact hready.cons hready.tail (TeamMatch.doMatch_placed hgrouped).grouped rfl rfl
      TeamMatch.combatType_doMatch
  · intro c pool pools rest _ hrest hready
    have hgrouped := hready.grouped pool List.mem_cons_self
    have hformed : Ready signature size pools (c.formPairs pool).matching.matchedPairs := by
      refine ⟨hready.tail.grouped, hready.tail.listed, fun mp hmp => ?_⟩
      rcases mem_formPairs hmp with hold | ⟨hzone, hpoolId, hpair, -⟩
      · exact hready.full mp hold
      · refine ⟨pool.teamMatch.combatType, ?_, TeamMatch.doMatch_full hgrouped mp.pair hpair⟩
        rw [hzone, hpoolId]
        exact hready.listed pool List.mem_cons_self
    exact hready.cons (hrest hformed) (TeamMatch.doMatch_placed hgrouped).grouped rfl rfl
      TeamMatch.combatType_doMatch
  · intro c pool pools rest hrest hready
    exact hready.cons (hrest hready.tail) (hready.grouped pool List.mem_cons_self) rfl rfl rfl

/-- The keys and the classes of the pools stay the same. -/
theorem signature_updatePools (pools : List Pool) :
    (c.updatePools pools).2.1.map
        (fun pool => (pool.zone, pool.poolId, pool.teamMatch.combatType)) =
      pools.map fun pool => (pool.zone, pool.poolId, pool.teamMatch.combatType) := by
  have hmatched : ∀ (pool : Pool) (tick : Nat),
      ((Checker.matched pool tick).zone, (Checker.matched pool tick).poolId,
        (Checker.matched pool tick).teamMatch.combatType) =
          (pool.zone, pool.poolId, pool.teamMatch.combatType) := by
    intro pool tick
    show (pool.zone, pool.poolId, pool.teamMatch.doMatch.pool.combatType) = _
    rw [TeamMatch.combatType_doMatch]
  refine Checker.updatePools_induct (P := fun c pools rest =>
    rest.2.1.map (fun pool => (pool.zone, pool.poolId, pool.teamMatch.combatType)) =
      pools.map fun pool => (pool.zone, pool.poolId, pool.teamMatch.combatType))
    ?_ ?_ ?_ ?_ c pools
  · exact fun c => rfl
  · intro c pool pools _
    rw [List.map_cons, List.map_cons, hmatched]
  · intro c pool pools rest _ hrest
    rw [List.map_cons, List.map_cons, hmatched, hrest]
  · intro c pool pools rest hrest
    rw [List.map_cons, List.map_cons, hrest]

/-- What waits after the pools were matched has waited before. -/
theorem poolItems_updatePools (pools : List Pool) :
    ∀ item ∈ (c.updatePools pools).2.1.flatMap (fun pool => pool.teamMatch.items),
      item ∈ pools.flatMap fun pool => pool.teamMatch.items := by
  have hmatched : ∀ (pool : Pool) (tick : Nat),
      ∀ item ∈ (Checker.matched pool tick).teamMatch.items,
      item ∈ pool.teamMatch.items := by
    intro pool tick item hitem
    exact pool.teamMatch.doMatch_subperm.subset (List.mem_append_left _ hitem)
  refine Checker.updatePools_induct (P := fun c pools rest =>
    ∀ item ∈ rest.2.1.flatMap (fun pool => pool.teamMatch.items),
      item ∈ pools.flatMap fun pool => pool.teamMatch.items) ?_ ?_ ?_ ?_ c pools
  · exact fun c item hitem => hitem
  · intro c pool pools _ item hitem
    rw [List.flatMap_cons] at hitem ⊢
    rcases List.mem_append.mp hitem with hfirst | hrest
    · exact List.mem_append_left _ (hmatched pool _ item hfirst)
    · exact List.mem_append_right _ hrest
  · intro c pool pools rest _ hinner item hitem
    rw [List.flatMap_cons] at hitem ⊢
    rcases List.mem_append.mp hitem with hfirst | hrest
    · exact List.mem_append_left _ (hmatched pool _ item hfirst)
    · exact List.mem_append_right _ (hinner item hrest)
  · intro c pool pools rest hinner item hitem
    rw [List.flatMap_cons] at hitem ⊢
    rcases List.mem_append.mp hitem with hfirst | hrest
    · exact List.mem_append_left _ hfirst
    · exact List.mem_append_right _ (hinner item hrest)

theorem aligned_update (haligned : c.Aligned) : c.update.Aligned := by
  have halike : c.teams.Alike c.matchedPools.teams :=
    Checker.alike_updatePools (c := c.ticked) c.matching.pools
  have hsize : c.matchedPools.teams.arrays.size = c.teams.arrays.size :=
    funext fun item => size_of_alike halike item
  have hsignature : c.matchedPools.matching.signature = c.matching.signature :=
    signature_updatePools (c := c.ticked) c.matching.pools
  have hready : Ready c.matching.signature c.teams.arrays.size c.matching.pools
      c.ticked.matching.matchedPairs :=
    ⟨haligned.grouped, fun pool hpool => List.mem_map_of_mem hpool, haligned.full⟩
  -- first the pools are matched, and then old pairs time out
  have hmatched : c.matchedPools.Aligned := by
    obtain ⟨hgrouped, -, hfull⟩ := updatePools_ready hready
    constructor
    · intro item hitem
      obtain ⟨info, hinfo, href⟩ := haligned.link item
        (poolItems_updatePools (c := c.ticked) c.matching.pools item hitem)
      cases hnew : c.matchedPools.teams.teamInfos item.teamId with
      | none =>
          rw [halike.kept _ hnew] at hinfo
          cases hinfo
      | some new =>
          obtain ⟨old, hold, -, hrefOld⟩ := halike.infos _ new hnew
          rw [hinfo] at hold
          cases hold
          exact ⟨new, rfl, hrefOld.symm.trans href⟩
    · rw [hsize]
      exact hgrouped
    · rw [hsize, hsignature]
      exact hfull
  rcases Checker.update_cases c with heq | heq
  · rw [heq]
    exact hmatched
  · rw [heq]
    exact hmatched.alike (TeamManager.Alike.refl _) MatchManager.narrows_checkTimeout

/-! ## Runs -/

theorem aligned_step {event : Event} (haligned : c.Aligned) (howned : ∃ owner, Owned c owner)
    (hkeeps : Keeps c event) (hstep : step profiles c event = some next) : next.Aligned := by
  obtain ⟨owner, howned⟩ := howned
  cases event with
  | createTeam pid score teamType =>
      cases hstep
      exact aligned_createTeam haligned howned hkeeps
  | removeTeam id =>
      cases hstep
      exact aligned_removeTeam haligned id
  | joinTeam id pid score =>
      cases hstep
      exact aligned_joinTeam haligned hkeeps
  | leaveTeam id pid =>
      cases hstep
      exact aligned_leaveTeam haligned howned hkeeps
  | kickMember id kickedPid =>
      cases hstep
      exact aligned_kickMember haligned hkeeps
  | teamMemberReady id pid ready =>
      cases hstep
      apply haligned.alike (alike_teamMemberReady id pid ready)
      unfold Checker.teamMemberReady
      split
      all_goals exact MatchManager.Narrows.refl _
  | matchRequest id zone mtype ctype closed =>
      cases hstep
      exact aligned_matchRequest haligned
  | matchCancel id poolid =>
      cases hstep
      exact haligned.alike (alike_matchCancel id poolid) (Checker.narrows_matchCancel id poolid)
  | matchConfirm pairId pid ok server now =>
      cases hstep
      apply haligned.alike
      · rw [Checker.teams_comfirmMatchPair]
        exact TeamManager.Alike.refl _
      · exact Checker.narrows_comfirmMatchPair profiles pairId pid ok server now
  | removePlayer pid =>
      cases hstep
      exact aligned_removePlayer haligned hkeeps
  | update =>
      cases hstep
      exact aligned_update haligned

/-- No command changes the keys and the classes of the pools. -/
theorem signature_step {event : Event} (hstep : step profiles c event = some next) :
    next.matching.signature = c.matching.signature := by
  -- removing a team only filters queues
  have hremoved : ∀ (c : Checker) (id : Nat),
      (c.removeTeam id).matching.signature = c.matching.signature := by
    intro c id
    cases hinfo : c.teams.teamInfos id with
    | none =>
        unfold Checker.removeTeam Checker.doRemoveTeam
        rw [hinfo]
        rfl
    | some info =>
        rw [Checker.matching_removeTeam hinfo]
        exact (MatchManager.narrows_keepItems _).signature
  cases event with
  | createTeam pid score teamType =>
      cases hstep
      rcases createTeam_cases c pid score teamType with
        hsame | ⟨removed, -, ⟨-, rfl⟩ | ⟨id, -, hremoved⟩, hnext⟩
      · rw [hsame]
      · rw [hnext]
      · rw [hnext]
        show removed.matching.signature = _
        rw [Checker.matching_doRemoveTeam hremoved]
        exact (MatchManager.narrows_keepItems _).signature
  | removeTeam id =>
      cases hstep
      exact hremoved c id
  | joinTeam id pid score =>
      cases hstep
      rcases joinTeam_cases c id pid score with hsame | ⟨info, -, -, hnext⟩
      · rw [hsame]
      · rw [hnext]
  | leaveTeam id pid =>
      cases hstep
      unfold Checker.leaveTeam
      split
      · rfl
      · dsimp only
        split
        · exact hremoved _ id
        · rfl
  | kickMember id kickedPid =>
      cases hstep
      unfold Checker.kickMember
      split
      · rfl
      · split <;> rfl
  | teamMemberReady id pid ready =>
      cases hstep
      unfold Checker.teamMemberReady
      split <;> rfl
  | matchRequest id zone mtype ctype closed =>
      cases hstep
      rcases matchRequest_cases profiles c id zone mtype ctype closed with
        hsame | ⟨info, hinfo, ⟨hadded, hnext⟩ | ⟨hadded, hnext⟩⟩
      · rw [hsame]
      · rw [hnext]
        exact (MatchManager.narrows_addTeam hadded).signature
      · -- an accepted request changes one queue of one pool
        obtain ⟨found, before, after, -, hpools, -, hmatching⟩ :=
          MatchManager.addTeam_accepted hadded
        rw [hnext, hmatching]
        unfold MatchManager.signature
        rw [hpools]
        simp only [List.map_append, List.map_cons, TeamMatch.combatType_addTeam]
  | matchCancel id poolid =>
      cases hstep
      exact (Checker.narrows_matchCancel id poolid).signature
  | matchConfirm pairId pid ok server now =>
      cases hstep
      exact (Checker.narrows_comfirmMatchPair profiles pairId pid ok server now).signature
  | removePlayer pid =>
      cases hstep
      unfold Checker.removePlayer
      split
      · rfl
      · split
        · rfl
        · dsimp only
          split
          · rw [hremoved]
            exact (Checker.narrows_dismissPairOnPlayeroffline pid).signature
          · exact (Checker.narrows_dismissPairOnPlayeroffline pid).signature
  | update =>
      cases hstep
      have hsignature : c.matchedPools.matching.signature = c.matching.signature :=
        signature_updatePools (c := c.ticked) c.matching.pools
      rcases Checker.update_cases c with heq | heq
      · rw [heq]
        exact hsignature
      · rw [heq]
        exact hsignature

theorem nodup_initPoolProfiles (profiles : List PoolProfile) :
    ((initPoolProfiles profiles).map PoolProfile.id).Nodup := by
  have hfold : ∀ table : List PoolProfile, (table.map PoolProfile.id).Nodup →
      ((profiles.foldl (fun table profile => put PoolProfile.id profile table) table).map
        PoolProfile.id).Nodup := by
    induction profiles with
    | nil => exact fun table htable => htable
    | cons profile rest ih => exact fun table htable => ih _ (put_nodup htable profile)
  exact hfold [] List.nodup_nil

/-- The profiles of a zone that have a class, as keys. -/
theorem keys_sublist (zone : Nat) (random : Nat → Nat → Nat) (profiles : List PoolProfile) :
    ((profiles.filterMap fun profile => (getPoolKlass profile).map fun combatType =>
      (⟨zone, profile.id, random zone profile.id, ⟨combatType, fun _ => []⟩⟩ : Pool)).map
        fun pool => (pool.zone, pool.poolId)).Sublist
      ((profiles.map PoolProfile.id).map fun id => (zone, id)) := by
  induction profiles with
  | nil => exact List.Sublist.refl _
  | cons profile rest ih =>
      rw [List.filterMap_cons]
      cases getPoolKlass profile with
      | none => exact ih.cons _
      | some combatType => exact ih.cons_cons _

theorem keyed_initial (profiles : List PoolProfile) (zones : List Nat)
    (random : Nat → Nat → Nat) (maxTeamid : Option Nat) :
    (initial profiles zones random maxTeamid).matching.Keyed := by
  unfold MatchManager.Keyed MatchManager.signature
  rw [List.map_map]
  show ((initPools profiles zones random).map fun pool => (pool.zone, pool.poolId)).Nodup
  unfold initPools
  rw [List.map_flatMap, List.nodup_flatMap]
  have hkeys := fun zone => keys_sublist zone random (initPoolProfiles profiles)
  constructor
  · intro zone _
    apply (hkeys zone).nodup
    apply (nodup_initPoolProfiles profiles).map
    exact fun id other heq => congrArg Prod.snd heq
  · refine (nodup_eraseDups zones).imp fun {zone other} hne => ?_
    intro key hkey hkeyOther
    obtain ⟨id, -, rfl⟩ := List.mem_map.mp ((hkeys zone).subset hkey)
    obtain ⟨otherId, -, heq⟩ := List.mem_map.mp ((hkeys other).subset hkeyOther)
    exact hne (congrArg Prod.fst heq).symm

theorem aligned_initial (profiles : List PoolProfile) (zones : List Nat)
    (random : Nat → Nat → Nat) (maxTeamid : Option Nat) :
    (initial profiles zones random maxTeamid).Aligned := by
  constructor
  · intro item hitem
    have hmem : item ∈ (initial profiles zones random maxTeamid).matching.items :=
      List.mem_append_left _ hitem
    rw [items_initial] at hmem
    cases hmem
  · intro pool hpool groupid _ item hitem
    obtain ⟨zone, -, hzone⟩ := List.mem_flatMap.mp hpool
    obtain ⟨profile, -, hprofile⟩ := List.mem_filterMap.mp hzone
    obtain ⟨combatType, -, rfl⟩ := Option.map_eq_some_iff.mp hprofile
    cases hitem
  · intro mp hmp
    cases hmp

/-- In a run whose commands meet the condition the counts are right in every
state. -/
theorem counted_of_run {zones : List Nat} {random : Nat → Nat → Nat} {maxTeamid : Option Nat}
    {events : List Event}
    (hrun : Run (step profiles) Keeps (initial profiles zones random maxTeamid) events c) :
    c.Counted := by
  have hinv : (∃ owner, Owned c owner) ∧ c.Aligned ∧ c.matching.Keyed := by
    induction hrun with
    | refl => exact ⟨⟨_, owned_initial _ _ _ _⟩, aligned_initial _ _ _ _, keyed_initial _ _ _ _⟩
    | snoc _ hkeeps hstep ih =>
        obtain ⟨howned, haligned, hkeyed⟩ := ih
        refine ⟨owned_step howned hstep, aligned_step haligned howned hkeeps hstep, ?_⟩
        unfold MatchManager.Keyed
        rw [signature_step hstep]
        exact hkeyed
  exact hinv.2.1.counted hinv.2.2

/-- Two teams of two are paired for a 2v2; then the creator of a third team, which
waits, goes offline. -/
def doublesPaired : List Event :=
  [.createTeam 7 1000 1, .joinTeam 1 9 1000, .teamMemberReady 1 9 true,
    .createTeam 8 1000 1, .joinTeam 2 10 1000, .teamMemberReady 2 10 true,
    .matchRequest 1 1 1 1 false, .matchRequest 2 1 1 1 false,
    .update, .update, .update, .update, .update,
    .createTeam 11 1000 1, .matchRequest 3 1 1 1 false, .removePlayer 11]

theorem counted_doublesPaired :
    ((exec (step singlesAndDoubles) Keeps emptyChecker doublesPaired).getD
      emptyChecker).Counted := by
  have hrun : Run (step singlesAndDoubles) Keeps emptyChecker doublesPaired
      ((exec (step singlesAndDoubles) Keeps emptyChecker doublesPaired).getD emptyChecker) :=
    run_exec_getD emptyChecker (by decide +kernel)
  exact counted_of_run hrun

/-- A member leaves a team of two that waits. -/
def leavesWaiting : List Event :=
  [.createTeam 7 1000 1, .joinTeam 1 9 1000, .teamMemberReady 1 9 true,
    .matchRequest 1 1 1 1 false, .leaveTeam 1 9]

/-- Without the condition a single player waits among the teams of two. -/
theorem not_counted_leavesWaiting :
    ¬ ∀ events c, Run (step singlesAndDoubles) free emptyChecker events c → c.Counted := by
  intro h
  generalize hlast : (exec (step singlesAndDoubles) free emptyChecker leavesWaiting).getD
    emptyChecker = last
  have hrun : Run (step singlesAndDoubles) free emptyChecker leavesWaiting last := by
    rw [← hlast]
    exact run_exec_getD emptyChecker (by decide +kernel)
  have hwaits : ∃ pool ∈ last.matching.pools, 2 ∈ pool.teamMatch.groups ∧
      ⟨1, 0⟩ ∈ pool.teamMatch.teamInfos 2 := by
    subst hlast
    decide +kernel
  have hcount : ∀ info ∈ last.teams.teamInfos 1, last.teams.membercount info ≠ 2 := by
    subst hlast
    decide +kernel
  obtain ⟨pool, hpool, hgroup, hitem⟩ := hwaits
  obtain ⟨info, hinfo, htwo⟩ := (h _ _ hrun).pools pool hpool 2 hgroup _ hitem
  exact hcount info hinfo htwo

end Match
end ArmyRs
