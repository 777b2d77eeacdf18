import ArmyRs.Match.MemberCounts

/-!
# Who of a pair is still there

A pair shares the arrays of its teams, and whoever leaves a team or is kicked
out of it is out of the pair as well.  `Manned` says that everyone whom a live
pair was formed with is in one of its arrays or has confirmed the pair.

A departure keeps it that meets `Stays`: the player has confirmed the live pairs
of the team, or going offline dissolves them.  The other commands keep it in any
case, since they add members and confirmations or take pairs away
(`manned_of_run`).
-/

namespace ArmyRs
namespace Match

open Foundation

/-- Everyone whom the pair was formed with is in its teams or has confirmed
it. -/
def MatchedPair.Manned (arrays : Arrays) (mp : MatchedPair) : Prop :=
  ∀ pid ∈ mp.formed, pid ∈ arrays.pairPids mp.pair ∨ pid ∈ mp.confirms

def Checker.Manned (c : Checker) : Prop :=
  ∀ mp ∈ c.matching.matchedPairs, mp.Manned c.teams.arrays

/-- The pair does not have the array, or was not formed with the player, or the
player has confirmed it. -/
def MatchedPair.Excuses (pid : PlayerId) (ref : Ref) (mp : MatchedPair) : Prop :=
  (∃ item ∈ mp.pair.tms, item.membersInfo = ref) → pid ∈ mp.formed → pid ∈ mp.confirms

instance (pid : PlayerId) (ref : Ref) (mp : MatchedPair) : Decidable (mp.Excuses pid ref) :=
  inferInstanceAs (Decidable ((∃ item ∈ mp.pair.tms, item.membersInfo = ref) → _ → _))

/-- Whoever leaves a team, is kicked out of it or goes offline has confirmed the
live pairs of the team that were formed with the player.  The pair that going
offline dissolves does not matter. -/
def Stays (c : Checker) : Event → Prop
  | .leaveTeam id pid =>
      ∀ info ∈ c.teams.teamInfos id, ∀ mp ∈ c.matching.matchedPairs,
        mp.Excuses pid info.membersInfo
  | .kickMember id kickedPid =>
      ∀ info ∈ c.teams.teamInfos id, info.creator ≠ kickedPid →
        ∀ mp ∈ c.matching.matchedPairs, mp.Excuses kickedPid info.membersInfo
  | .removePlayer pid =>
      ∀ id ∈ c.teams.playerTeamid pid, ∀ info ∈ c.teams.teamInfos id, info.creator ≠ pid →
        ∀ mp ∈ c.matching.matchedPairs, c.Dissolves pid mp ∨ mp.Excuses pid info.membersInfo
  | _ => True

instance (c : Checker) : (event : Event) → Decidable (Stays c event)
  | .leaveTeam id pid =>
      inferInstanceAs (Decidable (∀ info ∈ c.teams.teamInfos id,
        ∀ mp ∈ c.matching.matchedPairs, mp.Excuses pid info.membersInfo))
  | .kickMember id kickedPid =>
      inferInstanceAs (Decidable (∀ info ∈ c.teams.teamInfos id, info.creator ≠ kickedPid →
        ∀ mp ∈ c.matching.matchedPairs, mp.Excuses kickedPid info.membersInfo))
  | .removePlayer pid =>
      inferInstanceAs (Decidable (∀ id ∈ c.teams.playerTeamid pid,
        ∀ info ∈ c.teams.teamInfos id, info.creator ≠ pid →
          ∀ mp ∈ c.matching.matchedPairs, c.Dissolves pid mp ∨ mp.Excuses pid info.membersInfo))
  | .createTeam .. | .removeTeam .. | .joinTeam .. | .teamMemberReady .. | .matchRequest ..
  | .matchCancel .. | .matchConfirm .. | .update => inferInstanceAs (Decidable True)

variable {profiles : List PoolProfile} {c next : Checker}

/-! ## What keeps it -/

theorem pairPids_of_pids {arrays other : Arrays} (h : ∀ ref, other.pids ref = arrays.pids ref)
    (pair : Pair) : other.pairPids pair = arrays.pairPids pair := by
  unfold Arrays.pairPids
  exact List.flatMap_congr fun item _ => h item.membersInfo

/-- The pairs are old ones, and nobody is missing whom they were formed with and
who has not confirmed. -/
theorem Checker.Manned.follow (hmanned : c.Manned)
    (hpairs : ∀ mp ∈ next.matching.matchedPairs, ∃ old ∈ c.matching.matchedPairs, old.Same mp)
    (hpids : ∀ mp ∈ next.matching.matchedPairs, ∀ pid ∈ mp.formed,
      pid ∈ c.teams.arrays.pairPids mp.pair →
        pid ∈ next.teams.arrays.pairPids mp.pair ∨ pid ∈ mp.confirms) : next.Manned := by
  intro mp hmp pid hpid
  obtain ⟨old, hold, hsame⟩ := hpairs mp hmp
  rcases hmanned old hold pid (hsame.formed ▸ hpid) with hpresent | hconfirmed
  · exact hpids mp hmp pid hpid (hsame.pair.symm ▸ hpresent)
  · exact .inr (hsame.confirms hconfirmed)

/-- The arrays of the pairs have at least the players they had. -/
theorem Checker.Manned.grow (hmanned : c.Manned)
    (hpairs : ∀ mp ∈ next.matching.matchedPairs, ∃ old ∈ c.matching.matchedPairs, old.Same mp)
    (hpids : ∀ item ∈ c.matching.pairItems,
      c.teams.arrays.pids item.membersInfo ⊆ next.teams.arrays.pids item.membersInfo) :
    next.Manned := by
  apply hmanned.follow hpairs
  intro mp hmp pid _ hpresent
  obtain ⟨old, hold, hsame⟩ := hpairs mp hmp
  obtain ⟨item, hitem, hmem⟩ := List.mem_flatMap.mp hpresent
  have hitemOld : item ∈ c.matching.pairItems :=
    List.mem_flatMap.mpr ⟨old, hold, hsame.pair ▸ hitem⟩
  exact .inl (List.mem_flatMap.mpr ⟨item, hitem, hpids item hitemOld hmem⟩)

theorem Checker.Manned.alike (hmanned : c.Manned) (halike : c.teams.Alike next.teams)
    (hpairs : ∀ mp ∈ next.matching.matchedPairs,
      ∃ old ∈ c.matching.matchedPairs, old.Same mp) : next.Manned := by
  apply hmanned.grow hpairs
  intro item _
  rw [halike.pids]
  exact List.Subset.refl _

theorem same_of_mem {pairs : List MatchedPair} (h : next.matching.matchedPairs ⊆ pairs) :
    ∀ mp ∈ next.matching.matchedPairs, ∃ old ∈ pairs, old.Same mp :=
  fun mp hmp => ⟨mp, h hmp, MatchedPair.Same.refl mp⟩

/-- A player leaves an array, and the pairs that stay excuse it. -/
theorem Checker.Manned.depart {info : TeamInfo} {pid : PlayerId} (hmanned : c.Manned)
    (harrays : next.teams.arrays.pids = (c.teams.removeMember info pid).arrays.pids)
    (hpairs : next.matching.matchedPairs ⊆ c.matching.matchedPairs)
    (hexcused : ∀ mp ∈ next.matching.matchedPairs, mp.Excuses pid info.membersInfo) :
    next.Manned := by
  apply hmanned.follow (same_of_mem hpairs)
  intro mp hmp other hother hpresent
  obtain ⟨item, hitem, hmem⟩ := List.mem_flatMap.mp hpresent
  by_cases hleaver : item.membersInfo = info.membersInfo ∧ other = pid
  · obtain ⟨href, rfl⟩ := hleaver
    exact .inr (hexcused mp hmp ⟨item, hitem, href⟩ hother)
  · left
    refine List.mem_flatMap.mpr ⟨item, hitem, ?_⟩
    rw [harrays]
    by_cases href : item.membersInfo = info.membersInfo
    · rw [href, TeamManager.pids_removeMember]
      refine List.mem_filter.mpr ⟨href ▸ hmem, decide_eq_true ?_⟩
      exact fun heq => hleaver ⟨href, heq⟩
    · unfold Arrays.pids TeamManager.removeMember
      rwa [TeamManager.arrays_setArray, Function.update_of_ne href]

/-! ## Commands -/

theorem manned_createTeam {pid : PlayerId} {score teamType : Int} {owner : Ref → Nat}
    (hmanned : c.Manned) (howned : Owned c owner) :
    (c.createTeam pid score teamType).Manned := by
  rcases createTeam_cases c pid score teamType with
    hsame | ⟨removed, -, hremoved, hnext⟩
  · rw [hsame]
    exact hmanned
  · have hownedRemoved := howned.shrink (shrinks_of_createTeam hremoved)
    have hmannedRemoved : removed.Manned := by
      rcases hremoved with ⟨-, rfl⟩ | ⟨id, -, hremoved⟩
      · exact hmanned
      · obtain ⟨info, -, hteams⟩ := teams_doRemoveTeam hremoved
        have hpairs : removed.matching.matchedPairs = c.matching.matchedPairs := by
          rw [Checker.matching_doRemoveTeam hremoved]
          rfl
        refine hmanned.grow (same_of_mem fun mp hmp => hpairs ▸ hmp) fun item _ => ?_
        rw [hteams]
        exact List.Subset.refl _
    rw [hnext]
    -- the new array is none of those the pairs have
    refine hmannedRemoved.grow (same_of_mem ?_) fun item hitem => ?_
    · exact List.Subset.refl _
    · have hne : item.membersInfo ≠ removed.teams.nextRef :=
        (hownedRemoved.items item (List.mem_append_right _ hitem)).1.ne
      unfold Arrays.pids TeamManager.newTeam
      dsimp only
      rw [Function.update_of_ne hne]
      exact List.Subset.refl _

theorem manned_removeTeam (hmanned : c.Manned) (id : Nat) : (c.removeTeam id).Manned := by
  cases hinfo : c.teams.teamInfos id with
  | none =>
      unfold Checker.removeTeam Checker.doRemoveTeam
      rw [hinfo]
      exact hmanned
  | some info =>
      have hpairs : (c.removeTeam id).matching.matchedPairs = c.matching.matchedPairs := by
        rw [Checker.matching_removeTeam hinfo]
        rfl
      refine hmanned.grow (same_of_mem fun mp hmp => hpairs ▸ hmp) fun item _ => ?_
      rw [teams_removeTeam hinfo]
      exact List.Subset.refl _

theorem manned_joinTeam (hmanned : c.Manned) (id : Nat) (pid : PlayerId) (score : Int) :
    (c.joinTeam id pid score).Manned := by
  rcases joinTeam_cases c id pid score with hsame | ⟨info, -, -, hnext⟩
  · rw [hsame]
    exact hmanned
  · rw [hnext]
    refine hmanned.grow (same_of_mem ?_) fun item _ => ?_
    · exact List.Subset.refl _
    · unfold TeamManager.addMember Arrays.pids
      by_cases hcount : c.teams.membercount info = 5
      · simp only [if_pos hcount, List.Subset.refl]
      · by_cases href : item.membersInfo = info.membersInfo
        · simp [if_neg hcount, href]
        · simp [if_neg hcount, Function.update_of_ne href]

theorem manned_leaveTeam {id : Nat} {pid : PlayerId} (hmanned : c.Manned)
    (hstays : Stays c (.leaveTeam id pid)) : (c.leaveTeam id pid).Manned := by
  unfold Checker.leaveTeam
  cases hinfo : c.teams.teamInfos id with
  | none => exact hmanned
  | some info =>
      have hleft : Checker.Manned { c with
          teams := (c.teams.deletePlayerTeamids [pid]).removeMember info pid } :=
        hmanned.depart rfl (List.Subset.refl _) (hstays info hinfo)
      dsimp only
      split
      · exact manned_removeTeam hleft id
      · exact hleft

theorem manned_kickMember {id : Nat} {kickedPid : PlayerId} (hmanned : c.Manned)
    (hstays : Stays c (.kickMember id kickedPid)) : (c.kickMember id kickedPid).Manned := by
  unfold Checker.kickMember
  cases hinfo : c.teams.teamInfos id with
  | none => exact hmanned
  | some info =>
      dsimp only
      split
      · exact hmanned
      · next hcreator =>
        exact hmanned.depart rfl (List.Subset.refl _) (hstays info hinfo hcreator)

theorem manned_removePlayer {pid : PlayerId} (hmanned : c.Manned)
    (hstays : Stays c (.removePlayer pid)) : (c.removePlayer pid).Manned := by
  unfold Checker.removePlayer
  cases hid : c.teams.playerTeamid pid with
  | none => exact hmanned
  | some id =>
      dsimp only
      cases hinfo : c.teams.teamInfos id with
      | none => exact hmanned
      | some info =>
          dsimp only
          -- `setStatus` comes first; it concerns no member
          generalize hstatus : ({ c with teams := c.teams.setStatus id 0 } : Checker) = status
          have halike : c.teams.Alike status.teams := by
            subst hstatus
            exact TeamManager.alike_setStatus id 0
          have hmatching : status.matching = c.matching := by
            subst hstatus
            rfl
          have hteams := Checker.teams_dismissPairOnPlayeroffline (c := status) pid
          have hleft : (status.dismissPairOnPlayeroffline pid).Manned := by
            apply hmanned.alike
            · rw [hteams]
              exact halike
            · rw [← hmatching]
              exact (Checker.narrows_dismissPairOnPlayeroffline pid).pairs
          split
          · exact manned_removeTeam hleft id
          · next hcreator =>
            refine hleft.depart rfl (List.Subset.refl _) fun mp hmp => ?_
            obtain ⟨hmpOld, hkept⟩ :=
              (Checker.mem_pairs_dismissPairOnPlayeroffline status pid mp).mp hmp
            rw [hmatching] at hmpOld
            -- the pair is one that the disconnection dissolves, or it does without the player
            rcases hstays id hid info hinfo hcreator mp hmpOld with hdissolves | hexcuses
            · unfold Checker.Dissolves at hdissolves hkept
              rw [hmatching] at hkept
              exact absurd hdissolves hkept
            · exact hexcuses

theorem manned_matchRequest {id zone mtype ctype : Nat} {closed : Bool} (hmanned : c.Manned) :
    (c.matchRequest profiles id zone mtype ctype closed).Manned := by
  apply hmanned.alike (alike_matchRequest id zone mtype ctype closed)
  rcases matchRequest_cases profiles c id zone mtype ctype closed with
    hsame | ⟨info, -, ⟨hadded, hnext⟩ | ⟨hadded, hnext⟩⟩
  · rw [hsame]
    exact same_of_mem (List.Subset.refl _)
  · rw [hnext]
    exact (MatchManager.narrows_addTeam hadded).pairs
  · obtain ⟨found, before, after, -, -, -, hmatching⟩ := MatchManager.addTeam_accepted hadded
    rw [hnext]
    dsimp only
    rw [hmatching]
    exact fun mp hmp => ⟨mp, hmp, MatchedPair.Same.refl mp⟩

/-- A pair is formed with the players that its teams have, and no status changes
that. -/
theorem manned_updatePools (hmanned : c.Manned) (pools : List Pool) :
    (c.updatePools pools).1.Manned := by
  revert hmanned
  refine Checker.updatePools_induct (P := fun c _ rest => c.Manned → rest.1.Manned)
    ?_ ?_ ?_ ?_ c pools
  · exact fun c hmanned => hmanned
  · intro c pool pools _ hmanned
    exact hmanned.alike (TeamManager.alike_setStatuses _ 2) (same_of_mem (List.Subset.refl _))
  · intro c pool pools rest _ hrest hmanned
    apply hrest
    have hpushed : (c.pushTeamPairs pool.teamMatch.doMatch.res).Manned :=
      hmanned.alike (TeamManager.alike_setStatuses _ 2) (same_of_mem (List.Subset.refl _))
    intro mp hmp
    -- a new pair takes its players from the teams as they are now
    rcases mem_formPairs hmp with hold | ⟨-, -, -, hformed⟩
    · exact hpushed mp hold
    · intro pid hpid
      exact .inl (hformed ▸ hpid)
  · exact fun c pool pools rest hrest hmanned => hrest hmanned

theorem manned_update (hmanned : c.Manned) : c.update.Manned := by
  have hmatched : c.matchedPools.Manned := manned_updatePools (c := c.ticked) hmanned _
  rcases Checker.update_cases c with heq | heq
  · rw [heq]
    exact hmatched
  · rw [heq]
    exact hmatched.alike (TeamManager.Alike.refl _) MatchManager.narrows_checkTimeout.pairs

/-! ## Runs -/

theorem manned_step {event : Event} (hmanned : c.Manned) (howned : ∃ owner, Owned c owner)
    (hstays : Stays c event) (hstep : step profiles c event = some next) : next.Manned := by
  obtain ⟨owner, howned⟩ := howned
  cases event with
  | createTeam pid score teamType =>
      cases hstep
      exact manned_createTeam hmanned howned
  | removeTeam id =>
      cases hstep
      exact manned_removeTeam hmanned id
  | joinTeam id pid score =>
      cases hstep
      exact manned_joinTeam hmanned id pid score
  | leaveTeam id pid =>
      cases hstep
      exact manned_leaveTeam hmanned hstays
  | kickMember id kickedPid =>
      cases hstep
      exact manned_kickMember hmanned hstays
  | teamMemberReady id pid ready =>
      cases hstep
      apply hmanned.alike (alike_teamMemberReady id pid ready)
      unfold Checker.teamMemberReady
      split
      all_goals exact same_of_mem (List.Subset.refl _)
  | matchRequest id zone mtype ctype closed =>
      cases hstep
      exact manned_matchRequest hmanned
  | matchCancel id poolid =>
      cases hstep
      apply hmanned.alike (alike_matchCancel id poolid)
      exact (Checker.narrows_matchCancel id poolid).pairs
  | matchConfirm pairId pid ok server now =>
      cases hstep
      apply hmanned.alike
      · rw [Checker.teams_comfirmMatchPair]
        exact TeamManager.Alike.refl _
      · exact (Checker.narrows_comfirmMatchPair profiles pairId pid ok server now).pairs
  | removePlayer pid =>
      cases hstep
      exact manned_removePlayer hmanned hstays
  | update =>
      cases hstep
      exact manned_update hmanned

/-- In a run whose departures meet the condition everyone is there or has
confirmed, in every state. -/
theorem manned_of_run {zones : List Nat} {random : Nat → Nat → Nat} {maxTeamid : Option Nat}
    {events : List Event}
    (hrun : Run (step profiles) Stays (initial profiles zones random maxTeamid) events c) :
    c.Manned := by
  have hinv : (∃ owner, Owned c owner) ∧ c.Manned := by
    induction hrun with
    | refl =>
        refine ⟨⟨_, owned_initial _ _ _ _⟩, ?_⟩
        intro mp hmp
        cases hmp
    | snoc _ hstays hstep ih =>
        obtain ⟨howned, hmanned⟩ := ih
        exact ⟨owned_step howned hstep, manned_step hmanned howned hstays hstep⟩
  exact hinv.2

end Match
end ArmyRs
