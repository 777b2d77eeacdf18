import ArmyRs.Match.PoolRollback
import ArmyRs.Match.TeamMembership

/-!
# The scores of the teams

The score of a team is computed when a member is added and is kept in the
record of the team.  Whoever leaves, is kicked or goes offline is taken out of
the array of the members, and the score stays.

A request hands the kept score over.  It is the average of the members in a run
in which nobody goes whose departure changes the average
(`requestScores_of_run`).
-/

namespace ArmyRs
namespace Match

open Foundation

/-- The average score of some members, if there are any. -/
def average (members : List Member) : Option Int :=
  if members.isEmpty then none else some (TeamManager.calcScore members)

/-- The members without a player. -/
def without (members : List Member) (pid : PlayerId) : List Member :=
  members.filter fun mi => mi.pid ≠ pid

/-- The hash that `match_request` hands to `MatchManager.add_team`, when it comes
to it.  `chId` is the chat of the team. -/
def Checker.matchReq (profiles : List PoolProfile) (c : Checker) (id zone mtype ctype chId : Nat)
    (closed : Bool) : Option Request :=
  match c.teams.teamInfos id with
  | none => none
  | some info =>
      if c.teams.checkAddready info && !closed then
        some
          { teamId := id
            zone := zone
            teamScore := info.teamScore
            poolId := getSingleMatchPoolId profiles mtype ctype info.teamScore
            membersInfo := info.membersInfo
            chId := chId }
      else none

/-- The request goes to the pool of its score. -/
theorem requestPool_eq (profiles : List PoolProfile) {c : Checker} {id : Nat} {info : TeamInfo}
    (hinfo : c.teams.teamInfos id = some info) (zone mtype ctype chId : Nat) (closed : Bool) :
    c.requestPool profiles info mtype ctype closed =
      (c.matchReq profiles id zone mtype ctype chId closed).bind Request.poolId := by
  unfold Checker.requestPool Checker.matchReq
  rw [hinfo]
  dsimp only
  split
  · rfl
  · rfl

/-- Every request has the average of the members that the team has. -/
def Checker.RequestScores (profiles : List PoolProfile) (c : Checker) : Prop :=
  ∀ id zone mtype ctype chId closed req,
    c.matchReq profiles id zone mtype ctype chId closed = some req →
      average (c.teams.arrays req.membersInfo) = some req.teamScore

/-! ## The kept scores -/

/-- The creator is among the members, and the score is theirs. -/
def Scored (members : List Member) (info : TeamInfo) : Prop :=
  info.creator ∈ members.map Member.pid ∧ TeamManager.calcScore members = info.teamScore

/-- Every team keeps the score of its members. -/
def TeamManager.Scored (t : TeamManager) : Prop :=
  ∀ id info, t.teamInfos id = some info → Match.Scored (t.arrays info.membersInfo) info

theorem average_of_scored {members : List Member} {info : TeamInfo} (h : Scored members info) :
    average members = some info.teamScore := by
  have hne : members ≠ [] := by
    rintro rfl
    cases h.1
  simp [average, hne, h.2]

theorem Checker.requestScores_of_scored {c : Checker} (h : c.teams.Scored)
    (profiles : List PoolProfile) : c.RequestScores profiles := by
  intro id zone mtype ctype chId closed req hreq
  unfold Checker.matchReq at hreq
  split at hreq
  · cases hreq
  · next info hinfo =>
    split at hreq
    · cases hreq
      exact average_of_scored (h id info hinfo)
    · cases hreq

/-- What changes neither the players nor their scores keeps the score. -/
theorem scored_map {members : List Member} {info : TeamInfo} {change : Member → Member}
    (hpid : ∀ mi, (change mi).pid = mi.pid) (hscore : ∀ mi, (change mi).score = mi.score) :
    Scored (members.map change) info ↔ Scored members info := by
  have hscores : (members.map change).map Member.score = members.map Member.score := by
    rw [List.map_map]
    exact List.map_congr_left fun mi _ => hscore mi
  unfold Scored TeamManager.calcScore
  rw [TeamManager.pids_map hpid, hscores, List.length_map]

theorem average_map {members : List Member} {change : Member → Member}
    (hscore : ∀ mi, (change mi).score = mi.score) :
    average (members.map change) = average members := by
  have hscores : (members.map change).map Member.score = members.map Member.score := by
    rw [List.map_map]
    exact List.map_congr_left fun mi _ => hscore mi
  simp [average, TeamManager.calcScore, hscores]

theorem without_map {members : List Member} {change : Member → Member} (pid : PlayerId)
    (hpid : ∀ mi, (change mi).pid = mi.pid) :
    without (members.map change) pid = (without members pid).map change := by
  simp [without, List.filter_map, Function.comp_def, hpid]

namespace TeamManager

variable {t : TeamManager} {id : Nat} {info : TeamInfo} {pid : PlayerId}

theorem scored_setInfo {old : TeamInfo} (h : t.Scored) (hold : t.teamInfos id = some old)
    (hcreator : info.creator = old.creator) (href : info.membersInfo = old.membersInfo)
    (hscore : info.teamScore = old.teamScore) : (t.setInfo id info).Scored := by
  intro other otherInfo hother
  rw [teamInfos_setInfo] at hother
  by_cases heq : other = id
  · subst heq
    rw [Function.update_self, Option.some_inj] at hother
    subst hother
    have := h other old hold
    simpa [Match.Scored, hcreator, href, hscore] using this
  · rw [Function.update_of_ne heq] at hother
    exact h other otherInfo hother

/-- Changing the members of an array in their readiness. -/
theorem scored_setArray {ref : Ref} {change : Member → Member} (h : t.Scored)
    (hpid : ∀ mi, (change mi).pid = mi.pid) (hscore : ∀ mi, (change mi).score = mi.score) :
    (t.setArray ref ((t.arrays ref).map change)).Scored := by
  intro other otherInfo hother
  rw [teamInfos_setArray] at hother
  rw [arrays_setArray]
  by_cases heq : otherInfo.membersInfo = ref
  · subst heq
    rw [Function.update_self, scored_map hpid hscore]
    exact h other otherInfo hother
  · rw [Function.update_of_ne heq]
    exact h other otherInfo hother

theorem scored_setStatus (h : t.Scored) (id status : Nat) : (t.setStatus id status).Scored := by
  unfold setStatus
  cases hinfo : t.teamInfos id with
  | none => exact h
  | some info =>
      have hset : (t.setInfo id { info with status := status }).Scored :=
        scored_setInfo h hinfo rfl rfl rfl
      dsimp only
      split
      · apply scored_setArray hset
        · intro mi
          split <;> rfl
        · intro mi
          split <;> rfl
      · exact hset

theorem scored_setStatuses (h : t.Scored) (items : List Item) (status : Nat) :
    (items.foldl (fun t item => t.setStatus item.teamId status) t).Scored := by
  induction items generalizing t with
  | nil => exact h
  | cons item items ih => exact ih (scored_setStatus h item.teamId status)

theorem scored_setReady (h : t.Scored) (info : TeamInfo) (pid : PlayerId) (ready : Bool) :
    (t.setReady info pid ready).Scored := by
  apply scored_setArray h
  · intro mi
    split <;> rfl
  · intro mi
    split <;> rfl

theorem scored_deleteTeam (h : t.Scored) (id : Nat) (info : TeamInfo) :
    (t.deleteTeam id info).Scored := by
  intro other otherInfo hother
  change Function.update t.teamInfos id none other = some otherInfo at hother
  by_cases heq : other = id
  · simp [heq] at hother
  · rw [Function.update_of_ne heq] at hother
    exact h other otherInfo hother

/-- A new team has one member, the creator. -/
theorem scored_newTeam (h : t.Scored)
    (hrefs : ∀ id info, t.teamInfos id = some info → info.membersInfo < t.nextRef)
    (pid : PlayerId) (score teamType : Int) : (t.newTeam pid score teamType).Scored := by
  intro other otherInfo hother
  change Function.update t.teamInfos t.genTeamId _ other = some otherInfo at hother
  show Match.Scored (Function.update t.arrays t.nextRef _ otherInfo.membersInfo) otherInfo
  by_cases heq : other = t.genTeamId
  · subst heq
    rw [Function.update_self, Option.some_inj] at hother
    subst hother
    rw [Function.update_self]
    exact ⟨List.mem_singleton_self pid, rfl⟩
  · rw [Function.update_of_ne heq] at hother
    rw [Function.update_of_ne (hrefs other otherInfo hother).ne]
    exact h other otherInfo hother

/-- Adding a member computes the score anew. -/
theorem scored_addMember (h : t.Scored) (hunshared : t.Unshared)
    (hinfo : t.teamInfos id = some info) (pid : PlayerId) (score : Int) :
    (t.addMember id info pid score).Scored := by
  unfold addMember
  split
  · exact h
  · intro other otherInfo hother
    dsimp only at hother ⊢
    rw [teamInfos_setInfo, teamInfos_setArray] at hother
    rw [arrays_setInfo, arrays_setArray]
    by_cases heq : other = id
    · subst heq
      rw [Function.update_self, Option.some_inj] at hother
      subst hother
      rw [Function.update_self]
      refine ⟨?_, rfl⟩
      rw [List.map_append]
      exact List.mem_append_left _ (h other info hinfo).1
    · rw [Function.update_of_ne heq] at hother
      rw [Function.update_of_ne]
      · exact h other otherInfo hother
      · intro href
        exact heq (hunshared other otherInfo id info hother hinfo href)

/-- Removing a member leaves the other teams as they are. -/
theorem scored_removeMember_other (h : t.Scored) (hunshared : t.Unshared)
    (hinfo : t.teamInfos id = some info) {other : Nat} {otherInfo : TeamInfo}
    (hother : t.teamInfos other = some otherInfo) (hne : other ≠ id) :
    Match.Scored ((t.removeMember info pid).arrays otherInfo.membersInfo) otherInfo := by
  unfold removeMember
  rw [arrays_setArray, Function.update_of_ne]
  · exact h other otherInfo hother
  · intro href
    exact hne (hunshared other otherInfo id info hother hinfo href)

theorem scored_removeMember (h : t.Scored) (hunshared : t.Unshared)
    (hinfo : t.teamInfos id = some info) (hcreator : info.creator ≠ pid)
    (haverage : average (without (t.arrays info.membersInfo) pid) =
      average (t.arrays info.membersInfo)) : (t.removeMember info pid).Scored := by
  intro other otherInfo hother
  by_cases heq : other = id
  · subst heq
    rw [show (t.removeMember info pid).teamInfos other = some info from hinfo,
      Option.some_inj] at hother
    subst hother
    have hscored := h other info hinfo
    rw [average_of_scored hscored] at haverage
    unfold average at haverage
    split at haverage
    · cases haverage
    · rw [Option.some_inj] at haverage
      unfold removeMember
      rw [arrays_setArray, Function.update_self]
      refine ⟨?_, haverage⟩
      obtain ⟨mi, hmi, hpid⟩ := List.mem_map.mp hscored.1
      rw [← hpid]
      refine List.mem_map_of_mem (List.mem_filter.mpr ⟨hmi, ?_⟩)
      simpa [hpid] using hcreator
  · exact scored_removeMember_other h hunshared hinfo hother heq

/-- The creator goes, and the team with him. -/
theorem scored_removeCreator (h : t.Scored) (hunshared : t.Unshared)
    (hinfo : t.teamInfos id = some info) (pid : PlayerId) :
    ((t.removeMember info pid).deleteTeam id info).Scored := by
  intro other otherInfo hother
  change Function.update t.teamInfos id none other = some otherInfo at hother
  by_cases heq : other = id
  · simp [heq] at hother
  · rw [Function.update_of_ne heq] at hother
    exact scored_removeMember_other h hunshared hinfo hother heq

end TeamManager

/-! ## Runs -/

/-- The departure of a member leaves the average as it is. -/
def Checker.KeepsAverage (c : Checker) (id : Nat) (pid : PlayerId) : Prop :=
  ∀ info ∈ c.teams.teamInfos id, info.creator ≠ pid →
    average (without (c.teams.arrays info.membersInfo) pid) =
      average (c.teams.arrays info.membersInfo)

/-- The condition: nobody goes whose departure changes the average of a team that
stays. -/
def KeepsScores (c : Checker) : Event → Prop
  | .leaveTeam id pid => c.KeepsAverage id pid
  | .kickMember id kickedPid => c.KeepsAverage id kickedPid
  | .removePlayer pid => ∀ id ∈ c.teams.playerTeamid pid, c.KeepsAverage id pid
  | _ => True

instance (c : Checker) (id : Nat) (pid : PlayerId) : Decidable (c.KeepsAverage id pid) :=
  inferInstanceAs (Decidable (∀ info ∈ c.teams.teamInfos id, info.creator ≠ pid → _ = _))

instance instDecidableKeepsScores (c : Checker) (event : Event) :
    Decidable (KeepsScores c event) :=
  match event with
  | .leaveTeam id pid => inferInstanceAs (Decidable (c.KeepsAverage id pid))
  | .kickMember id kickedPid => inferInstanceAs (Decidable (c.KeepsAverage id kickedPid))
  | .removePlayer pid =>
      inferInstanceAs (Decidable (∀ id ∈ c.teams.playerTeamid pid, c.KeepsAverage id pid))
  | .createTeam .. | .removeTeam .. | .joinTeam .. | .teamMemberReady .. | .matchRequest ..
  | .matchCancel .. | .matchConfirm .. | .update => inferInstanceAs (Decidable True)

variable {profiles : List PoolProfile} {c next : Checker}

theorem scored_doRemoveTeam (h : c.teams.Scored) {id : Nat}
    (hremoved : c.doRemoveTeam id = some next) : next.teams.Scored := by
  obtain ⟨info, -, hteams⟩ := teams_doRemoveTeam hremoved
  rw [hteams]
  exact TeamManager.scored_deleteTeam h id info

theorem scored_removeTeam (h : c.teams.Scored) (id : Nat) : (c.removeTeam id).teams.Scored := by
  unfold Checker.removeTeam
  cases hremoved : c.doRemoveTeam id with
  | none => exact h
  | some next => exact scored_doRemoveTeam h hremoved

theorem scored_updatePools (pools : List Pool) (h : c.teams.Scored) :
    (c.updatePools pools).1.teams.Scored := by
  revert h
  refine Checker.updatePools_induct (P := fun c _ rest => c.teams.Scored → rest.1.teams.Scored)
    ?_ ?_ ?_ ?_ c pools
  · exact fun c h => h
  · exact fun c pool _ _ h => TeamManager.scored_setStatuses h _ 2
  · exact fun c pool _ rest _ hrest h => hrest (TeamManager.scored_setStatuses h _ 2)
  · exact fun c pool _ rest hrest h => hrest h

theorem scored_update (h : c.teams.Scored) : c.update.teams.Scored := by
  have hpools := @scored_updatePools c.ticked c.matching.pools h
  rcases c.update_cases with heq | heq
  · rw [heq]
    exact hpools
  · rw [heq]
    exact hpools

theorem scored_leaveTeam (h : c.teams.Scored) (hunshared : c.teams.Unshared) {id : Nat}
    {pid : PlayerId} (hkeeps : c.KeepsAverage id pid) : (c.leaveTeam id pid).teams.Scored := by
  unfold Checker.leaveTeam
  cases hinfo : c.teams.teamInfos id with
  | none => exact h
  | some info =>
      dsimp only
      split
      · generalize hteams : (c.teams.deletePlayerTeamids [pid]).removeMember info pid = left
        have hinfoLeft : left.teamInfos id = some info := by
          rw [← hteams]
          exact hinfo
        rw [@teams_removeTeam { c with teams := left } id info hinfoLeft, ← hteams]
        exact @TeamManager.scored_removeCreator (c.teams.deletePlayerTeamids [pid]) id info h
          hunshared hinfo pid
      · next hcreator =>
        exact @TeamManager.scored_removeMember (c.teams.deletePlayerTeamids [pid]) id info pid h
          hunshared hinfo hcreator (hkeeps info hinfo hcreator)

theorem scored_kickMember (h : c.teams.Scored) (hunshared : c.teams.Unshared) {id : Nat}
    {pid : PlayerId} (hkeeps : c.KeepsAverage id pid) : (c.kickMember id pid).teams.Scored := by
  unfold Checker.kickMember
  cases hinfo : c.teams.teamInfos id with
  | none => exact h
  | some info =>
      dsimp only
      split
      · exact h
      · next hcreator =>
        exact TeamManager.scored_removeMember h hunshared hinfo hcreator
          (hkeeps info hinfo hcreator)

theorem keepsAverage_setStatus {id : Nat} {pid : PlayerId} (hkeeps : c.KeepsAverage id pid) :
    ({ c with teams := c.teams.setStatus id 0 } : Checker).KeepsAverage id pid := by
  intro info hinfo hcreator
  dsimp only at hinfo ⊢
  rw [Option.mem_def] at hinfo
  unfold TeamManager.setStatus at hinfo ⊢
  cases hold : c.teams.teamInfos id with
  | none => simp [hold] at hinfo
  | some old =>
      rw [hold] at hinfo
      simp only [if_pos] at hinfo ⊢
      rw [TeamManager.teamInfos_setArray, TeamManager.teamInfos_setInfo, Function.update_self,
        Option.some_inj] at hinfo
      subst hinfo
      rw [TeamManager.arrays_setArray, Function.update_self, TeamManager.arrays_setInfo,
        without_map, average_map, average_map]
      · exact hkeeps old hold hcreator
      all_goals
        intro mi
        split <;> rfl

theorem scored_removePlayer (h : c.teams.Scored) (hunshared : c.teams.Unshared) {pid : PlayerId}
    (hkeeps : ∀ id ∈ c.teams.playerTeamid pid, c.KeepsAverage id pid) :
    (c.removePlayer pid).teams.Scored := by
  unfold Checker.removePlayer
  cases hid : c.teams.playerTeamid pid with
  | none => exact h
  | some id =>
      dsimp only
      cases hinfo : c.teams.teamInfos id with
      | none => exact h
      | some info =>
          dsimp only
          generalize hleft : ({ c with teams := c.teams.setStatus id 0 } :
            Checker).dismissPairOnPlayeroffline pid = left
          have hteams : left.teams = c.teams.setStatus id 0 := by
            subst hleft
            exact Checker.teams_dismissPairOnPlayeroffline pid
          have hscored : left.teams.Scored := by
            rw [hteams]
            exact TeamManager.scored_setStatus h id 0
          split
          · exact scored_removeTeam hscored id
          · next hcreator =>
            -- the record that was read before, with the new status in the table
            have hnow : left.teams.teamInfos id = some { info with status := 0 } := by
              rw [hteams]
              unfold TeamManager.setStatus
              rw [hinfo]
              exact Function.update_self id _ _
            have hmember : left.teams.removeMember info pid =
                left.teams.removeMember { info with status := 0 } pid := rfl
            have hunsharedLeft : left.teams.Unshared := by
              rw [hteams]
              exact hunshared.of_alike (TeamManager.alike_setStatus id 0)
            have hkept := keepsAverage_setStatus (hkeeps id hid) { info with status := 0 }
              (hteams ▸ hnow) hcreator
            dsimp only at hkept
            rw [← hteams] at hkept
            show (left.teams.removeMember info pid).Scored
            rw [hmember]
            exact TeamManager.scored_removeMember hscored hunsharedLeft hnow hcreator hkept

theorem scored_createTeam (h : c.teams.Scored) (howned : ∃ owner, Owned c owner) (pid : PlayerId)
    (score teamType : Int) : (c.createTeam pid score teamType).teams.Scored := by
  rcases createTeam_cases c pid score teamType with hsame | ⟨removed, -, hremoved, hnext⟩
  · rw [hsame]
    exact h
  · obtain ⟨owner, howned⟩ := howned
    have hrefs : ∀ id info, removed.teams.teamInfos id = some info →
        info.membersInfo < removed.teams.nextRef :=
      fun id info hinfo => ((howned.shrink (shrinks_of_createTeam hremoved)).infos id info hinfo).1
    have hscored : removed.teams.Scored := by
      rcases hremoved with ⟨-, rfl⟩ | ⟨id, -, hremoved⟩
      · exact h
      · exact scored_doRemoveTeam h hremoved
    rw [hnext]
    exact TeamManager.scored_newTeam hscored hrefs pid score teamType

theorem scored_joinTeam (h : c.teams.Scored) (hunshared : c.teams.Unshared) (id : Nat)
    (pid : PlayerId) (score : Int) : (c.joinTeam id pid score).teams.Scored := by
  rcases joinTeam_cases c id pid score with hsame | ⟨info, hinfo, -, hnext⟩
  · rw [hsame]
    exact h
  · rw [hnext]
    exact TeamManager.scored_addMember h hunshared hinfo pid score

theorem scored_teamMemberReady (h : c.teams.Scored) (id : Nat) (pid : PlayerId) (ready : Bool) :
    (c.teamMemberReady id pid ready).teams.Scored := by
  unfold Checker.teamMemberReady
  split
  · exact h
  · exact TeamManager.scored_setReady h _ pid ready

theorem scored_matchCancel (h : c.teams.Scored) (id poolid : Nat) :
    (c.matchCancel id poolid).teams.Scored := by
  unfold Checker.matchCancel
  split
  · exact h
  · exact TeamManager.scored_setStatus h id 0

theorem scored_matchRequest (h : c.teams.Scored) (id zone mtype ctype : Nat) (closed : Bool) :
    (c.matchRequest profiles id zone mtype ctype closed).teams.Scored := by
  rcases matchRequest_cases profiles c id zone mtype ctype closed with
    hsame | ⟨info, -, ⟨-, hnext⟩ | ⟨-, hnext⟩⟩
  · rw [hsame]
    exact h
  · rw [hnext]
    exact h
  · rw [hnext]
    exact TeamManager.scored_setStatus h id 1

/-- Only a departure that changes the average spoils a kept score. -/
theorem scored_step {event : Event} (h : c.teams.Scored) (howned : ∃ owner, Owned c owner)
    (hkeeps : KeepsScores c event) (hstep : step profiles c event = some next) :
    next.teams.Scored := by
  have hunshared : c.teams.Unshared := by
    obtain ⟨owner, howned⟩ := howned
    exact howned.unshared
  cases event with
  | createTeam pid score teamType =>
      cases hstep
      exact scored_createTeam h howned pid score teamType
  | removeTeam id =>
      cases hstep
      exact scored_removeTeam h id
  | joinTeam id pid score =>
      cases hstep
      exact scored_joinTeam h hunshared id pid score
  | leaveTeam id pid =>
      cases hstep
      exact scored_leaveTeam h hunshared hkeeps
  | kickMember id kickedPid =>
      cases hstep
      exact scored_kickMember h hunshared hkeeps
  | teamMemberReady id pid ready =>
      cases hstep
      exact scored_teamMemberReady h id pid ready
  | matchRequest id zone mtype ctype closed =>
      cases hstep
      exact scored_matchRequest h id zone mtype ctype closed
  | matchCancel id poolid =>
      cases hstep
      exact scored_matchCancel h id poolid
  | matchConfirm pairId pid ok server now =>
      cases hstep
      rw [Checker.teams_comfirmMatchPair]
      exact h
  | removePlayer pid =>
      cases hstep
      exact scored_removePlayer h hunshared hkeeps
  | update =>
      cases hstep
      exact scored_update h

/-- In a run in which every departure keeps the average, every request has the
average of the members. -/
theorem requestScores_of_run {zones : List Nat} {random : Nat → Nat → Nat}
    {maxTeamid : Option Nat} {events : List Event}
    (hrun : Run (step profiles) KeepsScores (initial profiles zones random maxTeamid) events c) :
    c.RequestScores profiles := by
  have hinv : (∃ owner, Owned c owner) ∧ c.teams.Scored := by
    induction hrun with
    | refl => exact ⟨⟨_, owned_initial _ _ _ _⟩, fun _ _ h => nomatch h⟩
    | snoc _ hkeeps hstep ih =>
        exact ⟨owned_step ih.1 hstep, scored_step ih.2 ih.1 hkeeps hstep⟩
  exact Checker.requestScores_of_scored hinv.2 profiles

/-- A third player joins and leaves, and a request is made. -/
def equalLeaves : List Event :=
  [.createTeam 7 1000 1, .joinTeam 1 9 1000, .teamMemberReady 1 9 true, .leaveTeam 1 9,
    .joinTeam 1 8 1200, .teamMemberReady 1 8 true, .matchRequest 1 1 1 1 false]

theorem requestScores_equalLeaves :
    ((exec (step singlesAndDoubles) KeepsScores emptyChecker equalLeaves).getD
      emptyChecker).RequestScores singlesAndDoubles := by
  have hrun : Run (step singlesAndDoubles) KeepsScores emptyChecker equalLeaves
      ((exec (step singlesAndDoubles) KeepsScores emptyChecker equalLeaves).getD emptyChecker) :=
    run_exec_getD emptyChecker (by decide +kernel)
  exact requestScores_of_run hrun

/-- A player with a higher score leaves. -/
def strongerLeaves : List Event :=
  [.createTeam 7 1000 1, .joinTeam 1 9 3000, .leaveTeam 1 9]

/-- Without the condition a request carries the score of a player who is gone. -/
theorem not_requestScores_strongerLeaves :
    ¬ ∀ events c, Run (step singlesAndDoubles) free emptyChecker events c →
      c.RequestScores singlesAndDoubles := by
  intro h
  generalize hlast : (exec (step singlesAndDoubles) free emptyChecker strongerLeaves).getD
    emptyChecker = last
  have hrun : Run (step singlesAndDoubles) free emptyChecker strongerLeaves last := by
    rw [← hlast]
    exact run_exec_getD emptyChecker (by decide +kernel)
  have hreq : last.matchReq singlesAndDoubles 1 1 1 0 0 false =
      some ⟨1, 1, 2000, some 0, 0, 0⟩ := by
    subst hlast
    decide +kernel
  have hscore : average (last.teams.arrays 0) = some 1000 := by
    subst hlast
    decide +kernel
  have hrequested := h _ _ hrun 1 1 1 0 0 false _ hreq
  rw [hscore] at hrequested
  cases hrequested

end Match
end ArmyRs
