import ArmyRs.Foundation.Memberships
import ArmyRs.Match.ArrayOwners

/-!
# Who is in which team

`player_teamid` and `team_map` repeat what the teams themselves say: who is a
member of a team, and who has created it.  A `TeamManager` is read as a
registry of clubs, and its commands as the operations of a registry
(`registry_newTeam`, `registry_deleteTeam`, `registry_addMember`,
`registry_removeMember`).

The tables stay right in a run whose commands meet `Regular` (`agrees_of_run`).
A new id must be free: ids start again after a hundred million.  A join must
find a place, since the entry in `player_teamid` is made in any case, and who
leaves or is kicked must be in that team or in none, since the entry goes in any
case.
-/

namespace ArmyRs
namespace Match

open Foundation

/-! ## Statuses -/

/-- At most statuses, scores and readiness have changed. -/
structure TeamManager.Alike (t next : TeamManager) : Prop where
  pids : ∀ ref, next.arrays.pids ref = t.arrays.pids ref
  infos : ∀ id info, next.teamInfos id = some info → ∃ old, t.teamInfos id = some old ∧
    old.creator = info.creator ∧ old.membersInfo = info.membersInfo
  kept : ∀ id, next.teamInfos id = none → t.teamInfos id = none
  playerTeamid : next.playerTeamid = t.playerTeamid
  teamMap : next.teamMap = t.teamMap

namespace TeamManager

variable {t : TeamManager}

theorem Alike.refl (t : TeamManager) : t.Alike t :=
  ⟨fun _ => rfl, fun _ info h => ⟨info, h, rfl, rfl⟩, fun _ h => h, rfl, rfl⟩

theorem Alike.trans {middle last : TeamManager} (hfirst : t.Alike middle)
    (hsecond : middle.Alike last) : t.Alike last := by
  constructor
  · exact fun ref => (hsecond.pids ref).trans (hfirst.pids ref)
  · intro id info hinfo
    obtain ⟨between, hbetween, hcreator, href⟩ := hsecond.infos id info hinfo
    obtain ⟨old, hold, hcreatorOld, hrefOld⟩ := hfirst.infos id between hbetween
    exact ⟨old, hold, hcreatorOld.trans hcreator, hrefOld.trans href⟩
  · exact fun id hnone => hfirst.kept id (hsecond.kept id hnone)
  · exact hsecond.playerTeamid.trans hfirst.playerTeamid
  · exact hsecond.teamMap.trans hfirst.teamMap

theorem alike_setInfo {id : Nat} {old info : TeamInfo} (hold : t.teamInfos id = some old)
    (hcreator : old.creator = info.creator) (href : old.membersInfo = info.membersInfo) :
    t.Alike (t.setInfo id info) := by
  refine ⟨fun _ => rfl, ?_, ?_, rfl, rfl⟩
  · intro other otherInfo hother
    rw [teamInfos_setInfo] at hother
    by_cases heq : other = id
    · subst heq
      rw [Function.update_self, Option.some_inj] at hother
      subst hother
      exact ⟨old, hold, hcreator, href⟩
    · rw [Function.update_of_ne heq] at hother
      exact ⟨otherInfo, hother, rfl, rfl⟩
  · intro other hother
    rw [teamInfos_setInfo] at hother
    by_cases heq : other = id
    · subst heq
      rw [Function.update_self] at hother
      cases hother
    · rwa [Function.update_of_ne heq] at hother

/-- Writing an array that has the same players. -/
theorem alike_setArray {ref : Ref} {members : List Member}
    (hmembers : members.map Member.pid = t.arrays.pids ref) : t.Alike (t.setArray ref members) := by
  refine ⟨fun other => ?_, fun _ info h => ⟨info, h, rfl, rfl⟩, fun _ h => h, rfl, rfl⟩
  unfold Arrays.pids
  rw [arrays_setArray]
  by_cases heq : other = ref
  · subst heq
    rw [Function.update_self]
    exact hmembers
  · rw [Function.update_of_ne heq]

theorem alike_setStatus (id status : Nat) : t.Alike (t.setStatus id status) := by
  unfold setStatus
  cases hinfo : t.teamInfos id with
  | none => exact Alike.refl t
  | some info =>
      have hset : t.Alike (t.setInfo id { info with status := status }) :=
        alike_setInfo hinfo rfl rfl
      dsimp only
      split
      · refine hset.trans (alike_setArray ?_)
        apply pids_map
        intro mi
        split <;> rfl
      · exact hset

theorem alike_setReady (info : TeamInfo) (pid : PlayerId) (ready : Bool) :
    t.Alike (t.setReady info pid ready) := by
  refine alike_setArray ?_
  apply pids_map
  intro mi
  split <;> rfl

theorem alike_setStatuses (items : List Item) (status : Nat) :
    t.Alike (items.foldl (fun t item => t.setStatus item.teamId status) t) := by
  induction items generalizing t with
  | nil => exact Alike.refl t
  | cons item items ih => exact (alike_setStatus item.teamId status).trans ih

end TeamManager

namespace Checker

variable {c : Checker}

theorem alike_updatePools (pools : List Pool) :
    c.teams.Alike (c.updatePools pools).1.teams := by
  refine updatePools_induct (P := fun c _ rest => c.teams.Alike rest.1.teams) ?_ ?_ ?_ ?_ c pools
  · exact fun c => TeamManager.Alike.refl c.teams
  · exact fun c pool _ _ => TeamManager.alike_setStatuses _ 2
  · exact fun c pool _ rest _ hrest => (TeamManager.alike_setStatuses _ 2).trans hrest
  · exact fun c pool _ rest hrest => hrest

theorem alike_update : c.teams.Alike c.update.teams := by
  have hpools := @alike_updatePools c.ticked c.matching.pools
  rcases update_cases c with heq | heq
  · rw [heq]
    exact hpools
  · rw [heq]
    exact hpools

theorem teams_checkMatchAllConfirmed (profiles : List PoolProfile) (mp : MatchedPair)
    (server : Bool) (now : Nat) :
    (c.checkMatchAllConfirmed profiles mp server now).teams = c.teams := by
  unfold checkMatchAllConfirmed startCombat
  split
  · dsimp only
    split
    · rfl
    · split <;> rfl
  · rfl

theorem teams_comfirmMatchPair (profiles : List PoolProfile) (pairId : Nat) (pid : PlayerId)
    (ok server : Bool) (now : Nat) :
    (c.comfirmMatchPair profiles pairId pid ok server now).teams = c.teams := by
  unfold comfirmMatchPair
  split
  · rfl
  · split
    · rw [teams_checkMatchAllConfirmed]
      unfold recordCompleted
      split <;> rfl
    · rfl

theorem teams_dismissPairOnPlayeroffline (pid : PlayerId) :
    (c.dismissPairOnPlayeroffline pid).teams = c.teams := by
  unfold dismissPairOnPlayeroffline
  split
  · split <;> rfl
  · split <;> rfl

end Checker

/-! ## The registry -/

/-- A team as a club. -/
def TeamInfo.club (arrays : Arrays) (info : TeamInfo) : Club PlayerId :=
  ⟨info.creator, arrays.pids info.membersInfo⟩

def TeamManager.registry (t : TeamManager) : Registry PlayerId Nat where
  clubs := fun id => (t.teamInfos id).map (TeamInfo.club t.arrays)
  memberOf := t.playerTeamid
  ownerOf := t.teamMap

/-- No two teams have the same array. -/
def TeamManager.Unshared (t : TeamManager) : Prop :=
  ∀ id info other otherInfo, t.teamInfos id = some info → t.teamInfos other = some otherInfo →
    info.membersInfo = otherInfo.membersInfo → id = other

theorem Owned.unshared {c : Checker} {owner : Ref → Nat} (howned : Owned c owner) :
    c.teams.Unshared := by
  intro id info other otherInfo hinfo hother heq
  rw [← (howned.infos id info hinfo).2, ← (howned.infos other otherInfo hother).2, heq]

namespace TeamManager

variable {t next : TeamManager} {id : Nat} {info : TeamInfo} {pid : PlayerId}

@[simp] theorem clubs_registry (t : TeamManager) (id : Nat) :
    t.registry.clubs id = (t.teamInfos id).map (TeamInfo.club t.arrays) := rfl

theorem clubs_of_info (hinfo : t.teamInfos id = some info) :
    t.registry.clubs id = some (info.club t.arrays) := by
  rw [clubs_registry, hinfo]
  rfl

theorem registry_of_alike (halike : t.Alike next) : next.registry = t.registry := by
  unfold registry
  rw [halike.playerTeamid, halike.teamMap]
  congr 1
  funext other
  cases hother : next.teamInfos other with
  | none => rw [halike.kept other hother]; rfl
  | some otherInfo =>
      obtain ⟨old, hold, hcreator, href⟩ := halike.infos other otherInfo hother
      rw [hold]
      show some (TeamInfo.club next.arrays otherInfo) = some (TeamInfo.club t.arrays old)
      unfold TeamInfo.club
      rw [← hcreator, ← href, halike.pids]

theorem Unshared.of_alike (hunshared : t.Unshared) (halike : t.Alike next) : next.Unshared := by
  intro id info other otherInfo hinfo hother heq
  obtain ⟨old, hold, -, href⟩ := halike.infos id info hinfo
  obtain ⟨oldOther, holdOther, -, hrefOther⟩ := halike.infos other otherInfo hother
  exact hunshared id old other oldOther hold holdOther ((href.trans heq).trans hrefOther.symm)

/-- Writing the array of a team changes its members. -/
theorem clubs_setArray (hunshared : t.Unshared) (hinfo : t.teamInfos id = some info)
    (members : List Member) :
    (t.setArray info.membersInfo members).registry.clubs =
      Function.update t.registry.clubs id (some ⟨info.creator, members.map Member.pid⟩) := by
  funext other
  rw [clubs_registry, teamInfos_setArray]
  by_cases heq : other = id
  · subst heq
    rw [Function.update_self, hinfo]
    show some (TeamInfo.club _ info) = _
    unfold TeamInfo.club Arrays.pids
    rw [arrays_setArray, Function.update_self]
  · rw [Function.update_of_ne heq, clubs_registry]
    cases hother : t.teamInfos other with
    | none => rfl
    | some otherInfo =>
        have hne : otherInfo.membersInfo ≠ info.membersInfo :=
          fun href => heq (hunshared other otherInfo id info hother hinfo href)
        show some (TeamInfo.club _ otherInfo) = some (TeamInfo.club _ otherInfo)
        unfold TeamInfo.club Arrays.pids
        rw [arrays_setArray, Function.update_of_ne hne]

theorem pids_removeMember (t : TeamManager) (info : TeamInfo) (pid : PlayerId) :
    (t.removeMember info pid).arrays.pids info.membersInfo =
      (t.arrays.pids info.membersInfo).filter fun other => other ≠ pid := by
  unfold removeMember Arrays.pids
  rw [arrays_setArray, Function.update_self, List.filter_map]
  rfl

/-- A removed member is expelled. -/
theorem registry_removeMember (hunshared : t.Unshared) (hinfo : t.teamInfos id = some info)
    (pid : PlayerId) :
    ((t.removeMember info pid).deletePlayerTeamids [pid]).registry =
      t.registry.expel id (info.club t.arrays) pid := by
  have hclubs := clubs_setArray hunshared hinfo
    ((t.arrays info.membersInfo).filter fun mi => mi.pid ≠ pid)
  have hpids : ((t.arrays info.membersInfo).filter fun mi => mi.pid ≠ pid).map Member.pid =
      (t.arrays.pids info.membersInfo).filter fun other => other ≠ pid := by
    rw [← pids_removeMember]
    unfold removeMember Arrays.pids
    rw [arrays_setArray, Function.update_self]
  rw [hpids] at hclubs
  unfold Registry.expel
  rw [← erase_singleton]
  show (Registry.mk _ _ _ : Registry PlayerId Nat) = Registry.mk _ _ _
  congr 1

/-- A removed team is dissolved. -/
theorem registry_deleteTeam (id : Nat) (info : TeamInfo) :
    (t.deleteTeam id info).registry = t.registry.dissolve id (info.club t.arrays) := by
  unfold deleteTeam registry Registry.dissolve deletePlayerTeamids
  dsimp only
  congr 1
  funext other
  by_cases heq : other = id
  · subst heq
    rw [Function.update_self, Function.update_self]
    rfl
  · rw [Function.update_of_ne heq, Function.update_of_ne heq]

/-- A new team is founded by its creator. -/
theorem registry_newTeam (hrefs : ∀ id info, t.teamInfos id = some info →
    info.membersInfo < t.nextRef) (pid : PlayerId) (score teamType : Int) :
    (t.newTeam pid score teamType).registry = t.registry.found t.genTeamId pid := by
  unfold newTeam registry Registry.found
  dsimp only
  congr 1
  funext other
  by_cases heq : other = t.genTeamId
  · subst heq
    rw [Function.update_self, Function.update_self]
    show some (TeamInfo.club _ _) = _
    unfold TeamInfo.club Arrays.pids
    dsimp only
    rw [Function.update_self]
    rfl
  · rw [Function.update_of_ne heq, Function.update_of_ne heq]
    cases hother : t.teamInfos other with
    | none => rfl
    | some otherInfo =>
        show some (TeamInfo.club _ otherInfo) = some (TeamInfo.club _ otherInfo)
        unfold TeamInfo.club Arrays.pids
        rw [Function.update_of_ne (hrefs other otherInfo hother).ne]

/-- A player who joins a team with a free place is enrolled. -/
theorem registry_addMember (hunshared : t.Unshared) (hinfo : t.teamInfos id = some info)
    (hfree : t.membercount info ≠ 5) (pid : PlayerId) (score : Int) :
    ({ t.addMember id info pid score with
      playerTeamid := Function.update (t.addMember id info pid score).playerTeamid pid
        (some id) } : TeamManager).registry = t.registry.enrol id (info.club t.arrays) pid := by
  unfold addMember
  rw [if_neg hfree]
  dsimp only
  generalize hmembers : t.arrays info.membersInfo ++
    [(⟨pid, score, pid == info.creator⟩ : Member)] = members
  have hpids : members.map Member.pid = t.arrays.pids info.membersInfo ++ [pid] := by
    rw [← hmembers, List.map_append]
    rfl
  have hclubs := clubs_setArray hunshared hinfo members
  rw [hpids] at hclubs
  -- the new score of the team is not in the registry
  have hscore : ((t.setArray info.membersInfo members).setInfo id
      { info with teamScore := calcScore members }).registry =
        (t.setArray info.membersInfo members).registry :=
    registry_of_alike (alike_setInfo hinfo rfl rfl)
  have hscoreClubs := congrArg Registry.clubs hscore
  rw [hclubs] at hscoreClubs
  show (Registry.mk _ _ _ : Registry PlayerId Nat) = Registry.mk _ _ _
  congr 1

end TeamManager

/-! ## The tables -/

/-- The three tables say the same. -/
structure TeamManager.Agrees (t : TeamManager) : Prop where
  player_teamid : ∀ pid id, t.playerTeamid pid = some id ↔
    ∃ info, t.teamInfos id = some info ∧ pid ∈ t.arrays.pids info.membersInfo
  one_team : ∀ pid id info other otherInfo, t.teamInfos id = some info →
    t.teamInfos other = some otherInfo → pid ∈ t.arrays.pids info.membersInfo →
      pid ∈ t.arrays.pids otherInfo.membersInfo → id = other
  team_map : ∀ id info, t.teamInfos id = some info → t.teamMap info.creator = some id

namespace TeamManager

variable {t : TeamManager} {id : Nat} {pid : PlayerId}

theorem member_registry : t.registry.Member id pid ↔
    ∃ info, t.teamInfos id = some info ∧ pid ∈ t.arrays.pids info.membersInfo := by
  unfold Registry.Member
  rw [clubs_registry]
  constructor
  · rintro ⟨club, hclub, hmem⟩
    obtain ⟨info, hinfo, rfl⟩ := Option.map_eq_some_iff.mp hclub
    exact ⟨info, hinfo, hmem⟩
  · rintro ⟨info, hinfo, hmem⟩
    exact ⟨info.club t.arrays, Option.map_eq_some_iff.mpr ⟨info, hinfo, rfl⟩, hmem⟩

theorem owner_registry : t.registry.Owner id pid ↔
    ∃ info, t.teamInfos id = some info ∧ info.creator = pid := by
  unfold Registry.Owner
  rw [clubs_registry]
  constructor
  · rintro ⟨club, hclub, howner⟩
    obtain ⟨info, hinfo, rfl⟩ := Option.map_eq_some_iff.mp hclub
    exact ⟨info, hinfo, howner⟩
  · rintro ⟨info, hinfo, howner⟩
    exact ⟨info.club t.arrays, Option.map_eq_some_iff.mpr ⟨info, hinfo, rfl⟩, howner⟩

theorem agrees_of_consistent (h : t.registry.Consistent) : t.Agrees := by
  constructor
  · intro pid id
    exact (h.memberOf pid id).trans member_registry
  · intro pid id info other otherInfo hinfo hother hmem hmemOther
    exact h.member_unique (member_registry.mpr ⟨info, hinfo, hmem⟩)
      (member_registry.mpr ⟨otherInfo, hother, hmemOther⟩)
  · intro id info hinfo
    exact (h.ownerOf info.creator id).mpr (owner_registry.mpr ⟨info, hinfo, rfl⟩)

end TeamManager

/-- The player cannot create a team, or the next id is free, or it is that of the
team which a new team replaces. -/
def Checker.FreshId (c : Checker) (pid : PlayerId) : Prop :=
  c.inForeignTeam pid = true ∨ c.teams.teamInfos c.teams.genTeamId = none ∨
    c.teams.teamMap pid = some c.teams.genTeamId

instance (c : Checker) (pid : PlayerId) : Decidable (c.FreshId pid) :=
  inferInstanceAs (Decidable (_ ∨ _))

/-- A new team gets an id of its own.  A join that is let through finds a place.
Who leaves or is kicked is in that team or in none. -/
def Regular (c : Checker) : Event → Prop
  | .createTeam pid _ _ => c.FreshId pid
  | .joinTeam id pid _ =>
      ∀ info ∈ c.teams.teamInfos id,
        c.teams.canJoin info pid = true → c.teams.membercount info ≠ 5
  | .leaveTeam id pid =>
      c.teams.teamInfos id = none ∨ c.teams.playerTeamid pid = none ∨
        c.teams.playerTeamid pid = some id
  | .kickMember id kickedPid =>
      ∀ info ∈ c.teams.teamInfos id, info.creator = kickedPid ∨
        c.teams.playerTeamid kickedPid = none ∨ c.teams.playerTeamid kickedPid = some id
  | _ => True

instance (c : Checker) : (event : Event) → Decidable (Regular c event)
  | .createTeam pid _ _ => inferInstanceAs (Decidable (c.FreshId pid))
  | .joinTeam id pid _ =>
      inferInstanceAs (Decidable (∀ info ∈ c.teams.teamInfos id,
        c.teams.canJoin info pid = true → c.teams.membercount info ≠ 5))
  | .leaveTeam id pid =>
      inferInstanceAs (Decidable (c.teams.teamInfos id = none ∨
        c.teams.playerTeamid pid = none ∨ c.teams.playerTeamid pid = some id))
  | .kickMember id kickedPid =>
      inferInstanceAs (Decidable (∀ info ∈ c.teams.teamInfos id, info.creator = kickedPid ∨
        c.teams.playerTeamid kickedPid = none ∨ c.teams.playerTeamid kickedPid = some id))
  | .removeTeam .. | .teamMemberReady .. | .matchRequest .. | .matchCancel ..
  | .matchConfirm .. | .removePlayer .. | .update => inferInstanceAs (Decidable True)

variable {profiles : List PoolProfile} {c next : Checker}

/-! ## Commands -/

/-- What `do_remove_team` does to the teams. -/
theorem teams_doRemoveTeam {id : Nat} (hremoved : c.doRemoveTeam id = some next) :
    ∃ info, c.teams.teamInfos id = some info ∧ next.teams = c.teams.deleteTeam id info := by
  unfold Checker.doRemoveTeam at hremoved
  cases hinfo : c.teams.teamInfos id with
  | none =>
      rw [hinfo] at hremoved
      cases hremoved
  | some info =>
      rw [hinfo] at hremoved
      cases hremoved
      exact ⟨info, rfl, rfl⟩

theorem teams_removeTeam {id : Nat} {info : TeamInfo} (hinfo : c.teams.teamInfos id = some info) :
    (c.removeTeam id).teams = c.teams.deleteTeam id info := by
  unfold Checker.removeTeam Checker.doRemoveTeam
  rw [hinfo]
  rfl

theorem consistent_deleteTeam {id : Nat} {info : TeamInfo} (h : c.teams.registry.Consistent)
    (hinfo : c.teams.teamInfos id = some info) :
    (c.teams.deleteTeam id info).registry.Consistent := by
  rw [TeamManager.registry_deleteTeam]
  exact h.dissolve (TeamManager.clubs_of_info hinfo)

theorem consistent_removeTeam (h : c.teams.registry.Consistent) (id : Nat) :
    (c.removeTeam id).teams.registry.Consistent := by
  cases hinfo : c.teams.teamInfos id with
  | none =>
      unfold Checker.removeTeam Checker.doRemoveTeam
      rw [hinfo]
      exact h
  | some info =>
      rw [teams_removeTeam hinfo]
      exact consistent_deleteTeam h hinfo

/-- The id of a new team is free once the old team is gone. -/
theorem fresh_of_createTeam {pid : PlayerId} {removed : Checker} (hfresh : c.FreshId pid)
    (hforeign : c.inForeignTeam pid = false)
    (hremoved : c.teams.teamMap pid = none ∧ removed = c ∨
      ∃ id, c.teams.teamMap pid = some id ∧ c.doRemoveTeam id = some removed) :
    removed.teams.teamInfos removed.teams.genTeamId = none := by
  have hfree : c.teams.teamInfos c.teams.genTeamId = none ∨
      c.teams.teamMap pid = some c.teams.genTeamId := by
    rcases hfresh with hother | hfree
    · rw [hforeign] at hother
      cases hother
    · exact hfree
  rcases hremoved with ⟨hmap, rfl⟩ | ⟨id, hmap, hremoved⟩
  · rcases hfree with hfree | hown
    · exact hfree
    · rw [hmap] at hown
      cases hown
  · obtain ⟨info, hinfo, hteams⟩ := teams_doRemoveTeam hremoved
    rw [hteams]
    show Function.update c.teams.teamInfos id none c.teams.genTeamId = none
    by_cases heq : c.teams.genTeamId = id
    · rw [heq, Function.update_self]
    · rw [Function.update_of_ne heq]
      rcases hfree with hfree | hown
      · exact hfree
      · rw [hmap] at hown
        exact absurd (Option.some_inj.mp hown).symm heq

/-- Who may create a team is in no team once the old one is gone. -/
theorem free_of_createTeam {pid : PlayerId} {removed : Checker}
    (h : c.teams.registry.Consistent) (hforeign : c.inForeignTeam pid = false)
    (hremoved : c.teams.teamMap pid = none ∧ removed = c ∨
      ∃ id, c.teams.teamMap pid = some id ∧ c.doRemoveTeam id = some removed) :
    removed.teams.registry.Consistent ∧ removed.teams.playerTeamid pid = none := by
  rcases hremoved with ⟨hmap, rfl⟩ | ⟨id, hmap, hremoved⟩
  · refine ⟨h, ?_⟩
    by_contra hsome
    obtain ⟨id, hid⟩ := Option.ne_none_iff_exists'.mp hsome
    obtain ⟨info, hinfo, -⟩ := TeamManager.member_registry.mp ((h.memberOf pid id).mp hid)
    unfold Checker.inForeignTeam at hforeign
    rw [hid, Option.bind_some, hinfo] at hforeign
    have hcreator : info.creator = pid := by simpa using hforeign
    have howns : removed.teams.teamMap pid = some id :=
      (h.ownerOf pid id).mpr (TeamManager.owner_registry.mpr ⟨info, hinfo, hcreator⟩)
    rw [hmap] at howns
    cases howns
  · obtain ⟨info, hinfo, hteams⟩ := teams_doRemoveTeam hremoved
    rw [hteams]
    refine ⟨consistent_deleteTeam h hinfo, ?_⟩
    obtain ⟨own, hown, hcreator⟩ :=
      TeamManager.owner_registry.mp ((h.ownerOf pid id).mp hmap)
    rw [hinfo] at hown
    cases hown
    have hmem : pid ∈ c.teams.arrays.pids info.membersInfo :=
      hcreator ▸ h.owner_mem id _ (TeamManager.clubs_of_info hinfo)
    show (if pid ∈ c.teams.arrays.pids info.membersInfo then none else _) = _
    rw [if_pos hmem]

theorem consistent_leaveTeam {id : Nat} {pid : PlayerId} (h : c.teams.registry.Consistent)
    (hunshared : c.teams.Unshared) (hregular : Regular c (.leaveTeam id pid)) :
    (c.leaveTeam id pid).teams.registry.Consistent := by
  unfold Checker.leaveTeam
  cases hinfo : c.teams.teamInfos id with
  | none => exact h
  | some info =>
      have hclub := TeamManager.clubs_of_info hinfo
      have hpid : c.teams.playerTeamid pid = none ∨ c.teams.playerTeamid pid = some id := by
        rcases hregular with hnone | hpid
        · rw [hinfo] at hnone
          cases hnone
        · exact hpid
      -- it does not matter which of the two is done first
      have hleft : ((c.teams.deletePlayerTeamids [pid]).removeMember info pid).registry =
          c.teams.registry.expel id (info.club c.teams.arrays) pid :=
        TeamManager.registry_removeMember hunshared hinfo pid
      dsimp only
      generalize hteams :
        (c.teams.deletePlayerTeamids [pid]).removeMember info pid = left at hleft ⊢
      have harray : left.arrays.pids info.membersInfo =
          (c.teams.arrays.pids info.membersInfo).filter fun other => other ≠ pid := by
        subst hteams
        exact TeamManager.pids_removeMember c.teams info pid
      have hinfoLeft : left.teamInfos id = some info := by
        subst hteams
        exact hinfo
      split
      · next hcreator =>
        subst hcreator
        have hremoved := teams_removeTeam (c := { c with teams := left }) hinfoLeft
        rw [hremoved, TeamManager.registry_deleteTeam, hleft]
        unfold TeamInfo.club
        dsimp only
        rw [harray]
        have hdissolve := c.teams.registry.dissolve_expel_owner id (h.owner_mem id _ hclub)
        exact hdissolve ▸ h.dissolve hclub
      · next hcreator =>
        show left.registry.Consistent
        rw [hleft]
        exact h.expel hclub hcreator hpid

theorem consistent_kickMember {id : Nat} {kickedPid : PlayerId}
    (h : c.teams.registry.Consistent) (hunshared : c.teams.Unshared)
    (hregular : Regular c (.kickMember id kickedPid)) :
    (c.kickMember id kickedPid).teams.registry.Consistent := by
  unfold Checker.kickMember
  cases hinfo : c.teams.teamInfos id with
  | none => exact h
  | some info =>
      dsimp only
      split
      · exact h
      · next hcreator =>
        show ((c.teams.removeMember info kickedPid).deletePlayerTeamids
          [kickedPid]).registry.Consistent
        rw [TeamManager.registry_removeMember hunshared hinfo]
        refine h.expel (TeamManager.clubs_of_info hinfo) hcreator ?_
        rcases hregular info hinfo with hsame | hpid
        · exact absurd hsame hcreator
        · exact hpid

theorem consistent_removePlayer (h : c.teams.registry.Consistent) (hunshared : c.teams.Unshared)
    (pid : PlayerId) : (c.removePlayer pid).teams.registry.Consistent := by
  unfold Checker.removePlayer
  cases hid : c.teams.playerTeamid pid with
  | none => exact h
  | some id =>
      dsimp only
      cases hinfo : c.teams.teamInfos id with
      | none => exact h
      | some info =>
          dsimp only
          generalize hleft : ({ c with teams := c.teams.setStatus id 0 } :
            Checker).dismissPairOnPlayeroffline pid = left
          have hteams : left.teams = c.teams.setStatus id 0 := by
            subst hleft
            exact Checker.teams_dismissPairOnPlayeroffline pid
          have halike : c.teams.Alike left.teams := by
            rw [hteams]
            exact TeamManager.alike_setStatus id 0
          have hsame : left.teams.registry.Consistent := by
            rw [TeamManager.registry_of_alike halike]
            exact h
          split
          · exact consistent_removeTeam hsame id
          · next hcreator =>
            -- the team still has its creator and its array
            obtain ⟨now, hnow⟩ : ∃ now, left.teams.teamInfos id = some now := by
              by_contra hnone
              push Not at hnone
              have hgone := halike.kept id (Option.eq_none_iff_forall_ne_some.mpr hnone)
              rw [hinfo] at hgone
              cases hgone
            obtain ⟨old, hold, hcreatorOld, href⟩ := halike.infos id now hnow
            rw [hinfo] at hold
            cases hold
            have hmember : left.teams.removeMember info pid = left.teams.removeMember now pid := by
              unfold TeamManager.removeMember
              rw [href]
            show ((left.teams.removeMember info pid).deletePlayerTeamids
              [pid]).registry.Consistent
            rw [hmember, TeamManager.registry_removeMember (hunshared.of_alike halike) hnow]
            refine hsame.expel (TeamManager.clubs_of_info hnow) ?_ (.inr ?_)
            · exact fun heq => hcreator (hcreatorOld.trans heq)
            · show left.teams.playerTeamid pid = some id
              rw [halike.playerTeamid, hid]

/-! ## Runs -/

theorem consistent_initial (profiles : List PoolProfile) (zones : List Nat)
    (random : Nat → Nat → Nat) (maxTeamid : Option Nat) :
    (initial profiles zones random maxTeamid).teams.registry.Consistent := by
  constructor
  · intro pid id
    refine ⟨fun h => (nomatch h), ?_⟩
    rintro ⟨club, hclub, -⟩
    cases hclub
  · intro pid id
    refine ⟨fun h => (nomatch h), ?_⟩
    rintro ⟨club, hclub, -⟩
    cases hclub
  · intro id club hclub
    cases hclub

theorem alike_teamMemberReady (id : Nat) (pid : PlayerId) (ready : Bool) :
    c.teams.Alike (c.teamMemberReady id pid ready).teams := by
  unfold Checker.teamMemberReady
  split
  · exact TeamManager.Alike.refl _
  · exact TeamManager.alike_setReady _ pid ready

theorem alike_matchCancel (id poolid : Nat) : c.teams.Alike (c.matchCancel id poolid).teams := by
  unfold Checker.matchCancel
  split
  · exact TeamManager.Alike.refl _
  · exact TeamManager.alike_setStatus id 0

theorem alike_matchRequest (id zone mtype ctype : Nat) (closed : Bool) :
    c.teams.Alike (c.matchRequest profiles id zone mtype ctype closed).teams := by
  rcases matchRequest_cases profiles c id zone mtype ctype closed with
    hsame | ⟨info, -, ⟨-, hnext⟩ | ⟨-, hnext⟩⟩
  · rw [hsame]
    exact TeamManager.Alike.refl _
  · rw [hnext]
    exact TeamManager.Alike.refl _
  · rw [hnext]
    exact TeamManager.alike_setStatus id 1

theorem consistent_createTeam {pid : PlayerId} {score teamType : Int}
    (h : c.teams.registry.Consistent) (howned : ∃ owner, Owned c owner)
    (hregular : Regular c (.createTeam pid score teamType)) :
    (c.createTeam pid score teamType).teams.registry.Consistent := by
  rcases createTeam_cases c pid score teamType with
    hsame | ⟨removed, hforeign, hremoved, hnext⟩
  · rw [hsame]
    exact h
  · obtain ⟨owner, howned⟩ := howned
    have hrefs : ∀ id info, removed.teams.teamInfos id = some info →
        info.membersInfo < removed.teams.nextRef :=
      fun id info hinfo => ((howned.shrink (shrinks_of_createTeam hremoved)).infos id info hinfo).1
    obtain ⟨hconsistent, hpid⟩ := free_of_createTeam h hforeign hremoved
    have hid := fresh_of_createTeam hregular hforeign hremoved
    rw [hnext]
    show (removed.teams.newTeam pid score teamType).registry.Consistent
    rw [TeamManager.registry_newTeam hrefs]
    exact hconsistent.found (Option.map_eq_none_iff.mpr hid) hpid

theorem consistent_joinTeam {id : Nat} {pid : PlayerId} {score : Int}
    (h : c.teams.registry.Consistent) (hunshared : c.teams.Unshared)
    (hregular : Regular c (.joinTeam id pid score)) :
    (c.joinTeam id pid score).teams.registry.Consistent := by
  rcases joinTeam_cases c id pid score with hsame | ⟨info, hinfo, hjoin, hnext⟩
  · rw [hsame]
    exact h
  · rw [hnext]
    have hfree := hregular info hinfo hjoin
    have hpid : c.teams.playerTeamid pid = none := by
      unfold TeamManager.canJoin at hjoin
      simp only [Bool.and_eq_true, Option.isNone_iff_eq_none] at hjoin
      exact hjoin.1.1.1.1
    have hregistry := TeamManager.registry_addMember hunshared hinfo hfree pid score
    exact hregistry ▸ h.enrol (TeamManager.clubs_of_info hinfo) hpid

/-- A regular command keeps the tables consistent. -/
theorem consistent_step {event : Event} (h : c.teams.registry.Consistent)
    (howned : ∃ owner, Owned c owner) (hregular : Regular c event)
    (hstep : step profiles c event = some next) : next.teams.registry.Consistent := by
  have hunshared : c.teams.Unshared := by
    obtain ⟨owner, howned⟩ := howned
    exact howned.unshared
  have hkept : c.teams.Alike next.teams → next.teams.registry.Consistent := by
    intro halike
    rw [TeamManager.registry_of_alike halike]
    exact h
  cases event with
  | createTeam pid score teamType =>
      cases hstep
      exact consistent_createTeam h howned hregular
  | removeTeam id =>
      cases hstep
      exact consistent_removeTeam h id
  | joinTeam id pid score =>
      cases hstep
      exact consistent_joinTeam h hunshared hregular
  | leaveTeam id pid =>
      cases hstep
      exact consistent_leaveTeam h hunshared hregular
  | kickMember id kickedPid =>
      cases hstep
      exact consistent_kickMember h hunshared hregular
  | teamMemberReady id pid ready =>
      cases hstep
      exact hkept (alike_teamMemberReady id pid ready)
  | matchRequest id zone mtype ctype closed =>
      cases hstep
      exact hkept (alike_matchRequest id zone mtype ctype closed)
  | matchCancel id poolid =>
      cases hstep
      exact hkept (alike_matchCancel id poolid)
  | matchConfirm pairId pid ok server now =>
      cases hstep
      rw [Checker.teams_comfirmMatchPair]
      exact h
  | removePlayer pid =>
      cases hstep
      exact consistent_removePlayer h hunshared pid
  | update =>
      cases hstep
      exact hkept Checker.alike_update

/-- In a run of regular commands the tables say the same in every state. -/
theorem agrees_of_run {zones : List Nat} {random : Nat → Nat → Nat} {maxTeamid : Option Nat}
    {events : List Event}
    (hrun : Run (step profiles) Regular (initial profiles zones random maxTeamid) events c) :
    c.teams.Agrees := by
  have hinv : (∃ owner, Owned c owner) ∧ c.teams.registry.Consistent := by
    induction hrun with
    | refl => exact ⟨⟨_, owned_initial _ _ _ _⟩, consistent_initial _ _ _ _⟩
    | snoc _ hregular hstep ih =>
        exact ⟨owned_step ih.1 hstep, consistent_step ih.2 ih.1 hregular hstep⟩
  exact TeamManager.agrees_of_consistent hinv.2

/-- A team of two comes together and falls apart, and another one goes. -/
def teamsComeAndGo : List Event :=
  [.createTeam 7 1000 1, .createTeam 8 1000 1, .joinTeam 1 9 1000, .leaveTeam 1 9,
    .joinTeam 2 9 1000, .removePlayer 8, .kickMember 1 9]

theorem agrees_teamsComeAndGo :
    ((exec (step singlesAndDoubles) Regular emptyChecker teamsComeAndGo).getD
      emptyChecker).teams.Agrees := by
  have hrun : Run (step singlesAndDoubles) Regular emptyChecker teamsComeAndGo
      ((exec (step singlesAndDoubles) Regular emptyChecker teamsComeAndGo).getD emptyChecker) :=
    run_exec_getD emptyChecker (by decide +kernel)
  exact agrees_of_run hrun

/-- A player in the first team leaves the second one. -/
def leavesOtherTeam : List Event :=
  [.createTeam 7 1000 1, .createTeam 8 1000 1, .joinTeam 1 9 1000, .leaveTeam 2 9]

/-- Without the condition a member loses the entry in `player_teamid`. -/
theorem not_agrees_leavesOtherTeam :
    ¬ ∀ events c, Run (step singlesAndDoubles) free emptyChecker events c → c.teams.Agrees := by
  intro h
  generalize hlast : (exec (step singlesAndDoubles) free emptyChecker leavesOtherTeam).getD
    emptyChecker = last
  have hrun : Run (step singlesAndDoubles) free emptyChecker leavesOtherTeam last := by
    rw [← hlast]
    exact run_exec_getD emptyChecker (by decide +kernel)
  have hmember : ∃ info ∈ last.teams.teamInfos 1, 9 ∈ last.teams.arrays.pids info.membersInfo := by
    subst hlast
    decide +kernel
  have hentry : last.teams.playerTeamid 9 = none := by
    subst hlast
    decide +kernel
  have hagrees := ((h _ _ hrun).player_teamid 9 1).mpr hmember
  rw [hentry] at hagrees
  cases hagrees

end Match
end ArmyRs
