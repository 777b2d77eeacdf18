import ArmyRs.Match.Shrinking

/-!
# Whose array an array is

What can add something is a new team, a join and an accepted request.  A new
team gets an array of its own, a join adds one player to the array of one team,
and a request adds one item with the array of its team.  Hence an array always
belongs to one team, and so does every item that has it (`owned_step`).
-/

namespace ArmyRs
namespace Match

open Foundation

/-- Whose array an array is. -/
structure Owned (c : Checker) (owner : Ref → Nat) : Prop where
  infos : ∀ id info, c.teams.teamInfos id = some info →
    info.membersInfo < c.teams.nextRef ∧ owner info.membersInfo = id
  items : ∀ item ∈ c.matching.items,
    item.membersInfo < c.teams.nextRef ∧ owner item.membersInfo = item.teamId

variable {profiles : List PoolProfile} {c next : Checker}

/-! ## A new member -/

/-- The players of an array after a join. -/
theorem mem_pids_addMember {t : TeamManager} {id : Nat} {info : TeamInfo} {pid other : PlayerId}
    {score : Int} {ref : Ref} (hmem : other ∈ (t.addMember id info pid score).arrays.pids ref) :
    other ∈ t.arrays.pids ref ∨
      (other = pid ∧ ref = info.membersInfo ∧ t.membercount info ≠ 5) := by
  unfold TeamManager.addMember at hmem
  split at hmem
  · exact Or.inl hmem
  · next hcount =>
    unfold Arrays.pids at hmem
    dsimp only at hmem
    rw [TeamManager.arrays_setInfo, TeamManager.arrays_setArray] at hmem
    by_cases href : ref = info.membersInfo
    · subst href
      rw [Function.update_self, List.map_append, List.mem_append] at hmem
      rcases hmem with hmem | hmem
      · exact Or.inl hmem
      · exact Or.inr ⟨List.mem_singleton.mp hmem, rfl, hcount⟩
    · rw [Function.update_of_ne href] at hmem
      exact Or.inl hmem

theorem infos_addMember {t : TeamManager} {id : Nat} {info : TeamInfo}
    (hinfo : t.teamInfos id = some info) (pid : PlayerId) (score : Int) (other : Nat)
    (otherInfo : TeamInfo)
    (hother : (t.addMember id info pid score).teamInfos other = some otherInfo) :
    ∃ old, t.teamInfos other = some old ∧ old.membersInfo = otherInfo.membersInfo := by
  unfold TeamManager.addMember at hother
  split at hother
  · exact ⟨otherInfo, hother, rfl⟩
  · dsimp only at hother
    rw [TeamManager.teamInfos_setInfo, TeamManager.teamInfos_setArray] at hother
    by_cases heq : other = id
    · subst heq
      rw [Function.update_self, Option.some_inj] at hother
      subst hother
      exact ⟨info, hinfo, rfl⟩
    · rw [Function.update_of_ne heq] at hother
      exact ⟨otherInfo, hother, rfl⟩

theorem nextRef_addMember {t : TeamManager} (id : Nat) (info : TeamInfo) (pid : PlayerId)
    (score : Int) : (t.addMember id info pid score).nextRef = t.nextRef := by
  unfold TeamManager.addMember
  split <;> rfl

/-! ## A request -/

theorem key_findPool {m : MatchManager} {zone poolId : Nat} {found : Pool}
    (hfound : m.findPool zone poolId = some found) :
    found.zone = zone ∧ found.poolId = poolId :=
  of_decide_eq_true (List.find?_some (p := fun pool : Pool =>
    decide (pool.zone = zone ∧ pool.poolId = poolId)) hfound)

/-- A pool takes the place of the one that `findPool` finds. -/
theorem pools_setPool {m : MatchManager} {zone poolId : Nat} {found : Pool}
    (hfound : m.findPool zone poolId = some found) :
    ∃ before after, m.pools = before ++ found :: after ∧
      ∀ teamMatch : TeamMatch, (m.setPool { found with teamMatch := teamMatch }).pools =
        before ++ { found with teamMatch := teamMatch } :: after := by
  have hkeyed : m.pools.find? (fun pool => decide ((pool.zone, pool.poolId) = (zone, poolId))) =
      some found := by
    rw [← hfound]
    unfold MatchManager.findPool
    simp only [Prod.mk.injEq]
  obtain ⟨hzone, hpoolId⟩ := key_findPool hfound
  have hkey : (found.zone, found.poolId) = (zone, poolId) := by rw [hzone, hpoolId]
  obtain ⟨before, after, htable, hput⟩ := put_of_find hkeyed
  exact ⟨before, after, htable, fun teamMatch => hput { found with teamMatch := teamMatch } hkey⟩

/-- The other pools stay as they are. -/
theorem items_setPool {m : MatchManager} {zone poolId : Nat} {found : Pool}
    (hfound : m.findPool zone poolId = some found) :
    ∃ rest, m.items.Perm (found.teamMatch.items ++ rest) ∧
      ∀ teamMatch : TeamMatch,
        (m.setPool { found with teamMatch := teamMatch }).items.Perm (teamMatch.items ++ rest) := by
  obtain ⟨before, after, htable, hput⟩ := pools_setPool hfound
  -- the items of the pools before move behind those of the pool that was found
  have hmove : ∀ (teamMatch : TeamMatch) (pairs : List Item),
      ((before ++ { found with teamMatch := teamMatch } :: after).flatMap
        (fun pool => pool.teamMatch.items) ++ pairs).Perm
          (teamMatch.items ++ ((before ++ after).flatMap (fun pool => pool.teamMatch.items) ++
            pairs)) := by
    intro teamMatch pairs
    simp only [List.flatMap_append, List.flatMap_cons, List.append_assoc]
    rw [← List.append_assoc, ← List.append_assoc teamMatch.items]
    exact List.perm_append_comm.append_right _
  refine ⟨(before ++ after).flatMap (fun pool => pool.teamMatch.items) ++ m.pairItems, ?_, ?_⟩
  · unfold MatchManager.items MatchManager.poolItems
    rw [htable]
    exact hmove found.teamMatch m.pairItems
  · intro teamMatch
    unfold MatchManager.items MatchManager.poolItems
    rw [hput teamMatch]
    exact hmove teamMatch m.pairItems

/-- A request that is accepted adds one item to the others. -/
theorem items_addTeam_accepted {m : MatchManager} {id zone poolId : Nat} {found : Pool} {ref : Ref}
    {pids : List PlayerId} (hfound : m.findPool zone poolId = some found)
    (hadded : (found.teamMatch.addTeam id ref pids.length).2 = true) :
    (m.addTeam id zone (some poolId) ref pids).1.items.Perm
      ((m.setPool { found with teamMatch := found.teamMatch.removeTeam id }).items ++
        [⟨id, ref⟩]) := by
  obtain ⟨rest, -, hset⟩ := items_setPool hfound
  unfold MatchManager.addTeam
  rw [Option.bind_some, hfound]
  dsimp only
  rw [if_pos hadded]
  refine (hset _).trans ?_
  refine ((TeamMatch.items_addTeam hadded).append_right rest).trans ?_
  refine List.Perm.trans ?_ ((hset _).symm.append_right _)
  rw [TeamMatch.items_removeTeam, List.append_assoc, List.append_assoc]
  exact List.perm_append_comm.append_left _

/-- A request that is refused adds nothing. -/
theorem items_addTeam_not_accepted {m : MatchManager} {id zone : Nat} {poolId : Option Nat}
    {ref : Ref} {pids : List PlayerId} (hrefused : (m.addTeam id zone poolId ref pids).2 = false) :
    (m.addTeam id zone poolId ref pids).1.items.Subperm m.items := by
  unfold MatchManager.addTeam at hrefused ⊢
  split
  · exact List.Subperm.refl _
  · next found hfound =>
    rw [hfound] at hrefused
    dsimp only at hrefused ⊢
    split at hrefused
    · cases hrefused
    · next hadded =>
      rw [if_neg hadded]
      obtain ⟨key, -, hkey⟩ := Option.bind_eq_some_iff.mp hfound
      obtain ⟨rest, hperm, hset⟩ := items_setPool hkey
      refine (hset _).subperm.trans (List.Subperm.trans ?_ hperm.symm.subperm)
      rw [TeamMatch.items_addTeam_refused (by simpa using hadded)]
      exact (List.subperm_append_right _).mpr List.filter_sublist.subperm

theorem addTeam_snd (pool : TeamMatch) (id : Nat) (ref : Ref) (count : Nat) :
    (pool.addTeam id ref count).2 = decide (count ∈ pool.groups) := by
  unfold TeamMatch.addTeam
  show (if count ∈ pool.groups then _ else _ : TeamMatch × Bool).2 = _
  split
  · next h => exact (decide_eq_true h).symm
  · next h => exact (decide_eq_false h).symm

/-! ## Steps -/

/-- Where the items are from after a request. -/
theorem mem_items_addTeam {m : MatchManager} {id zone : Nat} {poolId : Option Nat} {ref : Ref}
    {pids : List PlayerId} {item : Item}
    (hitem : item ∈ (m.addTeam id zone poolId ref pids).1.items) :
    item ∈ m.items ∨ (m.addTeam id zone poolId ref pids).2 = true ∧ item = ⟨id, ref⟩ := by
  cases hadded : (m.addTeam id zone poolId ref pids).2 with
  | false => exact .inl ((items_addTeam_not_accepted hadded).subset hitem)
  | true =>
      unfold MatchManager.addTeam at hadded hitem
      split at hadded
      · cases hadded
      · next found hfound =>
        obtain ⟨key, -, hkey⟩ := Option.bind_eq_some_iff.mp hfound
        rw [hfound] at hitem
        dsimp only at hadded hitem
        split at hadded
        · next haccepted =>
          rw [if_pos haccepted] at hitem
          obtain ⟨rest, hperm, hset⟩ := items_setPool hkey
          have hnew := ((hset _).trans
            ((TeamMatch.items_addTeam haccepted).append_right rest)).mem_iff.mp hitem
          rw [List.append_assoc, List.mem_append, List.mem_append] at hnew
          rcases hnew with hold | hsame | hrest
          · exact .inl (hperm.mem_iff.mpr
              (List.mem_append_left _ (List.mem_of_mem_filter hold)))
          · exact .inr ⟨rfl, List.mem_singleton.mp hsame⟩
          · exact .inl (hperm.mem_iff.mpr (List.mem_append_right _ hrest))
        · cases hadded

/-! ## Steps -/

/-- A request to create a team is refused, or a new team takes the place of the
old team of its creator. -/
theorem createTeam_cases (c : Checker) (pid : PlayerId) (score teamType : Int) :
    c.createTeam pid score teamType = c ∨
      ∃ removed, c.inForeignTeam pid = false ∧
        (c.teams.teamMap pid = none ∧ removed = c ∨
          ∃ id, c.teams.teamMap pid = some id ∧ c.doRemoveTeam id = some removed) ∧
        c.createTeam pid score teamType =
          { removed with teams := removed.teams.newTeam pid score teamType } := by
  unfold Checker.createTeam
  split
  · exact .inl rfl
  · next hforeign =>
    have hforeign : c.inForeignTeam pid = false := by simpa using hforeign
    cases hmap : c.teams.teamMap pid with
    | none => exact .inr ⟨c, hforeign, .inl ⟨rfl, rfl⟩, rfl⟩
    | some id =>
        dsimp only
        cases hremoved : c.doRemoveTeam id with
        | none => exact .inl rfl
        | some removed => exact .inr ⟨removed, hforeign, .inr ⟨id, rfl, hremoved⟩, rfl⟩

/-- A join is refused, or the player gets an entry in `player_teamid`. -/
theorem joinTeam_cases (c : Checker) (id : Nat) (pid : PlayerId) (score : Int) :
    c.joinTeam id pid score = c ∨
      ∃ info, c.teams.teamInfos id = some info ∧ c.teams.canJoin info pid = true ∧
        c.joinTeam id pid score = { c with
          teams := { c.teams.addMember id info pid score with
            playerTeamid := Function.update (c.teams.addMember id info pid score).playerTeamid
              pid (some id) } } := by
  unfold Checker.joinTeam
  cases hinfo : c.teams.teamInfos id with
  | none => exact .inl rfl
  | some info =>
      dsimp only
      split
      · next hjoin => exact .inr ⟨info, rfl, hjoin, rfl⟩
      · exact .inl rfl

/-- A request of a team is refused, or a pool takes it. -/
theorem matchRequest_cases (profiles : List PoolProfile) (c : Checker)
    (id zone mtype ctype : Nat) (closed : Bool) :
    c.matchRequest profiles id zone mtype ctype closed = c ∨
      ∃ info, c.teams.teamInfos id = some info ∧
        ((c.matching.addTeam id zone (c.requestPool profiles info mtype ctype closed)
            info.membersInfo (c.teams.arrays.pids info.membersInfo)).2 = false ∧
          c.matchRequest profiles id zone mtype ctype closed = { c with
            matching := (c.matching.addTeam id zone
              (c.requestPool profiles info mtype ctype closed) info.membersInfo
                (c.teams.arrays.pids info.membersInfo)).1 } ∨
        (c.matching.addTeam id zone (c.requestPool profiles info mtype ctype closed)
            info.membersInfo (c.teams.arrays.pids info.membersInfo)).2 = true ∧
          c.matchRequest profiles id zone mtype ctype closed = { c with
            teams := c.teams.setStatus id 1
            matching := (c.matching.addTeam id zone
              (c.requestPool profiles info mtype ctype closed) info.membersInfo
                (c.teams.arrays.pids info.membersInfo)).1 }) := by
  unfold Checker.matchRequest
  cases hinfo : c.teams.teamInfos id with
  | none => exact .inl rfl
  | some info =>
      refine .inr ⟨info, rfl, ?_⟩
      dsimp only
      split
      · next hadded => exact .inr ⟨hadded, rfl⟩
      · next hadded => exact .inl ⟨by simpa using hadded, rfl⟩

/-- A command only takes away, or it founds a team, lets a player join, or puts
a request into a pool. -/
theorem step_adds {event : Event} (hstep : step profiles c event = some next) :
    c.Shrinks next ∨
    (∃ pid score teamType removed, event = .createTeam pid score teamType ∧
      (c.teams.teamMap pid = none ∧ removed = c ∨
        ∃ id, c.teams.teamMap pid = some id ∧ c.doRemoveTeam id = some removed) ∧
      next = { removed with teams := removed.teams.newTeam pid score teamType }) ∨
    (∃ id pid score info, event = .joinTeam id pid score ∧
      c.teams.teamInfos id = some info ∧ c.teams.canJoin info pid = true ∧
      next = { c with teams := { c.teams.addMember id info pid score with
        playerTeamid := Function.update (c.teams.addMember id info pid score).playerTeamid
          pid (some id) } }) ∨
    (∃ id zone mtype ctype closed info, event = .matchRequest id zone mtype ctype closed ∧
      c.teams.teamInfos id = some info ∧
      (c.matching.addTeam id zone (c.requestPool profiles info mtype ctype closed)
        info.membersInfo (c.teams.arrays.pids info.membersInfo)).2 = true ∧
      next = { c with
        teams := c.teams.setStatus id 1
        matching := (c.matching.addTeam id zone
          (c.requestPool profiles info mtype ctype closed) info.membersInfo
            (c.teams.arrays.pids info.membersInfo)).1 }) := by
  cases event with
  | createTeam pid score teamType =>
      cases hstep
      rcases createTeam_cases c pid score teamType with hsame | ⟨removed, -, hremoved, hnext⟩
      · rw [hsame]
        exact .inl (Checker.Shrinks.refl c)
      · exact .inr (.inl ⟨pid, score, teamType, removed, rfl, hremoved, hnext⟩)
  | joinTeam id pid score =>
      cases hstep
      rcases joinTeam_cases c id pid score with hsame | ⟨info, hinfo, hjoin, hnext⟩
      · rw [hsame]
        exact .inl (Checker.Shrinks.refl c)
      · exact .inr (.inr (.inl ⟨id, pid, score, info, rfl, hinfo, hjoin, hnext⟩))
  | matchRequest id zone mtype ctype closed =>
      cases hstep
      rcases matchRequest_cases profiles c id zone mtype ctype closed with
        hsame | ⟨info, hinfo, ⟨hadded, hnext⟩ | ⟨hadded, hnext⟩⟩
      · rw [hsame]
        exact .inl (Checker.Shrinks.refl c)
      · rw [hnext]
        exact .inl (Checker.shrinks_matching (items_addTeam_not_accepted hadded))
      · exact .inr (.inr (.inr ⟨id, zone, mtype, ctype, closed, info, rfl, hinfo, hadded, hnext⟩))
  | removeTeam id =>
      cases hstep
      exact .inl (Checker.shrinks_removeTeam id)
  | leaveTeam id pid =>
      cases hstep
      exact .inl (Checker.shrinks_leaveTeam id pid)
  | kickMember id kickedPid =>
      cases hstep
      exact .inl (Checker.shrinks_kickMember id kickedPid)
  | teamMemberReady id pid ready =>
      cases hstep
      exact .inl (Checker.shrinks_teamMemberReady id pid ready)
  | matchCancel id poolid =>
      cases hstep
      exact .inl (Checker.shrinks_matchCancel id poolid)
  | matchConfirm pairId pid ok server now =>
      cases hstep
      exact .inl (Checker.shrinks_comfirmMatchPair profiles pairId pid ok server now)
  | removePlayer pid =>
      cases hstep
      exact .inl (Checker.shrinks_removePlayer pid)
  | update =>
      cases hstep
      exact .inl Checker.shrinks_update

variable {owner : Ref → Nat}

theorem Owned.shrink (howned : Owned c owner) (hshrinks : c.Shrinks next) : Owned next owner := by
  constructor
  · intro id info hinfo
    obtain ⟨old, hold, href⟩ := hshrinks.teams.infos id info hinfo
    rw [← href, hshrinks.teams.nextRef]
    exact howned.infos id old hold
  · intro item hitem
    rw [hshrinks.teams.nextRef]
    exact howned.items item (hshrinks.items.subset hitem)

/-- A new team has an array that nobody else has. -/
theorem Owned.newTeam (howned : Owned c owner) (pid : PlayerId) (score teamType : Int) :
    Owned { c with teams := c.teams.newTeam pid score teamType }
      (Function.update owner c.teams.nextRef c.teams.genTeamId) := by
  constructor
  · intro id info hinfo
    change Function.update c.teams.teamInfos c.teams.genTeamId _ id = some info at hinfo
    by_cases heq : id = c.teams.genTeamId
    · subst heq
      rw [Function.update_self, Option.some_inj] at hinfo
      subst hinfo
      exact ⟨Nat.lt_succ_self _, Function.update_self _ _ _⟩
    · rw [Function.update_of_ne heq] at hinfo
      obtain ⟨hlt, howner⟩ := howned.infos id info hinfo
      exact ⟨Nat.lt_succ_of_lt hlt, by rw [Function.update_of_ne hlt.ne, howner]⟩
  · intro item hitem
    obtain ⟨hlt, howner⟩ := howned.items item hitem
    exact ⟨Nat.lt_succ_of_lt hlt, by rw [Function.update_of_ne hlt.ne, howner]⟩

theorem shrinks_of_createTeam {pid : PlayerId} {removed : Checker}
    (hremoved : c.teams.teamMap pid = none ∧ removed = c ∨
      ∃ id, c.teams.teamMap pid = some id ∧ c.doRemoveTeam id = some removed) :
    c.Shrinks removed := by
  rcases hremoved with ⟨-, rfl⟩ | ⟨id, -, hremoved⟩
  · exact Checker.Shrinks.refl removed
  · exact Checker.shrinks_doRemoveTeam hremoved

theorem Owned.request {id zone mtype ctype : Nat} {closed : Bool} {info : TeamInfo}
    (howned : Owned c owner) (hinfo : c.teams.teamInfos id = some info) :
    Owned { c with
      matching := (c.matching.addTeam id zone (c.requestPool profiles info mtype ctype closed)
        info.membersInfo (c.teams.arrays.pids info.membersInfo)).1 } owner := by
  refine ⟨howned.infos, fun item hitem => ?_⟩
  rcases mem_items_addTeam hitem with hold | ⟨-, rfl⟩
  · exact howned.items item hold
  · exact howned.infos id info hinfo

/-- Every command keeps the arrays apart. -/
theorem owned_step {event : Event} (howned : ∃ owner, Owned c owner)
    (hstep : step profiles c event = some next) : ∃ owner, Owned next owner := by
  obtain ⟨owner, howned⟩ := howned
  rcases step_adds hstep with hshrinks |
    ⟨pid, score, teamType, removed, -, hremoved, rfl⟩ |
    ⟨id, pid, score, info, -, hinfo, -, rfl⟩ |
    ⟨id, zone, mtype, ctype, closed, info, -, hinfo, -, rfl⟩
  · exact ⟨owner, howned.shrink hshrinks⟩
  · exact ⟨_, (howned.shrink (shrinks_of_createTeam hremoved)).newTeam pid score teamType⟩
  · refine ⟨owner, ?_, ?_⟩
    · intro other otherInfo hother
      obtain ⟨old, hold, href⟩ := infos_addMember hinfo pid score other otherInfo hother
      show _ < (c.teams.addMember id info pid score).nextRef ∧ _
      rw [← href, nextRef_addMember]
      exact howned.infos other old hold
    · intro item hitem
      show _ < (c.teams.addMember id info pid score).nextRef ∧ _
      rw [nextRef_addMember]
      exact howned.items item hitem
  · exact ⟨owner, (howned.request hinfo).shrink
      (Checker.shrinks_teams (TeamManager.shrinks_setStatus id 1))⟩

theorem items_initial (profiles : List PoolProfile) (zones : List Nat)
    (random : Nat → Nat → Nat) (maxTeamid : Option Nat) :
    (initial profiles zones random maxTeamid).matching.items = [] := by
  show (initPools profiles zones random).flatMap _ ++ [] = []
  rw [List.append_nil, List.flatMap_eq_nil_iff]
  intro pool hpool
  obtain ⟨zone, -, hzone⟩ := List.mem_flatMap.mp hpool
  obtain ⟨profile, -, hprofile⟩ := List.mem_filterMap.mp hzone
  obtain ⟨combatType, -, rfl⟩ := Option.map_eq_some_iff.mp hprofile
  exact List.flatMap_eq_nil_iff.mpr fun _ _ => rfl

theorem owned_initial (profiles : List PoolProfile) (zones : List Nat)
    (random : Nat → Nat → Nat) (maxTeamid : Option Nat) :
    Owned (initial profiles zones random maxTeamid) fun _ => 0 := by
  constructor
  · intro id info hinfo
    cases hinfo
  · intro item hitem
    rw [items_initial] at hitem
    cases hitem

end Match
end ArmyRs
