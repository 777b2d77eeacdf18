import ArmyRs.Match.PoolItems

/-!
# Commands that take away

Most commands only take requests, pairs, members and teams away, or change what
nobody shares.  `Checker.Shrinks` says so of two states: no item is new in the
pools and the pairs, no player is new in an array, and every team keeps its
array.  There is one lemma for each operation; what can add something
(`newTeam`, `addMember`, and an accepted request) is left to its users.
-/

namespace ArmyRs
namespace Match

open Foundation

/-- No player is new in an array, and no team is new or has a new array. -/
structure TeamManager.Shrinks (t next : TeamManager) : Prop where
  pids : ∀ ref pid, pid ∈ next.arrays.pids ref → pid ∈ t.arrays.pids ref
  infos : ∀ id info, next.teamInfos id = some info →
    ∃ old, t.teamInfos id = some old ∧ old.membersInfo = info.membersInfo
  nextRef : next.nextRef = t.nextRef

namespace TeamManager

variable {t : TeamManager}

theorem Shrinks.refl (t : TeamManager) : t.Shrinks t :=
  ⟨fun _ _ h => h, fun _ info h => ⟨info, h, rfl⟩, rfl⟩

theorem Shrinks.trans {middle last : TeamManager} (hfirst : t.Shrinks middle)
    (hsecond : middle.Shrinks last) : t.Shrinks last := by
  constructor
  · exact fun ref pid hpid => hfirst.pids ref pid (hsecond.pids ref pid hpid)
  · intro id info hinfo
    obtain ⟨between, hbetween, href⟩ := hsecond.infos id info hinfo
    obtain ⟨old, hold, hrefOld⟩ := hfirst.infos id between hbetween
    exact ⟨old, hold, hrefOld.trans href⟩
  · exact hsecond.nextRef.trans hfirst.nextRef

/-- Writing the record of a team that keeps its array. -/
theorem shrinks_setInfo {id : Nat} {old info : TeamInfo} (hold : t.teamInfos id = some old)
    (href : info.membersInfo = old.membersInfo) : t.Shrinks (t.setInfo id info) := by
  refine ⟨fun _ _ h => h, ?_, rfl⟩
  intro other otherInfo hother
  rw [teamInfos_setInfo] at hother
  by_cases heq : other = id
  · subst heq
    rw [Function.update_self, Option.some_inj] at hother
    subst hother
    exact ⟨old, hold, href.symm⟩
  · rw [Function.update_of_ne heq] at hother
    exact ⟨otherInfo, hother, rfl⟩

/-- Writing an array with players that were in it. -/
theorem shrinks_setArray {ref : Ref} {members : List Member}
    (hmembers : ∀ pid ∈ members.map Member.pid, pid ∈ t.arrays.pids ref) :
    t.Shrinks (t.setArray ref members) := by
  refine ⟨?_, fun _ info h => ⟨info, h, rfl⟩, rfl⟩
  intro other pid hpid
  unfold Arrays.pids at hpid
  rw [arrays_setArray] at hpid
  by_cases heq : other = ref
  · subst heq
    rw [Function.update_self] at hpid
    exact hmembers pid hpid
  · rwa [Function.update_of_ne heq] at hpid

theorem shrinks_deletePlayerTeamids (pids : List PlayerId) :
    t.Shrinks (t.deletePlayerTeamids pids) :=
  ⟨fun _ _ h => h, fun _ info h => ⟨info, h, rfl⟩, rfl⟩

/-- Changing members one by one keeps the players of an array. -/
theorem pids_map {members : List Member} {change : Member → Member}
    (hchange : ∀ mi, (change mi).pid = mi.pid) :
    (members.map change).map Member.pid = members.map Member.pid := by
  rw [List.map_map]
  exact List.map_congr_left fun mi _ => hchange mi

theorem shrinks_setStatus (id status : Nat) : t.Shrinks (t.setStatus id status) := by
  unfold setStatus
  cases hinfo : t.teamInfos id with
  | none => exact Shrinks.refl t
  | some info =>
      have hset : t.Shrinks (t.setInfo id { info with status := status }) :=
        shrinks_setInfo hinfo rfl
      dsimp only
      split
      · refine hset.trans (shrinks_setArray fun pid hpid => ?_)
        rw [pids_map] at hpid
        · exact hpid
        · intro mi
          split <;> rfl
      · exact hset

theorem shrinks_setReady (info : TeamInfo) (pid : PlayerId) (ready : Bool) :
    t.Shrinks (t.setReady info pid ready) := by
  refine shrinks_setArray fun other hother => ?_
  rw [pids_map] at hother
  · exact hother
  · intro mi
    split <;> rfl

theorem shrinks_removeMember (info : TeamInfo) (pid : PlayerId) :
    t.Shrinks (t.removeMember info pid) := by
  refine shrinks_setArray fun other hother => ?_
  exact (List.filter_sublist.map Member.pid).subset hother

theorem shrinks_deleteTeam (id : Nat) (info : TeamInfo) : t.Shrinks (t.deleteTeam id info) := by
  refine ⟨fun _ _ h => h, ?_, rfl⟩
  intro other otherInfo hother
  unfold deleteTeam deletePlayerTeamids at hother
  by_cases heq : other = id
  · subst heq
    simp at hother
  · simp only [Function.update_of_ne heq] at hother
    exact ⟨otherInfo, hother, rfl⟩

theorem shrinks_setStatuses (items : List Item) (status : Nat) :
    t.Shrinks (items.foldl (fun t item => t.setStatus item.teamId status) t) := by
  induction items generalizing t with
  | nil => exact Shrinks.refl t
  | cons item items ih => exact (shrinks_setStatus item.teamId status).trans ih

end TeamManager

namespace MatchManager

variable {m : MatchManager}

/-- Everything that waits in a pool or is in a live pair. -/
def items (m : MatchManager) : List Item :=
  m.poolItems ++ m.pairItems

theorem items_subperm_of_pools {next : MatchManager}
    (hpools : next.poolItems.Subperm m.poolItems) (hpairs : next.pairItems = m.pairItems) :
    next.items.Subperm m.items := by
  unfold items
  rw [hpairs]
  exact (List.subperm_append_right _).mpr hpools

theorem items_subperm_of_pairs {next : MatchManager}
    (hpools : next.poolItems = m.poolItems) (hpairs : next.pairItems.Subperm m.pairItems) :
    next.items.Subperm m.items := by
  unfold items
  rw [hpools]
  exact (List.subperm_append_left _).mpr hpairs

theorem items_removeFrom (selected : Pool → Bool) (tid : Nat) :
    (m.removeFrom selected tid).items.Subperm m.items := by
  refine items_subperm_of_pools (List.Sublist.subperm ?_) rfl
  unfold poolItems removeFrom
  rw [List.flatMap_map]
  refine List.Sublist.flatMap_right _ fun pool _ => ?_
  split
  · rw [TeamMatch.items_removeTeam]
    exact List.filter_sublist
  · exact List.Sublist.refl _

theorem items_deletePair (pairId : Nat) : (m.deletePair pairId).items.Subperm m.items :=
  items_subperm_of_pairs rfl (List.filter_sublist.flatMap _).subperm

theorem items_delTeamDetailByMp (mp : MatchedPair) :
    (m.delTeamDetailByMp mp).items.Subperm m.items := by
  unfold delTeamDetailByMp
  induction mp.pair.tms generalizing m with
  | nil => exact List.Subperm.refl _
  | cons item rest ih => exact ih.trans (items_removeFrom _ item.teamId)

theorem pairItems_confirm (pairId : Nat) (pid : PlayerId) :
    (m.confirm pairId pid).pairItems = m.pairItems := by
  unfold pairItems confirm
  rw [List.flatMap_map]
  refine List.flatMap_congr fun mp _ => ?_
  split <;> rfl

theorem items_confirm (pairId : Nat) (pid : PlayerId) :
    (m.confirm pairId pid).items = m.items := by
  unfold items
  rw [pairItems_confirm]
  rfl

theorem items_checkTimeout : m.checkTimeout.items.Subperm m.items := by
  refine items_subperm_of_pairs rfl (List.Sublist.subperm ?_)
  unfold pairItems checkTimeout
  dsimp only
  induction m.matchedPairs with
  | nil => exact List.Sublist.refl _
  | cons mp rest ih =>
      rw [List.filterMap_cons, List.flatMap_cons]
      cases hmp : notifyOrExpire m.tick mp with
      | none => exact ih.trans (List.sublist_append_right _ _)
      | some kept =>
          have hkept : kept.pair = mp.pair := by
            unfold notifyOrExpire at hmp
            split at hmp
            · split at hmp
              · cases hmp
              · cases hmp
                rfl
            · cases hmp
              rfl
          dsimp only
          rw [List.flatMap_cons, hkept]
          exact (List.append_sublist_append_left _).mpr ih

/-- A pair that is formed brings its own items. -/
theorem pairItems_formPair (arrays : Arrays) (pool : Pool) (pair : Pair) :
    (formPair arrays pool m pair).pairItems.Subperm (pair.tms ++ m.pairItems) := by
  have hput := put_subperm MatchedPair.pairId
    (⟨m.pairsFormed, m.genPairId, pool.zone, pool.poolId, m.tick, pair, false, [],
      arrays.pairPids pair⟩ : MatchedPair) m.matchedPairs
  obtain ⟨table, hperm, hsub⟩ := hput
  exact ⟨table.flatMap fun mp => mp.pair.tms, hperm.flatMap_right _, hsub.flatMap _⟩

theorem pairItems_formPairs (arrays : Arrays) (pool : Pool) (res : List Pair) :
    (res.foldl (formPair arrays pool) m).pairItems.Subperm
      (res.flatMap Pair.tms ++ m.pairItems) := by
  induction res generalizing m with
  | nil => exact List.Subperm.refl _
  | cons pair res ih =>
      refine List.Subperm.trans (ih (m := formPair arrays pool m pair)) ?_
      refine List.Subperm.trans
        ((List.subperm_append_left _).mpr (pairItems_formPair arrays pool pair)) ?_
      rw [List.flatMap_cons, ← List.append_assoc]
      exact (List.perm_append_comm.append_right _).subperm

end MatchManager

/-- The teams shrink, and no item is new. -/
structure Checker.Shrinks (c next : Checker) : Prop where
  teams : c.teams.Shrinks next.teams
  items : next.matching.items.Subperm c.matching.items

namespace Checker

variable {c : Checker}

theorem Shrinks.refl (c : Checker) : c.Shrinks c :=
  ⟨TeamManager.Shrinks.refl _, List.Subperm.refl _⟩

theorem Shrinks.trans {middle last : Checker} (hfirst : c.Shrinks middle)
    (hsecond : middle.Shrinks last) : c.Shrinks last :=
  ⟨hfirst.teams.trans hsecond.teams, hsecond.items.trans hfirst.items⟩

/-- Neither the teams nor the items change. -/
theorem shrinks_of_eq {next : Checker} (hteams : next.teams = c.teams)
    (hitems : next.matching.items = c.matching.items) : c.Shrinks next :=
  ⟨hteams ▸ TeamManager.Shrinks.refl _, hitems ▸ List.Subperm.refl _⟩

/-- Only the teams change. -/
theorem shrinks_teams {teams : TeamManager} (hteams : c.teams.Shrinks teams) :
    c.Shrinks { c with teams := teams } :=
  ⟨hteams, List.Subperm.refl _⟩

/-- Only the pools and the pairs change. -/
theorem shrinks_matching {matching : MatchManager}
    (hitems : matching.items.Subperm c.matching.items) :
    c.Shrinks { c with matching := matching } :=
  ⟨TeamManager.Shrinks.refl _, hitems⟩

theorem shrinks_doRemoveTeam {id : Nat} {next : Checker} (hnext : c.doRemoveTeam id = some next) :
    c.Shrinks next := by
  unfold doRemoveTeam at hnext
  split at hnext
  · cases hnext
  · next info hinfo =>
    cases hnext
    exact ⟨TeamManager.shrinks_deleteTeam id info, MatchManager.items_removeFrom _ id⟩

theorem shrinks_removeTeam (id : Nat) : c.Shrinks (c.removeTeam id) := by
  unfold removeTeam
  cases hremoved : c.doRemoveTeam id with
  | none => exact Shrinks.refl c
  | some next => exact shrinks_doRemoveTeam hremoved

theorem shrinks_leaveTeam (id : Nat) (pid : PlayerId) : c.Shrinks (c.leaveTeam id pid) := by
  unfold leaveTeam
  split
  · exact Shrinks.refl c
  · next info hinfo =>
    have hmember : c.Shrinks { c with
        teams := (c.teams.deletePlayerTeamids [pid]).removeMember info pid } :=
      shrinks_teams ((TeamManager.shrinks_deletePlayerTeamids [pid]).trans
        (TeamManager.shrinks_removeMember info pid))
    dsimp only
    split
    · exact hmember.trans (shrinks_removeTeam id)
    · exact hmember

theorem shrinks_kickMember (id : Nat) (kickedPid : PlayerId) :
    c.Shrinks (c.kickMember id kickedPid) := by
  unfold kickMember
  split
  · exact Shrinks.refl c
  · next info hinfo =>
    split
    · exact Shrinks.refl c
    · exact shrinks_teams ((TeamManager.shrinks_removeMember info kickedPid).trans
        (TeamManager.shrinks_deletePlayerTeamids [kickedPid]))

theorem shrinks_teamMemberReady (id : Nat) (pid : PlayerId) (ready : Bool) :
    c.Shrinks (c.teamMemberReady id pid ready) := by
  unfold teamMemberReady
  split
  · exact Shrinks.refl c
  · next info hinfo => exact shrinks_teams (TeamManager.shrinks_setReady info pid ready)

theorem shrinks_matchCancel (id poolid : Nat) : c.Shrinks (c.matchCancel id poolid) := by
  unfold matchCancel
  split
  · exact Shrinks.refl c
  · exact ⟨TeamManager.shrinks_setStatus id 0, MatchManager.items_removeFrom _ id⟩

theorem shrinks_dismiss (mp : MatchedPair) : c.Shrinks (c.dismiss mp) :=
  shrinks_matching ((MatchManager.items_delTeamDetailByMp mp).trans
    (MatchManager.items_deletePair mp.pairId))

theorem shrinks_checkMatchAllConfirmed (profiles : List PoolProfile) (mp : MatchedPair)
    (server : Bool) (now : Nat) :
    c.Shrinks (c.checkMatchAllConfirmed profiles mp server now) := by
  unfold checkMatchAllConfirmed startCombat
  split
  · dsimp only
    split
    · exact shrinks_of_eq rfl rfl
    · split
      · refine Shrinks.trans ?_ (shrinks_dismiss mp)
        exact shrinks_of_eq rfl rfl
      · exact shrinks_of_eq rfl rfl
  · exact Shrinks.refl c

theorem shrinks_comfirmMatchPair (profiles : List PoolProfile) (pairId : Nat) (pid : PlayerId)
    (ok server : Bool) (now : Nat) :
    c.Shrinks (c.comfirmMatchPair profiles pairId pid ok server now) := by
  unfold comfirmMatchPair
  split
  · exact Shrinks.refl c
  · next mp hmp =>
    split
    · have hconfirm : c.Shrinks { c with matching := c.matching.confirm pairId pid } :=
        shrinks_of_eq rfl (MatchManager.items_confirm pairId pid)
      refine hconfirm.trans (Shrinks.trans ?_ (shrinks_checkMatchAllConfirmed _ _ _ _))
      unfold recordCompleted
      split
      · exact shrinks_of_eq rfl rfl
      · exact Shrinks.refl _
    · exact shrinks_dismiss mp

theorem shrinks_dismissPairOnPlayeroffline (pid : PlayerId) :
    c.Shrinks (c.dismissPairOnPlayeroffline pid) := by
  unfold dismissPairOnPlayeroffline
  split
  · split
    · exact Shrinks.refl c
    · next mp hmp => exact (shrinks_dismiss mp).trans (shrinks_of_eq rfl rfl)
  · split
    · exact Shrinks.refl c
    · exact shrinks_matching (MatchManager.items_removeFrom _ _)

theorem shrinks_removePlayer (pid : PlayerId) : c.Shrinks (c.removePlayer pid) := by
  unfold removePlayer
  split
  · exact Shrinks.refl c
  · next id hid =>
    split
    · exact Shrinks.refl c
    · next info hinfo =>
      have hstatus : c.Shrinks { c with teams := c.teams.setStatus id 0 } :=
        shrinks_teams (TeamManager.shrinks_setStatus id 0)
      have hdismiss := hstatus.trans (shrinks_dismissPairOnPlayeroffline pid)
      dsimp only
      split
      · exact hdismiss.trans (shrinks_removeTeam id)
      · exact hdismiss.trans (shrinks_teams ((TeamManager.shrinks_removeMember info pid).trans
          (TeamManager.shrinks_deletePlayerTeamids [pid])))

/-! ## The periodic update -/

/-- A pool after its `do_match`. -/
def matched (pool : Pool) (tick : Nat) : Pool :=
  { pool with lastTick := tick, teamMatch := pool.teamMatch.doMatch.pool }

/-- A checker after a `do_match` that has not raised. -/
def formPairs (c : Checker) (pool : Pool) : Checker :=
  let formed := c.pushTeamPairs pool.teamMatch.doMatch.res
  { formed with
    matching := pool.teamMatch.doMatch.res.foldl
      (MatchManager.formPair formed.teams.arrays (matched pool c.matching.tick)) c.matching }

/-- Induction over the pools of an `update`: the first pool raises, is matched,
or is not due. -/
theorem updatePools_induct {P : Checker → List Pool → Checker × List Pool × Bool → Prop}
    (hnil : ∀ c, P c [] (c, [], false))
    (hraised : ∀ c pool pools, pool.teamMatch.doMatch.raised = true →
      P c (pool :: pools) (c.pushTeamPairs pool.teamMatch.doMatch.res,
        matched pool c.matching.tick :: pools, true))
    (hmatched : ∀ c pool pools rest, pool.teamMatch.doMatch.raised = false →
      P (c.formPairs pool) pools rest →
        P c (pool :: pools) (rest.1, matched pool c.matching.tick :: rest.2.1, rest.2.2))
    (hwaiting : ∀ c pool pools rest, P c pools rest →
      P c (pool :: pools) (rest.1, pool :: rest.2.1, rest.2.2))
    (c : Checker) (pools : List Pool) : P c pools (c.updatePools pools) := by
  induction pools generalizing c with
  | nil => exact hnil c
  | cons pool pools ih =>
      unfold updatePools
      split
      · dsimp only
        split
        · next hround => exact hraised c pool pools hround
        · next hround =>
          exact hmatched c pool pools _ (by simpa using hround) (ih (c.formPairs pool))
      · exact hwaiting c pool pools _ (ih c)

/-- The checker when `update` comes to the pools. -/
def ticked (c : Checker) : Checker :=
  { c with matching := { c.matching with tick := c.matching.tick + 1 } }

/-- The checker when `update` has gone through the pools. -/
def matchedPools (c : Checker) : Checker :=
  let rest := c.ticked.updatePools c.matching.pools
  { rest.1 with matching := { rest.1.matching with pools := rest.2.1 } }

/-- What has raised skips the timeouts. -/
theorem update_cases (c : Checker) :
    c.update = c.matchedPools ∨
      c.update = { c.matchedPools with matching := c.matchedPools.matching.checkTimeout } := by
  unfold update
  dsimp only
  split
  · exact .inl rfl
  · exact .inr rfl

/-- `update` over some pools: the teams shrink, and what is in these pools and
in the pairs was there before. -/
theorem updatePools_shrinks (pools : List Pool) :
    c.teams.Shrinks (c.updatePools pools).1.teams ∧
      (((c.updatePools pools).2.1.flatMap fun pool => pool.teamMatch.items) ++
        (c.updatePools pools).1.matching.pairItems).Subperm
          ((pools.flatMap fun pool => pool.teamMatch.items) ++ c.matching.pairItems) := by
  refine updatePools_induct (P := fun c pools rest => c.teams.Shrinks rest.1.teams ∧
    ((rest.2.1.flatMap fun pool => pool.teamMatch.items) ++ rest.1.matching.pairItems).Subperm
      ((pools.flatMap fun pool => pool.teamMatch.items) ++ c.matching.pairItems))
    ?_ ?_ ?_ ?_ c pools
  · exact fun c => ⟨TeamManager.Shrinks.refl _, List.Subperm.refl _⟩
  · intro c pool pools _
    -- what the raising `do_match` has taken is lost
    refine ⟨TeamManager.shrinks_setStatuses _ 2, (List.subperm_append_right _).mpr ?_⟩
    rw [List.flatMap_cons, List.flatMap_cons]
    refine (List.subperm_append_right _).mpr ?_
    exact (List.sublist_append_left _ _).subperm.trans pool.teamMatch.doMatch_subperm
  · rintro c pool pools rest _ ⟨hteams, hrest⟩
    have hmatch := pool.teamMatch.doMatch_subperm
    have hformed : (c.formPairs pool).matching.pairItems.Subperm
        (pool.teamMatch.doMatch.res.flatMap Pair.tms ++ c.matching.pairItems) :=
      MatchManager.pairItems_formPairs _ _ _
    refine ⟨(TeamManager.shrinks_setStatuses _ 2).trans hteams, ?_⟩
    simp only [List.flatMap_cons, List.append_assoc]
    -- the items of the first pool go to its queues and to the new pairs
    calc
      pool.teamMatch.doMatch.pool.items ++
        ((rest.2.1.flatMap fun pool => pool.teamMatch.items) ++ rest.1.matching.pairItems)
      _ |>.Subperm (pool.teamMatch.doMatch.pool.items ++
          ((pools.flatMap fun pool => pool.teamMatch.items) ++
            (c.formPairs pool).matching.pairItems)) := (List.subperm_append_left _).mpr hrest
      _ |>.Subperm (pool.teamMatch.doMatch.pool.items ++
          ((pools.flatMap fun pool => pool.teamMatch.items) ++
            (pool.teamMatch.doMatch.res.flatMap Pair.tms ++ c.matching.pairItems))) :=
          (List.subperm_append_left _).mpr ((List.subperm_append_left _).mpr hformed)
      _ |>.Subperm ((pool.teamMatch.doMatch.pool.items ++
          pool.teamMatch.doMatch.res.flatMap Pair.tms) ++
            ((pools.flatMap fun pool => pool.teamMatch.items) ++ c.matching.pairItems)) := by
          rw [List.append_assoc]
          refine (List.subperm_append_left _).mpr (List.Perm.subperm ?_)
          rw [← List.append_assoc, ← List.append_assoc]
          exact List.perm_append_comm.append_right _
      _ |>.Subperm (pool.teamMatch.items ++
          ((pools.flatMap fun pool => pool.teamMatch.items) ++ c.matching.pairItems)) :=
          (List.subperm_append_right _).mpr hmatch
  · rintro c pool pools rest ⟨hteams, hrest⟩
    refine ⟨hteams, ?_⟩
    simp only [List.flatMap_cons, List.append_assoc]
    exact (List.subperm_append_left _).mpr hrest

theorem shrinks_update : c.Shrinks c.update := by
  have hpools := @updatePools_shrinks c.ticked c.matching.pools
  rcases update_cases c with heq | heq
  · rw [heq]
    exact ⟨hpools.1, hpools.2⟩
  · rw [heq]
    exact ⟨hpools.1, MatchManager.items_checkTimeout.trans hpools.2⟩

end Checker
end Match
end ArmyRs
