import ArmyRs.Match.ArrayOwners

/-!
# Nobody is matched twice at a time

`Exclusive` says of a checker that no team and no player is in two pools, in a
pool and a live pair, or in two live pairs.  The pools take a request of a team
that already waits elsewhere, and nothing looks whether a player is in two
teams, so `Exclusive` holds of a run whose requests and joins meet `Meets`
(`exclusive_of_run`): the players and the team of a request are nowhere else at
that moment, and who joins a team that waits is nowhere else either.

The invariant is `Sound`.  Any two items of the pools and the live pairs are
apart, and an array belongs to one team, so that a joining player changes one
item only.
-/

namespace ArmyRs
namespace Match

open Foundation

/-- Two items of different teams without a common player. -/
structure Separate (arrays : Arrays) (item other : Item) : Prop where
  teams : item.teamId ≠ other.teamId
  players : ∀ pid ∈ arrays.pids item.membersInfo, pid ∉ arrays.pids other.membersInfo

theorem Separate.symm {arrays : Arrays} {item other : Item} (h : Separate arrays item other) :
    Separate arrays other item :=
  ⟨h.teams.symm, fun pid hother hitem => h.players pid hitem hother⟩

instance (arrays : Arrays) (item other : Item) : Decidable (Separate arrays item other) :=
  decidable_of_iff (item.teamId ≠ other.teamId ∧
      ∀ pid ∈ arrays.pids item.membersInfo, pid ∉ arrays.pids other.membersInfo)
    ⟨fun h => ⟨h.1, h.2⟩, fun h => ⟨h.teams, h.players⟩⟩

/-- The items of each pool and of each live pair. -/
def Checker.places (c : Checker) : List (List Item) :=
  (c.matching.pools.map fun pool => pool.teamMatch.items) ++
    c.matching.matchedPairs.map fun mp => mp.pair.tms

/-- No team and no player is in two pools, in a pool and a live pair, or in two
live pairs. -/
def Checker.Exclusive (c : Checker) : Prop :=
  c.places.Pairwise fun place other =>
    ∀ item ∈ place, ∀ otherItem ∈ other, Separate c.teams.arrays item otherItem

instance (c : Checker) : Decidable c.Exclusive :=
  inferInstanceAs (Decidable (List.Pairwise _ _))

/-- The pool that a request goes to, when it is accepted. -/
def Checker.acceptedBy (profiles : List PoolProfile) (c : Checker) (info : TeamInfo)
    (zone mtype ctype : Nat) (closed : Bool) : Option Pool :=
  match (c.requestPool profiles info mtype ctype closed).bind (c.matching.findPool zone) with
  | none => none
  | some found =>
      if c.teams.membercount info ∈ found.teamMatch.groups then some found else none

/-- What waits or is paired besides the request of a team in a pool. -/
def Checker.itemsBeside (c : Checker) (id : Nat) (found : Pool) : List Item :=
  (c.matching.setPool { found with teamMatch := found.teamMatch.removeTeam id }).items

/-- A request that is accepted is of a team, and with players, that are in no
other pool, in no pair, and in no other request of the same pool.  A player who
joins a team that waits or is paired is nowhere else. -/
def Meets (profiles : List PoolProfile) (c : Checker) : Event → Prop
  | .matchRequest id zone mtype ctype closed =>
      ∀ info ∈ c.teams.teamInfos id,
        ∀ found ∈ c.acceptedBy profiles info zone mtype ctype closed,
          ∀ item ∈ c.itemsBeside id found,
            Separate c.teams.arrays item ⟨id, info.membersInfo⟩
  | .joinTeam id pid _ =>
      ∀ info ∈ c.teams.teamInfos id,
        c.teams.canJoin info pid = true → c.teams.membercount info ≠ 5 →
          (∃ item ∈ c.matching.items, item.membersInfo = info.membersInfo) →
            ∀ item ∈ c.matching.items, pid ∉ c.teams.arrays.pids item.membersInfo
  | _ => True

instance (profiles : List PoolProfile) (c : Checker) :
    (event : Event) → Decidable (Meets profiles c event)
  | .matchRequest id zone mtype ctype closed =>
      inferInstanceAs (Decidable (∀ info ∈ c.teams.teamInfos id,
        ∀ found ∈ c.acceptedBy profiles info zone mtype ctype closed,
          ∀ item ∈ c.itemsBeside id found,
            Separate c.teams.arrays item ⟨id, info.membersInfo⟩))
  | .joinTeam id pid _ =>
      inferInstanceAs (Decidable (∀ info ∈ c.teams.teamInfos id,
        c.teams.canJoin info pid = true → c.teams.membercount info ≠ 5 →
          (∃ item ∈ c.matching.items, item.membersInfo = info.membersInfo) →
            ∀ item ∈ c.matching.items, pid ∉ c.teams.arrays.pids item.membersInfo))
  | .createTeam .. | .removeTeam .. | .leaveTeam .. | .kickMember .. | .teamMemberReady ..
  | .matchCancel .. | .matchConfirm .. | .removePlayer .. | .update =>
      inferInstanceAs (Decidable True)

/-! ## The invariant -/

structure Sound (c : Checker) : Prop where
  apart : c.matching.items.Pairwise (Separate c.teams.arrays)
  owned : ∃ owner, Owned c owner

variable {profiles : List PoolProfile} {c next : Checker}

theorem Sound.exclusive (hsound : Sound c) : c.Exclusive := by
  have hapart := hsound.apart
  have hitems : c.matching.items = c.places.flatten := by
    unfold MatchManager.items MatchManager.poolItems MatchManager.pairItems Checker.places
    rw [List.flatten_append, List.flatMap_def, List.flatMap_def]
  rw [hitems] at hapart
  exact (List.pairwise_flatten.mp hapart).2

/-- What only takes away keeps the items apart. -/
theorem Sound.shrink (hsound : Sound c) (hshrinks : c.Shrinks next) :
    next.matching.items.Pairwise (Separate next.teams.arrays) := by
  have hpairs := pairwise_of_subperm (fun _ _ h => Separate.symm h) hshrinks.items hsound.apart
  refine hpairs.imp fun h => ⟨h.teams, ?_⟩
  intro pid hpid hother
  exact h.players pid (hshrinks.teams.pids _ pid hpid) (hshrinks.teams.pids _ pid hother)

/-- A new team has an array that no item has. -/
theorem Sound.newTeam (hsound : Sound c) (pid : PlayerId) (score teamType : Int) :
    c.matching.items.Pairwise (Separate (c.teams.newTeam pid score teamType).arrays) := by
  obtain ⟨owner, howned⟩ := hsound.owned
  have hold : ∀ item ∈ c.matching.items,
      (c.teams.newTeam pid score teamType).arrays.pids item.membersInfo =
        c.teams.arrays.pids item.membersInfo := by
    intro item hitem
    have hne : item.membersInfo ≠ c.teams.nextRef := (howned.items item hitem).1.ne
    show (Function.update c.teams.arrays c.teams.nextRef _ item.membersInfo).map Member.pid = _
    rw [Function.update_of_ne hne]
    rfl
  refine hsound.apart.imp_of_mem fun {item other} hitem hother h => ⟨h.teams, ?_⟩
  rw [hold item hitem, hold other hother]
  exact h.players

theorem Sound.addMember {id : Nat} {pid : PlayerId} {score : Int} {info : TeamInfo}
    (hsound : Sound c) (hinfo : c.teams.teamInfos id = some info)
    (hjoin : c.teams.canJoin info pid = true)
    (hmeets : Meets profiles c (.joinTeam id pid score)) :
    c.matching.items.Pairwise (Separate (c.teams.addMember id info pid score).arrays) := by
  obtain ⟨owner, howned⟩ := hsound.owned
  refine hsound.apart.imp_of_mem fun {item other} hitem hother h => ⟨h.teams, ?_⟩
  intro player hplayer hplayerOther
  -- only one of the two items can have the array of the team
  rcases mem_pids_addMember hplayer with hold | ⟨rfl, href, hcount⟩
  · rcases mem_pids_addMember hplayerOther with holdOther | ⟨rfl, href, hcount⟩
    · exact h.players player hold holdOther
    · exact hmeets info hinfo hjoin hcount ⟨other, hother, href⟩ item hitem hold
  · rcases mem_pids_addMember hplayerOther with holdOther | ⟨-, hrefOther, -⟩
    · exact hmeets info hinfo hjoin hcount ⟨item, hitem, href⟩ other hother holdOther
    · have hsame : item.teamId = other.teamId := by
        rw [← (howned.items item hitem).2, ← (howned.items other hother).2, href, hrefOther]
      exact h.teams hsame

/-! ## A request -/

/-- Without the request of a team in one pool, nothing is new. -/
theorem itemsBeside_subperm {id zone poolId : Nat} {found : Pool}
    (hfound : c.matching.findPool zone poolId = some found) :
    (c.itemsBeside id found).Subperm c.matching.items := by
  obtain ⟨rest, hperm, hset⟩ := items_setPool hfound
  unfold Checker.itemsBeside
  refine (hset _).subperm.trans (List.Subperm.trans ?_ hperm.symm.subperm)
  rw [TeamMatch.items_removeTeam]
  exact (List.subperm_append_right _).mpr List.filter_sublist.subperm

/-- When a request is accepted, and by which pool. -/
theorem acceptedBy_of_addTeam {info : TeamInfo} {id zone mtype ctype : Nat} {closed : Bool}
    (hadded : (c.matching.addTeam id zone (c.requestPool profiles info mtype ctype closed)
      info.membersInfo (c.teams.arrays.pids info.membersInfo)).2 = true) :
    ∃ poolId found, c.requestPool profiles info mtype ctype closed = some poolId ∧
      c.matching.findPool zone poolId = some found ∧
      (found.teamMatch.addTeam id info.membersInfo
        (c.teams.arrays.pids info.membersInfo).length).2 = true ∧
      c.acceptedBy profiles info zone mtype ctype closed = some found := by
  unfold MatchManager.addTeam at hadded
  split at hadded
  · cases hadded
  · next found hfound =>
    obtain ⟨poolId, hpoolId, hkey⟩ := Option.bind_eq_some_iff.mp hfound
    dsimp only at hadded
    split at hadded
    · next haccepted =>
      refine ⟨poolId, found, hpoolId, hkey, haccepted, ?_⟩
      unfold Checker.acceptedBy
      rw [hfound]
      rw [addTeam_snd, decide_eq_true_eq] at haccepted
      dsimp only
      rw [if_pos]
      unfold TeamManager.membercount
      rwa [Arrays.pids, List.length_map] at haccepted
    · cases hadded

theorem Sound.request {id zone mtype ctype : Nat} {closed : Bool} {info : TeamInfo}
    (hsound : Sound c) (hinfo : c.teams.teamInfos id = some info)
    (hadded : (c.matching.addTeam id zone (c.requestPool profiles info mtype ctype closed)
      info.membersInfo (c.teams.arrays.pids info.membersInfo)).2 = true)
    (hmeets : Meets profiles c (.matchRequest id zone mtype ctype closed)) :
    (c.matching.addTeam id zone (c.requestPool profiles info mtype ctype closed)
      info.membersInfo (c.teams.arrays.pids info.membersInfo)).1.items.Pairwise
        (Separate c.teams.arrays) := by
  obtain ⟨poolId, found, hpoolId, hfound, haccepted, hby⟩ := acceptedBy_of_addTeam hadded
  rw [hpoolId]
  have hitems := items_addTeam_accepted hfound haccepted
  have hbeside := hmeets info hinfo found hby
  have hsub : (c.itemsBeside id found).Subperm c.matching.items := itemsBeside_subperm hfound
  refine (hitems.pairwise_iff fun h => Separate.symm h).mpr ?_
  rw [List.pairwise_append]
  refine ⟨pairwise_of_subperm (fun _ _ h => Separate.symm h) hsub hsound.apart,
    List.pairwise_singleton _ _, ?_⟩
  intro item hitem other hother
  cases List.mem_singleton.mp hother
  exact hbeside item hitem

/-! ## Runs -/

theorem sound_initial (profiles : List PoolProfile) (zones : List Nat)
    (random : Nat → Nat → Nat) (maxTeamid : Option Nat) :
    Sound (initial profiles zones random maxTeamid) := by
  refine ⟨?_, _, owned_initial profiles zones random maxTeamid⟩
  rw [items_initial]
  exact List.Pairwise.nil

/-- A step that meets the condition keeps the invariant. -/
theorem sound_step {event : Event} (hsound : Sound c) (hmeets : Meets profiles c event)
    (hstep : step profiles c event = some next) : Sound next := by
  refine ⟨?_, owned_step hsound.owned hstep⟩
  rcases step_adds hstep with hshrinks |
    ⟨pid, score, teamType, removed, -, hremoved, rfl⟩ |
    ⟨id, pid, score, info, rfl, hinfo, hjoin, rfl⟩ |
    ⟨id, zone, mtype, ctype, closed, info, rfl, hinfo, hadded, rfl⟩
  · exact hsound.shrink hshrinks
  · have hshrinks := shrinks_of_createTeam hremoved
    obtain ⟨owner, howned⟩ := hsound.owned
    have hsoundRemoved : Sound removed :=
      ⟨hsound.shrink hshrinks, owner, howned.shrink hshrinks⟩
    exact hsoundRemoved.newTeam pid score teamType
  · exact hsound.addMember hinfo hjoin hmeets
  · have hrequest : Sound { c with
        matching := (c.matching.addTeam id zone (c.requestPool profiles info mtype ctype closed)
          info.membersInfo (c.teams.arrays.pids info.membersInfo)).1 } := by
      obtain ⟨owner, howned⟩ := hsound.owned
      exact ⟨hsound.request hinfo hadded hmeets, owner, howned.request hinfo⟩
    -- the status of the team does not matter
    exact hrequest.shrink (Checker.shrinks_teams (TeamManager.shrinks_setStatus id 1))

/-- In a run whose requests and joins meet the condition, nobody is matched
twice at a time. -/
theorem exclusive_of_run {zones : List Nat} {random : Nat → Nat → Nat} {maxTeamid : Option Nat}
    {events : List Event}
    (hrun : Run (step profiles) (Meets profiles) (initial profiles zones random maxTeamid)
      events c) : c.Exclusive :=
  Sound.exclusive (hrun.invariant (sound_initial profiles zones random maxTeamid)
    fun _ _ _ hsound hmeets hstep => sound_step hsound hmeets hstep)

/-- The condition is met while two players are matched. -/
theorem exclusive_singlesPaired :
    ((exec (step singlesAndDoubles) (Meets singlesAndDoubles) emptyChecker
      singlesPaired).getD emptyChecker).Exclusive := by
  have hrun : Run (step singlesAndDoubles) (Meets singlesAndDoubles) emptyChecker singlesPaired
      ((exec (step singlesAndDoubles) (Meets singlesAndDoubles) emptyChecker
        singlesPaired).getD emptyChecker) :=
    run_exec_getD emptyChecker (by decide +kernel)
  exact exclusive_of_run hrun

/-- A player asks for a 1v1 and then for a 2v2. -/
def twoRequests : List Event :=
  [.createTeam 7 1000 0, .matchRequest 1 1 1 0 false, .matchRequest 1 1 1 1 false]

/-- Without the condition a team waits in two pools. -/
theorem not_exclusive_twoRequests :
    ¬ ∀ events c, Run (step singlesAndDoubles) free emptyChecker events c → c.Exclusive := by
  intro h
  have hrun : Run (step singlesAndDoubles) free emptyChecker twoRequests
      ((exec (step singlesAndDoubles) free emptyChecker twoRequests).getD emptyChecker) :=
    run_exec_getD emptyChecker (by decide +kernel)
  exact absurd (h _ _ hrun) (by decide +kernel)

end Match
end ArmyRs
