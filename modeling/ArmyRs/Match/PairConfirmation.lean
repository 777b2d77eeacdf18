import ArmyRs.Match.PairPresence

/-!
# The confirmation of a pair

`Honoured` is what the confirmation of pairs is for: a room is created only for
a pair that all players it was formed with have confirmed, and a pair that they
all confirm while a combat server is available gets exactly one combat, with
exactly these players, and is gone.

`check_match_all_confirmed` looks at the members the teams have now, so a pair
that has lost a member gets to the creation of the room without the missing
player.  As long as nobody departs who has not confirmed, everyone is asked.

The creation of the room always raises, since `gen_room_id` has one parameter and
is called with three arguments.  So no combat is ever started, however a pair was
confirmed.
-/

namespace ArmyRs
namespace Match

open Foundation

/-- The creation of the room is reached only for a pair that all players it was
formed with have confirmed. -/
def Checker.Confirmed (c : Checker) : Prop :=
  ∀ mp ∈ c.history.created, ∀ pid ∈ mp.formed, pid ∈ mp.confirms

instance (c : Checker) : Decidable c.Confirmed :=
  inferInstanceAs (Decidable (∀ mp ∈ c.history.created, ∀ pid ∈ mp.formed, pid ∈ mp.confirms))

/-- One combat was started for the pair, with exactly its players, and the pair is
gone. -/
def Checker.Fought (c : Checker) (mp : MatchedPair) : Prop :=
  (∃ pids : List PlayerId, pids.Perm mp.formed ∧
    c.history.started.filter (fun combat => combat.serial = mp.serial) =
      [⟨mp.serial, pids⟩]) ∧
    ∀ live ∈ c.matching.matchedPairs, live.serial ≠ mp.serial

/-- A room is created only for a pair that all its players have confirmed, and
a pair that they have all confirmed while a server is available is started
exactly once, with exactly its players, and removed. -/
structure Honoured (c : Checker) : Prop where
  created : c.Confirmed
  completed : ∀ mp ∈ c.history.completed, c.Fought mp

variable {profiles : List PoolProfile} {c next : Checker}

/-! ## What raises -/

/-- No room is ever created. -/
theorem createRoom_eq_none (profiles : List PoolProfile) (mp : MatchedPair) (now : Nat) :
    Checker.createRoom profiles mp now = none := by
  unfold Checker.createRoom
  split
  · rfl
  · next profile hprofile => rfl

/-- Hence `check_match_all_confirmed` does nothing but come to it. -/
theorem checkMatchAllConfirmed_eq (mp : MatchedPair) (server : Bool) (now : Nat) :
    c.checkMatchAllConfirmed profiles mp server now =
      if c.allConfirmed mp then
        { c with history := { c.history with created := c.history.created ++ [mp] } }
      else c := by
  unfold Checker.checkMatchAllConfirmed
  rw [createRoom_eq_none]

/-! ## What is recorded -/

theorem history_doRemoveTeam {id : Nat} (hnext : c.doRemoveTeam id = some next) :
    next.history = c.history := by
  unfold Checker.doRemoveTeam at hnext
  split at hnext
  · cases hnext
  · cases hnext
    rfl

theorem history_removeTeam (id : Nat) : (c.removeTeam id).history = c.history := by
  unfold Checker.removeTeam
  cases hremoved : c.doRemoveTeam id with
  | none => rfl
  | some next => exact history_doRemoveTeam hremoved

theorem history_createTeam (pid : PlayerId) (score teamType : Int) :
    (c.createTeam pid score teamType).history = c.history := by
  unfold Checker.createTeam
  split
  · rfl
  · dsimp only
    split
    · rfl
    · next removed hremoved =>
      show removed.history = c.history
      split at hremoved
      · cases hremoved
        rfl
      · exact history_doRemoveTeam hremoved

theorem history_joinTeam (id : Nat) (pid : PlayerId) (score : Int) :
    (c.joinTeam id pid score).history = c.history := by
  unfold Checker.joinTeam
  split
  · rfl
  · split <;> rfl

theorem history_leaveTeam (id : Nat) (pid : PlayerId) :
    (c.leaveTeam id pid).history = c.history := by
  unfold Checker.leaveTeam
  split
  · rfl
  · dsimp only
    split
    · exact history_removeTeam id
    · rfl

theorem history_kickMember (id : Nat) (kickedPid : PlayerId) :
    (c.kickMember id kickedPid).history = c.history := by
  unfold Checker.kickMember
  split
  · rfl
  · split <;> rfl

theorem history_teamMemberReady (id : Nat) (pid : PlayerId) (ready : Bool) :
    (c.teamMemberReady id pid ready).history = c.history := by
  unfold Checker.teamMemberReady
  split <;> rfl

theorem history_matchRequest (id zone mtype ctype : Nat) (closed : Bool) :
    (c.matchRequest profiles id zone mtype ctype closed).history = c.history := by
  unfold Checker.matchRequest
  split
  · rfl
  · dsimp only
    split <;> rfl

theorem history_matchCancel (id poolid : Nat) :
    (c.matchCancel id poolid).history = c.history := by
  unfold Checker.matchCancel
  split <;> rfl

theorem history_dismissPairOnPlayeroffline (pid : PlayerId) :
    (c.dismissPairOnPlayeroffline pid).history = c.history := by
  unfold Checker.dismissPairOnPlayeroffline
  split
  · split <;> rfl
  · split <;> rfl

theorem history_removePlayer (pid : PlayerId) : (c.removePlayer pid).history = c.history := by
  unfold Checker.removePlayer
  split
  · rfl
  · split
    · rfl
    · dsimp only
      split
      · exact (history_removeTeam _).trans (history_dismissPairOnPlayeroffline pid)
      · exact history_dismissPairOnPlayeroffline pid

theorem history_updatePools (pools : List Pool) :
    (c.updatePools pools).1.history = c.history := by
  induction pools generalizing c with
  | nil => rfl
  | cons pool pools ih =>
      unfold Checker.updatePools
      split
      · dsimp only
        split
        · rfl
        · exact ih
      · exact ih

theorem history_update : c.update.history = c.history := by
  have hpools : (Checker.updatePools { c with
      matching := { c.matching with tick := c.matching.tick + 1 } } c.matching.pools).1.history =
        c.history := history_updatePools c.matching.pools
  unfold Checker.update
  dsimp only
  split <;> exact hpools

/-- What a confirmation of a live pair records. -/
theorem history_confirm {pairId : Nat} {pid : PlayerId} {server : Bool} {now : Nat}
    {mp : MatchedPair} (hmp : c.matching.findPair pairId = some mp) :
    (c.comfirmMatchPair profiles pairId pid true server now).history =
      { created := c.history.created ++
          (if ∀ other ∈ c.teams.arrays.pairPids mp.pair, other ∈ mp.confirms.insert pid then
            [{ mp with confirms := mp.confirms.insert pid }] else [])
        completed := c.history.completed ++
          (if server = true ∧ ∀ other ∈ mp.formed, other ∈ mp.confirms.insert pid then
            [{ mp with confirms := mp.confirms.insert pid }] else [])
        started := c.history.started } := by
  unfold Checker.comfirmMatchPair
  rw [hmp]
  dsimp only
  rw [if_pos rfl, checkMatchAllConfirmed_eq]
  unfold Checker.recordCompleted Checker.allConfirmed
  simp only [List.all_eq_true, decide_eq_true_eq]
  split <;> split <;> simp_all

/-- What the other commands record: nothing. -/
theorem history_step {event : Event} (hstep : step profiles c event = some next)
    (hother : ∀ pairId pid server now, event ≠ .matchConfirm pairId pid true server now) :
    next.history = c.history := by
  cases event with
  | createTeam pid score teamType =>
      cases hstep
      exact history_createTeam pid score teamType
  | removeTeam id =>
      cases hstep
      exact history_removeTeam id
  | joinTeam id pid score =>
      cases hstep
      exact history_joinTeam id pid score
  | leaveTeam id pid =>
      cases hstep
      exact history_leaveTeam id pid
  | kickMember id kickedPid =>
      cases hstep
      exact history_kickMember id kickedPid
  | teamMemberReady id pid ready =>
      cases hstep
      exact history_teamMemberReady id pid ready
  | matchRequest id zone mtype ctype closed =>
      cases hstep
      exact history_matchRequest id zone mtype ctype closed
  | matchCancel id poolid =>
      cases hstep
      exact history_matchCancel id poolid
  | matchConfirm pairId pid ok server now =>
      cases hstep
      -- only a confirmation is recorded, not a refusal
      cases ok with
      | true => exact absurd rfl (hother pairId pid server now)
      | false =>
          unfold Checker.comfirmMatchPair
          split <;> rfl
  | removePlayer pid =>
      cases hstep
      exact history_removePlayer pid
  | update =>
      cases hstep
      exact history_update

/-- A step records nothing, or it is a confirmation of a live pair. -/
theorem step_cases {event : Event} (hstep : step profiles c event = some next) :
    next.history = c.history ∨
      ∃ pairId pid server now mp, event = .matchConfirm pairId pid true server now ∧
        c.matching.findPair pairId = some mp ∧
        next = c.comfirmMatchPair profiles pairId pid true server now := by
  by_cases hconfirm : ∃ pairId pid server now, event = .matchConfirm pairId pid true server now
  · obtain ⟨pairId, pid, server, now, rfl⟩ := hconfirm
    cases hstep
    cases hmp : c.matching.findPair pairId with
    | none =>
        left
        unfold Checker.comfirmMatchPair
        rw [hmp]
    | some mp => exact Or.inr ⟨pairId, pid, server, now, mp, rfl, hmp, rfl⟩
  · left
    exact history_step hstep fun pairId pid server now heq =>
      hconfirm ⟨pairId, pid, server, now, heq⟩

/-! ## The creation of the room -/

/-- Everyone who is there is asked, and whoever is not there has confirmed
before. -/
theorem confirmed_step {event : Event} (hconfirmed : c.Confirmed) (hmanned : c.Manned)
    (hstep : step profiles c event = some next) : next.Confirmed := by
  unfold Checker.Confirmed
  rcases step_cases hstep with hhistory | ⟨pairId, pid, server, now, mp, rfl, hmp, rfl⟩
  · rw [hhistory]
    exact hconfirmed
  · rw [history_confirm hmp]
    intro created hcreated
    rcases List.mem_append.mp hcreated with hold | hnew
    · exact hconfirmed created hold
    · split at hnew
      · next hall =>
        rw [List.mem_singleton.mp hnew]
        intro other hother
        rcases hmanned mp (List.mem_of_find?_eq_some hmp) other hother with hpresent | hbefore
        · exact hall other hpresent
        · exact List.mem_insert_of_mem hbefore
      · cases hnew

/-! ## Missing players -/

/-- What a confirmation of a live pair changes in the pairs. -/
theorem matching_confirm {pairId : Nat} {pid : PlayerId} {server : Bool} {now : Nat}
    {mp : MatchedPair} (hmp : c.matching.findPair pairId = some mp) :
    (c.comfirmMatchPair profiles pairId pid true server now).matching =
      c.matching.confirm pairId pid := by
  unfold Checker.comfirmMatchPair
  rw [hmp]
  dsimp only
  rw [if_pos rfl, checkMatchAllConfirmed_eq]
  split <;> exact Checker.matching_recordCompleted _ _

theorem findPair_confirm {m : MatchManager} {pairId : Nat} {mp : MatchedPair}
    (hmp : m.findPair pairId = some mp) (pid : PlayerId) :
    (m.confirm pairId pid).findPair pairId =
      some { mp with confirms := mp.confirms.insert pid } := by
  have hid : mp.pairId = pairId := of_decide_eq_true
    (List.find?_some (p := fun mp : MatchedPair => decide (mp.pairId = pairId)) hmp)
  unfold MatchManager.findPair MatchManager.confirm at *
  rw [List.find?_map]
  have hkey : ((fun mp : MatchedPair => decide (mp.pairId = pairId)) ∘ fun mp =>
      if mp.pairId = pairId then { mp with confirms := mp.confirms.insert pid } else mp) =
        fun mp => decide (mp.pairId = pairId) := by
    funext other
    dsimp only [Function.comp]
    split <;> rfl
  rw [hkey, hmp, Option.map_some, if_pos hid]

/-- Some players confirm a live pair, one after the other. -/
theorem run_confirmations {pairId : Nat} (pids : List PlayerId) :
    ∀ (c : Checker) (mp : MatchedPair), c.matching.findPair pairId = some mp →
      ∃ next mp', Run (step profiles) Stays c
          (pids.map fun pid => .matchConfirm pairId pid true false 0) next ∧
        next.teams = c.teams ∧ next.matching.findPair pairId = some mp' ∧
        mp'.pair = mp.pair ∧ mp'.formed = mp.formed ∧
        ∀ pid, pid ∈ mp'.confirms ↔ pid ∈ pids ∨ pid ∈ mp.confirms := by
  induction pids with
  | nil =>
      intro c mp hmp
      exact ⟨c, mp, .refl, rfl, hmp, rfl, rfl, by simp⟩
  | cons first rest ih =>
      intro c mp hmp
      have hfirst : (c.comfirmMatchPair profiles pairId first true false 0).matching.findPair
          pairId = some { mp with confirms := mp.confirms.insert first } := by
        rw [matching_confirm hmp]
        exact findPair_confirm hmp first
      obtain ⟨next, mp', hrun, hteams, hfound, hpair, hformed, hconfirms⟩ := ih _ _ hfirst
      refine ⟨next, mp', .cons trivial rfl hrun, ?_, hfound, hpair, hformed, fun pid => ?_⟩
      · rw [hteams, Checker.teams_comfirmMatchPair]
      · rw [hconfirms, List.mem_insert_iff, List.mem_cons]
        tauto

/-- The condition cannot be weaker: a player of a live pair who is missing and has
not confirmed is passed over when the others confirm. -/
theorem exists_not_confirmed {pairId : Nat} {mp : MatchedPair} {pid : PlayerId}
    (hmp : c.matching.findPair pairId = some mp) (hformed : pid ∈ mp.formed)
    (hmissing : pid ∉ c.teams.arrays.pairPids mp.pair) (hunconfirmed : pid ∉ mp.confirms) :
    ∃ events next, Run (step profiles) Stays c events next ∧ ¬ next.Confirmed := by
  obtain ⟨last, found, hrun, hteams, hfound, hpair, hsame, hconfirms⟩ :=
    @run_confirmations profiles pairId (c.teams.arrays.pairPids mp.pair) c mp hmp
  -- a stranger confirms at the end, since there may be nobody left in the teams
  have hlast : step profiles last (.matchConfirm pairId (pid + 1) true false 0) =
      some (last.comfirmMatchPair profiles pairId (pid + 1) true false 0) := rfl
  refine ⟨_, _, .snoc hrun (by trivial) hlast, fun hconfirmed => ?_⟩
  have hall : ∀ other ∈ last.teams.arrays.pairPids found.pair,
      other ∈ found.confirms.insert (pid + 1) := by
    intro other hother
    rw [hteams, hpair] at hother
    exact List.mem_insert_of_mem ((hconfirms other).mpr (.inl hother))
  unfold Checker.Confirmed at hconfirmed
  rw [history_confirm hfound, if_pos hall] at hconfirmed
  have hpid := hconfirmed _ (List.mem_append_right _ (List.mem_singleton.mpr rfl)) pid
    (hsame ▸ hformed)
  rcases List.mem_insert_iff.mp hpid with heq | hmem
  · exact Nat.succ_ne_self pid heq.symm
  · rcases (hconfirms pid).mp hmem with hpresent | hbefore
    · exact hmissing hpresent
    · exact hunconfirmed hbefore

/-! ## Combats -/

/-- No combat is ever started. -/
theorem started_of_run {zones : List Nat} {random : Nat → Nat → Nat} {maxTeamid : Option Nat}
    {events : List Event}
    (hrun : Run (step profiles) free (initial profiles zones random maxTeamid) events c) :
    c.history.started = [] := by
  induction hrun with
  | refl => rfl
  | snoc _ _ hstep ih =>
      rcases step_cases hstep with hhistory | ⟨pairId, pid, server, now, mp, -, hmp, rfl⟩
      · rw [hhistory]
        exact ih
      · rw [history_confirm hmp]
        exact ih

theorem not_fought (hstarted : c.history.started = []) (mp : MatchedPair) : ¬ c.Fought mp := by
  rintro ⟨⟨pids, -, hfilter⟩, -⟩
  rw [hstarted] at hfilter
  cases hfilter

/-- In a run whose departures meet the condition a room is created only for a
pair that everyone has confirmed; and in no run is there a combat for a pair that
everyone has confirmed while a server was available. -/
theorem honoured_of_run {zones : List Nat} {random : Nat → Nat → Nat} {maxTeamid : Option Nat}
    {events : List Event}
    (hrun : Run (step profiles) free (initial profiles zones random maxTeamid) events c) :
    (Run (step profiles) Stays (initial profiles zones random maxTeamid) events c →
        c.Confirmed) ∧
      ∀ mp ∈ c.history.completed, ¬ c.Fought mp := by
  constructor
  · intro hmeets
    clear hrun
    induction hmeets with
    | refl => exact fun mp hmp => (nomatch hmp)
    | snoc hbefore _ hstep ih => exact confirmed_step ih (manned_of_run hbefore) hstep
  · exact fun mp _ => not_fought (started_of_run hrun) mp

/-- Both players of a pair confirm it while a server is available. -/
def bothConfirm : List Event :=
  singlesPaired ++ [.matchConfirm 1 7 true true 0, .matchConfirm 1 8 true true 0]

/-- The creation of a room is reached, and nobody has departed. -/
theorem honoured_bothConfirm :
    ((exec (step singlesAndDoubles) Stays emptyChecker bothConfirm).getD
        emptyChecker).Confirmed ∧
      ∀ mp ∈ ((exec (step singlesAndDoubles) Stays emptyChecker bothConfirm).getD
          emptyChecker).history.completed,
        ¬ ((exec (step singlesAndDoubles) Stays emptyChecker bothConfirm).getD
          emptyChecker).Fought mp := by
  have hmeets : Run (step singlesAndDoubles) Stays emptyChecker bothConfirm
      ((exec (step singlesAndDoubles) Stays emptyChecker bothConfirm).getD emptyChecker) :=
    run_exec_getD emptyChecker (by decide +kernel)
  have hrun : Run (step singlesAndDoubles) free emptyChecker bothConfirm _ :=
    hmeets.mono fun _ _ _ => trivial
  exact ⟨(honoured_of_run hrun).1 hmeets, (honoured_of_run hrun).2⟩

/-- One player of a pair leaves the own team, and the other confirms. -/
def leaverConfirmed : List Event :=
  singlesPaired ++ [.leaveTeam 2 8, .matchConfirm 1 7 true true 0]

/-- No combat is started for a pair that both players confirm, and a room is to
be created for a pair that one of its players has never confirmed. -/
theorem not_honoured_confirmed :
    (¬ ∀ events c, Run (step singlesAndDoubles) free emptyChecker events c → Honoured c) ∧
      ¬ ∀ events c, Run (step singlesAndDoubles) free emptyChecker events c → c.Confirmed := by
  constructor
  · intro h
    have hrun : Run (step singlesAndDoubles) free emptyChecker bothConfirm
        ((exec (step singlesAndDoubles) free emptyChecker bothConfirm).getD emptyChecker) :=
      run_exec_getD emptyChecker (by decide +kernel)
    have hcompleted : ((exec (step singlesAndDoubles) free emptyChecker bothConfirm).getD
        emptyChecker).history.completed ≠ [] := by decide +kernel
    obtain ⟨mp, hmp⟩ := List.exists_mem_of_ne_nil _ hcompleted
    exact not_fought (started_of_run hrun) mp ((h _ _ hrun).completed mp hmp)
  · intro h
    have hrun : Run (step singlesAndDoubles) free emptyChecker leaverConfirmed
        ((exec (step singlesAndDoubles) free emptyChecker leaverConfirmed).getD emptyChecker) :=
      run_exec_getD emptyChecker (by decide +kernel)
    exact absurd (h _ _ hrun) (by decide +kernel)

end Match
end ArmyRs
