import ArmyRs.Combat.FrameVotes

/-!
# The vote over the statistics of a combat

`compare_stat` compares nested tables one level deep.  The tables of the two
sides are made anew for every player, so the statistics of two players are never
the same to it: everybody has one vote, and the last one in the order of `pairs`
wins.  The result stays in a global variable of the room's Lua state, and the room
gets it again whenever it resolves later.

So a majority is only sure to win when all statistics are the same, or when the
room has resolved before with this result (`resolvesMajority_iff`).
-/

namespace ArmyRs
namespace Combat

open Foundation

/-! ## Statistics that are the same -/

def samePStat (pstat1 pstat2 : PStat) : Bool :=
  (pstat1.entries.all fun field => pstat2.lookup field.1 = some field.2) &&
    pstat2.entries.all fun field => pstat1.lookup field.1 = some field.2

def sameSide (side1 side2 : SideStat) : Bool :=
  decide (side1.side = side2.side ∧ side1.mvp = side2.mvp ∧
    side1.pstats.length = side2.pstats.length) &&
    (side1.pstats.zip side2.pstats).all fun pstats => samePStat pstats.1 pstats.2

/-- Structural equality: tables are compared by what they hold. -/
def sameStat (stat1 stat2 : CombatStat) : Bool :=
  decide (stat1.token = stat2.token ∧ stat1.mtype = stat2.mtype ∧ stat1.ctype = stat2.ctype ∧
    stat1.winner = stat2.winner ∧ stat1.duration = stat2.duration ∧
    stat1.begintime = stat2.begintime ∧ stat1.enterType = stat2.enterType ∧
    stat1.stats.length = stat2.stats.length) &&
    (stat1.stats.zip stat2.stats).all fun sides => sameSide sides.1 sides.2

/-- The statistics that a player's view leads to. -/
def StatModel.statOf (s : StatModel) (members : Members) (pid : Pid) : Option CombatStat :=
  match s.playerdata.lookup pid, s.totalData.lookup pid with
  | some view, some total => some (getCombatStat 0 members view total).2
  | _, _ => none

/-- The player's statistics are these. -/
def StatModel.Has (s : StatModel) (members : Members) (stat : CombatStat) (pid : Pid) : Prop :=
  ∃ own ∈ s.statOf members pid, sameStat own stat = true

instance (s : StatModel) (members : Members) (stat : CombatStat) (pid : Pid) :
    Decidable (s.Has members stat pid) :=
  inferInstanceAs (Decidable (∃ own ∈ s.statOf members pid, _))

/-- Whatever the order of `pairs`, the result of the room is this. -/
def ResolvesTo (s : StatModel) (members : Members) (stat : CombatStat) : Prop :=
  ∀ playerdataOrder cntlstOrder, playerdataOrder.Perm s.playerdata.keys →
    cntlstOrder.Perm s.playerdata.keys →
      ∃ s' sta, s.resolveCombatstat members playerdataOrder cntlstOrder = some (s', some sta) ∧
        sameStat sta stat = true

/-! ## The first loop -/

section

variable {s : StatModel} {members : Members} {pids : List Pid} {ref : Nat} {pid : Pid}
  {stalst : Table Pid CombatStat}

/-- The number of the first table of a player's statistics. -/
def CombatStat.firstRef (stat : CombatStat) : Option Nat :=
  (stat.stats[0]?).map SideStat.ref

/-- The tables of a player are its own. -/
theorem compareStat_of_firstRef {stat1 stat2 : CombatStat} (hthere : stat1.firstRef ≠ none)
    (hne : stat1.firstRef ≠ stat2.firstRef) : compareStat stat1 stat2 = false := by
  rw [← Bool.not_eq_true]
  intro h
  unfold compareStat at h
  rw [Bool.and_eq_true, List.all_eq_true] at h
  have hpos : 0 < stat1.stats.length := by
    apply Nat.pos_of_ne_zero
    intro hzero
    apply hthere
    unfold CombatStat.firstRef
    rw [List.length_eq_zero_iff.mp hzero]
    rfl
  exact hne (of_decide_eq_true (h.2 0 (List.mem_range.mpr hpos))).symm

/-- What the first loop computes: the statistics of each player, with tables that
no other player has. -/
structure Computed (s : StatModel) (members : Members) (pids : List Pid) (ref : Nat)
    (stalst : Table Pid CombatStat) : Prop where
  keys : ∀ pid, pid ∈ stalst ↔ pid ∈ pids
  stat : ∀ pid stat, stalst.lookup pid = some stat → ∃ view total r, ref ≤ r ∧
    s.playerdata.lookup pid = some view ∧ s.totalData.lookup pid = some total ∧
      stat = (getCombatStat r members view total).2
  apart : ∀ pid other stat stat', pid ≠ other → stalst.lookup pid = some stat →
    stalst.lookup other = some stat' → stat.firstRef ≠ stat'.firstRef

theorem firstRef_getCombatStat (ref : Nat) (members : Members) (view : PlayerData)
    (total : Total) : (getCombatStat ref members view total).2.firstRef = some ref := rfl

theorem computed_computeStats (hnodup : pids.Nodup)
    (hall : ∀ pid ∈ pids, pid ∈ s.playerdata ∧ pid ∈ s.totalData) (ref : Nat) :
    ∃ stalst, computeStats members s pids ref = some stalst ∧
      Computed s members pids ref stalst := by
  induction pids generalizing ref with
  | nil =>
      refine ⟨∅, rfl, ?_, ?_, ?_⟩
      · exact fun pid => ⟨fun h => absurd h (AList.notMem_empty pid),
          fun h => absurd h List.not_mem_nil⟩
      · exact fun pid stat h => nomatch h
      · exact fun pid other stat stat' _ h => nomatch h
  | cons pid pids ih =>
      rw [List.nodup_cons] at hnodup
      obtain ⟨stalst, hstalst, computed⟩ := ih hnodup.2
        (fun other hother => hall other (List.mem_cons_of_mem _ hother)) (ref + 2)
      obtain ⟨hview, htotal⟩ := hall pid List.mem_cons_self
      obtain ⟨view, hview⟩ := exists_lookup hview
      obtain ⟨total, htotal⟩ := exists_lookup htotal
      have hstep : computeStats members s (pid :: pids) ref =
          some (stalst.insert pid (getCombatStat ref members view total).2) := by
        unfold computeStats
        rw [hview, htotal, hstalst]
        rfl
      -- the tables of the others have larger numbers
      have hlarger : ∀ other stat, stalst.lookup other = some stat →
          stat.firstRef ≠ some ref := by
        intro other stat hlookup heq
        obtain ⟨view', total', r, hr, -, -, rfl⟩ := computed.stat other stat hlookup
        rw [firstRef_getCombatStat, Option.some_inj] at heq
        omega
      refine ⟨_, hstep, ?_, ?_, ?_⟩
      · intro other
        rw [AList.mem_insert, computed.keys, List.mem_cons]
      · intro other stat hlookup
        by_cases hother : other = pid
        · subst hother
          rw [AList.lookup_insert, Option.some_inj] at hlookup
          exact ⟨view, total, ref, le_rfl, hview, htotal, hlookup.symm⟩
        · rw [AList.lookup_insert_ne hother] at hlookup
          obtain ⟨view', total', r, hr, hrest⟩ := computed.stat other stat hlookup
          exact ⟨view', total', r, Nat.le_of_add_right_le hr, hrest⟩
      · intro first second stat stat' hne hfirst hsecond
        by_cases hfirstPid : first = pid
        · subst hfirstPid
          rw [AList.lookup_insert, Option.some_inj] at hfirst
          rw [AList.lookup_insert_ne hne.symm] at hsecond
          rw [← hfirst, firstRef_getCombatStat]
          exact (hlarger second stat' hsecond).symm
        · rw [AList.lookup_insert_ne hfirstPid] at hfirst
          by_cases hsecondPid : second = pid
          · subst hsecondPid
            rw [AList.lookup_insert, Option.some_inj] at hsecond
            rw [← hsecond, firstRef_getCombatStat]
            exact hlarger first stat hfirst
          · rw [AList.lookup_insert_ne hsecondPid] at hsecond
            exact computed.apart first second stat stat' hne hfirst hsecond

/-- Nobody agrees with anybody else. -/
theorem Computed.votes_eq_one (computed : Computed s members pids ref stalst) {stat : CombatStat}
    (hstat : stalst.lookup pid = some stat) : votes compareStat stalst pid stat = 1 := by
  have hnone : (stalst.entries.countP fun other =>
      decide (pid ≠ other.1) && compareStat stat other.2) = 0 := by
    rw [List.countP_eq_zero]
    intro other hother hagrees
    rw [Bool.and_eq_true, decide_eq_true_eq] at hagrees
    have hne := computed.apart pid other.1 stat other.2 hagrees.1 hstat
      (AList.mem_lookup_iff.mpr hother)
    obtain ⟨view, total, r, -, -, -, hown⟩ := computed.stat pid stat hstat
    have hthere : stat.firstRef ≠ none := by
      rw [hown, firstRef_getCombatStat]
      exact Option.some_ne_none r
    rw [compareStat_of_firstRef hthere hne] at hagrees
    exact Bool.false_ne_true hagrees.2
  unfold votes
  rw [hnone]

theorem Computed.counts_eq_one (computed : Computed s members pids ref stalst)
    {cnt : Pid × Nat} (hcnt : cnt ∈ counts compareStat stalst) : cnt.2 = 1 := by
  obtain ⟨stat, hstat, hvotes⟩ := mem_counts.mp hcnt
  rw [hvotes, computed.votes_eq_one hstat]

/-! ## The last loop -/

/-- The last player in the order of `pairs` is the one that is picked. -/
theorem Computed.pickStat_concat (computed : Computed s members pids ref stalst)
    (hpid : pid ∈ pids) (order : List Pid) (staResolve : Option CombatStat) :
    pickStat stalst (counts compareStat stalst) (maxCnt (counts compareStat stalst))
      (order ++ [pid]) staResolve = stalst.lookup pid := by
  unfold pickStat
  rw [List.foldl_append, List.foldl_cons, List.foldl_nil]
  have hmost : maxCnt (counts compareStat stalst) ≤ 1 :=
    maxCnt_le_iff.mpr fun cnt hcnt => (computed.counts_eq_one hcnt).le
  have hmem : pid ∈ (counts compareStat stalst).map Prod.fst := by
    rw [map_fst_counts]
    exact (computed.keys pid).mpr hpid
  cases hlookup : (counts compareStat stalst).lookup pid with
  | none =>
      obtain ⟨cnt, hcnt, rfl⟩ := List.mem_map.mp hmem
      have hnone := List.lookup_eq_none_iff.mp hlookup cnt hcnt
      simp at hnone
  | some cnt =>
      dsimp only
      have hone : cnt = 1 := by
        obtain ⟨before, after, hsplit, -⟩ := List.lookup_eq_some_iff.mp hlookup
        have hcnt : (pid, cnt) ∈ counts compareStat stalst := by
          rw [hsplit]
          exact List.mem_append_right _ List.mem_cons_self
        exact computed.counts_eq_one hcnt
      rw [if_neg (by omega)]

/-! ## The result -/

/-- Which tables are made does not matter. -/
theorem sameStat_getCombatStat (r : Nat) (members : Members) (view : PlayerData) (total : Total)
    (stat : CombatStat) :
    sameStat (getCombatStat r members view total).2 stat =
      sameStat (getCombatStat 0 members view total).2 stat := by
  unfold sameStat getCombatStat
  dsimp only
  cases stat.stats with
  | nil => rfl
  | cons side sides =>
      cases sides with
      | nil => rfl
      | cons side' sides => rfl

theorem Computed.has_iff (computed : Computed s members pids ref stalst) {own : CombatStat}
    (hown : stalst.lookup pid = some own) (stat : CombatStat) :
    s.Has members stat pid ↔ sameStat own stat = true := by
  obtain ⟨view, total, r, -, hview, htotal, rfl⟩ := computed.stat pid own hown
  have hstatOf : s.statOf members pid = some (getCombatStat 0 members view total).2 := by
    unfold StatModel.statOf
    rw [hview, htotal]
  unfold StatModel.Has
  rw [hstatOf, sameStat_getCombatStat]
  constructor
  · rintro ⟨other, hother, hsame⟩
    cases hother
    exact hsame
  · exact fun hsame => ⟨_, rfl, hsame⟩

/-- Without an earlier result the last player in the order decides. -/
theorem resolveCombatstat_concat (hnone : s.staResolve = none)
    (hall : ∀ pid ∈ s.playerdata, pid ∈ s.totalData) {playerdataOrder order : List Pid}
    (hplayerdata : playerdataOrder.Perm s.playerdata.keys)
    (horder : (order ++ [pid]).Perm s.playerdata.keys) (members : Members) :
    ∃ s' own, s.resolveCombatstat members playerdataOrder (order ++ [pid]) = some (s', some own) ∧
      ∀ stat, s.Has members stat pid ↔ sameStat own stat = true := by
  have hmem : ∀ pid ∈ playerdataOrder, pid ∈ s.playerdata ∧ pid ∈ s.totalData := by
    intro pid hpid
    have hthere : pid ∈ s.playerdata := hplayerdata.mem_iff.mp hpid
    exact ⟨hthere, hall pid hthere⟩
  obtain ⟨stalst, hstalst, computed⟩ :=
    @computed_computeStats s members playerdataOrder
      (hplayerdata.nodup_iff.mpr s.playerdata.keys_nodup) hmem 0
  have hpid : pid ∈ playerdataOrder :=
    hplayerdata.mem_iff.mpr (horder.mem_iff.mp (List.mem_append_right _ List.mem_cons_self))
  obtain ⟨own, hown⟩ := exists_lookup ((computed.keys pid).mpr hpid)
  exists { s with playerdata := s.finish playerdataOrder, staResolve := some own }, own
  constructor
  · unfold StatModel.resolveCombatstat
    rw [hnone, hstalst]
    dsimp only
    rw [Option.map_some, computed.pickStat_concat hpid, hown]
  · exact computed.has_iff hown

/-- Whatever the order of `pairs`, the result is the one of a majority exactly
when all statistics are, or when the room has resolved before and this was the
result. -/
theorem resolvesMajority_iff {majority : CombatStat}
    (hall : ∀ pid ∈ s.playerdata, pid ∈ s.totalData)
    (hmajority : s.playerdata.keys.length <
      2 * s.playerdata.keys.countP fun pid => decide (s.Has members majority pid)) :
    ResolvesTo s members majority ↔
      match s.staResolve with
      | some sta => sameStat sta majority = true
      | none => ∀ pid ∈ s.playerdata, s.Has members majority pid := by
  cases hsta : s.staResolve with
  | some sta =>
      have hresolve : ∀ playerdataOrder cntlstOrder,
          s.resolveCombatstat members playerdataOrder cntlstOrder = some (s, some sta) := by
        intro playerdataOrder cntlstOrder
        unfold StatModel.resolveCombatstat
        rw [hsta]
      constructor
      · intro h
        obtain ⟨s', sta', hresult, hsame⟩ := h _ _ (List.Perm.refl _) (List.Perm.refl _)
        rw [hresolve] at hresult
        cases hresult
        exact hsame
      · exact fun hsame _ _ _ _ => ⟨s, sta, hresolve _ _, hsame⟩
  | none =>
      constructor
      · intro h pid hpid
        -- the player may be the last one
        have hlast : (s.playerdata.keys.erase pid ++ [pid]).Perm s.playerdata.keys :=
          List.perm_append_comm.trans (List.perm_cons_erase hpid).symm
        obtain ⟨s', own, hresolve, hhas⟩ :=
          resolveCombatstat_concat hsta hall (List.Perm.refl _) hlast members
        obtain ⟨s'', sta, hresult, hsame⟩ := h _ _ (List.Perm.refl _) hlast
        rw [hresolve] at hresult
        cases hresult
        exact (hhas majority).mpr hsame
      · intro h playerdataOrder cntlstOrder hplayerdata hcntlst
        rcases List.eq_nil_or_concat cntlstOrder with rfl | ⟨order, pid, rfl⟩
        · -- a majority is not empty
          rw [List.nil_perm.mp hcntlst] at hmajority
          exact absurd hmajority (Nat.lt_irrefl 0)
        · rw [List.concat_eq_append] at hcntlst ⊢
          obtain ⟨s', own, hresolve, hhas⟩ :=
            resolveCombatstat_concat hsta hall hplayerdata hcntlst members
          have hpid : pid ∈ s.playerdata :=
            hcntlst.mem_iff.mp (List.mem_append_right _ List.mem_cons_self)
          exact ⟨s', own, hresolve, (hhas majority).mp (h pid hpid)⟩

/-- The result is kept for the next time the room resolves. -/
theorem resolve_kept {s' : StatModel} {sta : CombatStat}
    {playerdataOrder cntlstOrder : List Pid}
    (h : s.resolveCombatstat members playerdataOrder cntlstOrder = some (s', some sta)) :
    s'.staResolve = some sta := by
  unfold StatModel.resolveCombatstat at h
  split at h
  · next sta' hsta =>
    cases h
    exact hsta
  · obtain ⟨stalst, -, hresult⟩ := Option.map_eq_some_iff.mp h
    dsimp only at hresult
    rw [Prod.mk.injEq] at hresult
    rw [← hresult.1]
    exact hresult.2

end

/-! ## Three players -/

/-- A client that has seen a winner. -/
def won (winner : ℚ) : Total where
  token := none
  mtype := none
  ctype := none
  winner := some (.number winner)
  duration := none
  begintime := none
  enterType := none
  side0Mvp := none
  side1Mvp := none
  mvpScores := none
  playerData := none

/-- The players have seen these winners. -/
def uploaded (winners : List (Pid × ℚ)) : StatModel :=
  { threeStart with totalData :=
      (winners.map fun winner => (⟨winner.1, won winner.2⟩ : Sigma fun _ : Pid => Total)).toAList }

def winner0 : CombatStat :=
  ((uploaded [(player 1, 0), (player 2, 0), (player 3, 0)]).statOf threePlayers (player 1)).getD
    ⟨none, none, none, none, none, none, none, []⟩

theorem resolvesTo_unanimous :
    ResolvesTo (uploaded [(player 1, 0), (player 2, 0), (player 3, 0)]) threePlayers winner0 := by
  have hiff := @resolvesMajority_iff (uploaded [(player 1, 0), (player 2, 0), (player 3, 0)])
    threePlayers winner0 (by decide +kernel) (by decide +kernel)
  have hsame : ∀ pid ∈ (uploaded [(player 1, 0), (player 2, 0), (player 3, 0)]).playerdata,
      (uploaded [(player 1, 0), (player 2, 0), (player 3, 0)]).Has threePlayers winner0 pid := by
    decide +kernel
  exact hiff.mpr hsame

/-- The third player has seen another winner and comes last. -/
theorem not_resolvesTo_outvoted :
    ¬ ∀ (s : StatModel) (majority : CombatStat), (∀ pid ∈ s.playerdata, pid ∈ s.totalData) →
      s.playerdata.keys.length <
        2 * s.playerdata.keys.countP (fun pid => decide (s.Has threePlayers majority pid)) →
      ResolvesTo s threePlayers majority := by
  intro h
  have hresolves := h (uploaded [(player 1, 0), (player 2, 0), (player 3, 1)]) winner0
    (by decide +kernel) (by decide +kernel)
  obtain ⟨s', sta, hresult, hsame⟩ := hresolves [player 1, player 2, player 3]
    [player 1, player 2, player 3] (by decide +kernel) (by decide +kernel)
  have hwinner : ((uploaded [(player 1, 0), (player 2, 0), (player 3, 1)]).resolveCombatstat
      threePlayers [player 1, player 2, player 3] [player 1, player 2, player 3]).map
        (fun result => result.2.map fun sta => sameStat sta winner0) = some (some false) := by
    decide +kernel
  rw [hresult, Option.map_some, Option.map_some, hsame] at hwinner
  cases hwinner

end Combat
end ArmyRs
