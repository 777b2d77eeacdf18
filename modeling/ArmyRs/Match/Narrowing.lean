import ArmyRs.Match.TeamMembership

/-!
# What is left in the pools and the pairs

`Shrinks` counts items and does not say where they are.  `Narrows` does: every
pool keeps its keys and its class, and a queue or a live pair holds nothing that
was not in the same queue or the same pair before.

What `dismiss_pair_on_playeroffline` takes away is said exactly: the requests
that it `withdraws` and the pairs that it `dissolves`.
-/

namespace ArmyRs
namespace Match

open Foundation

/-- The same pool, and no item is new in a queue. -/
structure Pool.Narrows (pool new : Pool) : Prop where
  zone : new.zone = pool.zone
  poolId : new.poolId = pool.poolId
  combatType : new.teamMatch.combatType = pool.teamMatch.combatType
  queues : ∀ groupid, ∀ item ∈ new.teamMatch.teamInfos groupid,
    item ∈ pool.teamMatch.teamInfos groupid

/-- The same pair; only its notice can differ, and it can have more
confirmations. -/
structure MatchedPair.Same (old mp : MatchedPair) : Prop where
  pairId : mp.pairId = old.pairId
  zone : mp.zone = old.zone
  poolId : mp.poolId = old.poolId
  pair : mp.pair = old.pair
  formed : mp.formed = old.formed
  confirms : old.confirms ⊆ mp.confirms

/-- The keys and the classes of the pools. -/
def MatchManager.signature (m : MatchManager) : List (Nat × Nat × CombatType) :=
  m.pools.map fun pool => (pool.zone, pool.poolId, pool.teamMatch.combatType)

structure MatchManager.Narrows (m next : MatchManager) : Prop where
  pools : ∀ new ∈ next.pools, ∃ pool ∈ m.pools, pool.Narrows new
  pairs : ∀ mp ∈ next.matchedPairs, ∃ old ∈ m.matchedPairs, old.Same mp
  signature : next.signature = m.signature

theorem Pool.Narrows.refl (pool : Pool) : pool.Narrows pool :=
  ⟨rfl, rfl, rfl, fun _ _ h => h⟩

theorem Pool.Narrows.trans {pool middle last : Pool} (hfirst : pool.Narrows middle)
    (hsecond : middle.Narrows last) : pool.Narrows last :=
  ⟨hsecond.zone.trans hfirst.zone, hsecond.poolId.trans hfirst.poolId,
    hsecond.combatType.trans hfirst.combatType,
    fun groupid item hitem => hfirst.queues groupid item (hsecond.queues groupid item hitem)⟩

theorem MatchedPair.Same.refl (mp : MatchedPair) : mp.Same mp :=
  ⟨rfl, rfl, rfl, rfl, rfl, List.Subset.refl _⟩

theorem MatchedPair.Same.trans {mp middle last : MatchedPair} (hfirst : mp.Same middle)
    (hsecond : middle.Same last) : mp.Same last :=
  ⟨hsecond.pairId.trans hfirst.pairId, hsecond.zone.trans hfirst.zone,
    hsecond.poolId.trans hfirst.poolId, hsecond.pair.trans hfirst.pair,
    hsecond.formed.trans hfirst.formed, List.Subset.trans hfirst.confirms hsecond.confirms⟩

/-- The items of a pool are those of its queues. -/
theorem TeamMatch.mem_items {pool : TeamMatch} {item : Item} :
    item ∈ pool.items ↔ ∃ groupid ∈ pool.groups, item ∈ pool.teamInfos groupid :=
  List.mem_flatMap

theorem Pool.Narrows.items {pool new : Pool} (hnarrows : pool.Narrows new) :
    ∀ item ∈ new.teamMatch.items, item ∈ pool.teamMatch.items := by
  intro item hitem
  obtain ⟨groupid, hgroup, hqueue⟩ := TeamMatch.mem_items.mp hitem
  refine TeamMatch.mem_items.mpr ⟨groupid, ?_, hnarrows.queues groupid item hqueue⟩
  unfold TeamMatch.groups at hgroup ⊢
  rwa [hnarrows.combatType] at hgroup

namespace MatchManager

variable {m : MatchManager}

theorem Narrows.refl (m : MatchManager) : m.Narrows m :=
  ⟨fun pool hpool => ⟨pool, hpool, Pool.Narrows.refl pool⟩,
    fun mp hmp => ⟨mp, hmp, MatchedPair.Same.refl mp⟩, rfl⟩

theorem Narrows.trans {middle last : MatchManager} (hfirst : m.Narrows middle)
    (hsecond : middle.Narrows last) : m.Narrows last := by
  constructor
  · intro new hnew
    obtain ⟨between, hbetween, hnarrows⟩ := hsecond.pools new hnew
    obtain ⟨pool, hpool, hnarrowsFirst⟩ := hfirst.pools between hbetween
    exact ⟨pool, hpool, hnarrowsFirst.trans hnarrows⟩
  · intro mp hmp
    obtain ⟨between, hbetween, hsame⟩ := hsecond.pairs mp hmp
    obtain ⟨old, hold, hsameFirst⟩ := hfirst.pairs between hbetween
    exact ⟨old, hold, hsameFirst.trans hsame⟩
  · exact hsecond.signature.trans hfirst.signature

theorem Narrows.poolItems {next : MatchManager} (hnarrows : m.Narrows next) :
    ∀ item ∈ next.poolItems, item ∈ m.poolItems := by
  intro item hitem
  obtain ⟨new, hnew, hmem⟩ := List.mem_flatMap.mp hitem
  obtain ⟨pool, hpool, hpoolNarrows⟩ := hnarrows.pools new hnew
  exact List.mem_flatMap.mpr ⟨pool, hpool, hpoolNarrows.items item hmem⟩

theorem Narrows.pairItems {next : MatchManager} (hnarrows : m.Narrows next) :
    ∀ item ∈ next.pairItems, item ∈ m.pairItems := by
  intro item hitem
  obtain ⟨mp, hmp, hmem⟩ := List.mem_flatMap.mp hitem
  obtain ⟨old, hold, hsame⟩ := hnarrows.pairs mp hmp
  exact List.mem_flatMap.mpr ⟨old, hold, hsame.pair ▸ hmem⟩

/-! ## Removals -/

/-- Keeps the items that pass the test, which also sees the keys of the pool. -/
def keepItems (m : MatchManager) (keep : Nat → Nat → Item → Bool) : MatchManager :=
  { m with
    pools := m.pools.map fun pool =>
      { pool with
        teamMatch := { pool.teamMatch with
          teamInfos := fun groupid =>
            (pool.teamMatch.teamInfos groupid).filter (keep pool.zone pool.poolId) } } }

theorem keepItems_keepItems (first second : Nat → Nat → Item → Bool) :
    (m.keepItems first).keepItems second =
      m.keepItems fun zone poolId item => second zone poolId item && first zone poolId item := by
  unfold keepItems
  simp only [List.map_map, Function.comp_def, List.filter_filter]

theorem keepItems_true : (m.keepItems fun _ _ _ => true) = m := by
  unfold keepItems
  simp only [List.filter_true, List.map_id']

theorem narrows_keepItems (keep : Nat → Nat → Item → Bool) : m.Narrows (m.keepItems keep) := by
  constructor
  · intro new hnew
    obtain ⟨pool, hpool, rfl⟩ := List.mem_map.mp hnew
    exact ⟨pool, hpool, rfl, rfl, rfl, fun _ _ hitem => List.mem_of_mem_filter hitem⟩
  · exact fun mp hmp => ⟨mp, hmp, MatchedPair.Same.refl mp⟩
  · unfold signature keepItems
    rw [List.map_map]
    rfl

theorem keep_of_mem_keepItems {keep : Nat → Nat → Item → Bool} {new : Pool} {item : Item}
    (hnew : new ∈ (m.keepItems keep).pools) (hitem : item ∈ new.teamMatch.items) :
    keep new.zone new.poolId item = true := by
  obtain ⟨pool, hpool, rfl⟩ := List.mem_map.mp hnew
  obtain ⟨groupid, -, hqueue⟩ := TeamMatch.mem_items.mp hitem
  exact (List.mem_filter.mp hqueue).2

/-- A removal from the pools that a test on the keys selects. -/
theorem removeFrom_eq (selected : Nat → Nat → Bool) (tid : Nat) :
    m.removeFrom (fun pool => selected pool.zone pool.poolId) tid =
      m.keepItems fun zone poolId item =>
        !(selected zone poolId && decide (item.teamId = tid)) := by
  unfold removeFrom keepItems
  congr 1
  refine List.map_congr_left fun pool _ => ?_
  by_cases hselected : selected pool.zone pool.poolId = true
  · rw [if_pos hselected]
    unfold TeamMatch.removeTeam
    simp [hselected]
  · rw [if_neg hselected]
    simp [hselected]

theorem delTeamDetail_eq (tid : Nat) :
    m.delTeamDetail tid = m.keepItems fun _ _ item => decide (item.teamId ≠ tid) := by
  unfold delTeamDetail
  rw [removeFrom_eq fun _ _ => true]
  simp only [Bool.true_and, decide_not]

theorem delTeamDetailByMp_eq (mp : MatchedPair) :
    m.delTeamDetailByMp mp =
      m.keepItems fun _ _ item => decide (item.teamId ∉ mp.pair.tms.map Item.teamId) := by
  unfold delTeamDetailByMp
  induction mp.pair.tms generalizing m with
  | nil => exact keepItems_true.symm
  | cons first rest ih =>
      rw [List.foldl_cons, ih, delTeamDetail_eq, keepItems_keepItems]
      congr 1
      funext zone poolId item
      rw [← Bool.decide_and]
      refine decide_eq_decide.mpr ?_
      rw [List.map_cons, List.mem_cons, not_or, and_comm]

theorem narrows_removeFrom (selected : Nat → Nat → Bool) (tid : Nat) :
    m.Narrows (m.removeFrom (fun pool => selected pool.zone pool.poolId) tid) := by
  rw [removeFrom_eq]
  exact narrows_keepItems _

theorem narrows_deletePair (pairId : Nat) : m.Narrows (m.deletePair pairId) :=
  ⟨fun pool hpool => ⟨pool, hpool, Pool.Narrows.refl pool⟩,
    fun mp hmp => ⟨mp, List.mem_of_mem_filter hmp, MatchedPair.Same.refl mp⟩, rfl⟩

theorem narrows_confirm (pairId : Nat) (pid : PlayerId) : m.Narrows (m.confirm pairId pid) := by
  refine ⟨fun pool hpool => ⟨pool, hpool, Pool.Narrows.refl pool⟩, ?_, rfl⟩
  intro mp hmp
  obtain ⟨old, hold, rfl⟩ := List.mem_map.mp hmp
  refine ⟨old, hold, ?_⟩
  split
  · exact ⟨rfl, rfl, rfl, rfl, rfl, fun other hother => List.mem_insert_of_mem hother⟩
  · exact MatchedPair.Same.refl old

theorem narrows_checkTimeout : m.Narrows m.checkTimeout := by
  refine ⟨fun pool hpool => ⟨pool, hpool, Pool.Narrows.refl pool⟩, ?_, rfl⟩
  intro mp hmp
  obtain ⟨old, hold, hkept⟩ := List.mem_filterMap.mp hmp
  refine ⟨old, hold, ?_⟩
  unfold notifyOrExpire at hkept
  split at hkept
  · split at hkept
    · cases hkept
    · cases hkept
      exact MatchedPair.Same.refl _
  · cases hkept
    exact ⟨rfl, rfl, rfl, rfl, rfl, List.Subset.refl _⟩

/-- The players' entries do not matter. -/
theorem narrows_of_eq {next : MatchManager} (hpools : next.pools = m.pools)
    (hpairs : next.matchedPairs = m.matchedPairs) : m.Narrows next := by
  refine ⟨fun pool hpool => ⟨pool, hpools ▸ hpool, Pool.Narrows.refl pool⟩,
    fun mp hmp => ⟨mp, hpairs ▸ hmp, MatchedPair.Same.refl mp⟩, ?_⟩
  unfold signature
  rw [hpools]

theorem narrows_setPool {zone poolId : Nat} {found : Pool} {teamMatch : TeamMatch}
    (hfound : m.findPool zone poolId = some found)
    (hnarrows : found.Narrows { found with teamMatch := teamMatch }) :
    m.Narrows (m.setPool { found with teamMatch := teamMatch }) := by
  obtain ⟨before, after, htable, hput⟩ := pools_setPool hfound
  have hpools := hput teamMatch
  constructor
  · intro new hnew
    rw [hpools] at hnew
    rw [htable]
    rcases List.mem_append.mp hnew with hbefore | hrest
    · exact ⟨new, List.mem_append_left _ hbefore, Pool.Narrows.refl new⟩
    · rcases List.mem_cons.mp hrest with rfl | hafter
      · exact ⟨found, List.mem_append_right _ List.mem_cons_self, hnarrows⟩
      · exact ⟨new, List.mem_append_right _ (List.mem_cons_of_mem _ hafter),
          Pool.Narrows.refl new⟩
  · exact fun mp hmp => ⟨mp, hmp, MatchedPair.Same.refl mp⟩
  · unfold signature
    rw [hpools, htable, List.map_append, List.map_append, List.map_cons, List.map_cons,
      hnarrows.combatType]

theorem narrows_removeTeam (pool : Pool) (id : Nat) :
    pool.Narrows { pool with teamMatch := pool.teamMatch.removeTeam id } :=
  ⟨rfl, rfl, rfl, fun _ _ hitem => List.mem_of_mem_filter hitem⟩

/-- A request that is refused. -/
theorem narrows_addTeam {id zone : Nat} {poolId : Option Nat} {ref : Ref} {pids : List PlayerId}
    (hrefused : (m.addTeam id zone poolId ref pids).2 = false) :
    m.Narrows (m.addTeam id zone poolId ref pids).1 := by
  unfold addTeam at hrefused ⊢
  split
  · exact Narrows.refl m
  · next found hfound =>
    rw [hfound] at hrefused
    dsimp only at hrefused ⊢
    split at hrefused
    · cases hrefused
    · next hadded =>
      rw [if_neg hadded]
      obtain ⟨key, -, hkey⟩ := Option.bind_eq_some_iff.mp hfound
      apply narrows_setPool hkey
      have hsame : (found.teamMatch.addTeam id ref pids.length).1 =
          found.teamMatch.removeTeam id := by
        rw [addTeam_snd, decide_eq_true_eq] at hadded
        unfold TeamMatch.addTeam
        exact congrArg Prod.fst (if_neg hadded)
      rw [hsame]
      exact narrows_removeTeam found id

/-- What a request that is accepted changes. -/
theorem addTeam_accepted {id zone : Nat} {poolId : Option Nat} {ref : Ref}
    {pids : List PlayerId} (hadded : (m.addTeam id zone poolId ref pids).2 = true) :
    ∃ found before after, found.zone = zone ∧ m.pools = before ++ found :: after ∧
      (found.teamMatch.addTeam id ref pids.length).2 = true ∧
      (m.addTeam id zone poolId ref pids).1 = { m with
        pools := before ++
          { found with teamMatch := (found.teamMatch.addTeam id ref pids.length).1 } :: after
        playerPoolTeam := fun pid =>
          if pid ∈ pids then some ⟨zone, found.poolId, id⟩ else m.playerPoolTeam pid } := by
  unfold addTeam at hadded ⊢
  split at hadded
  · cases hadded
  · next found hfound =>
    obtain ⟨key, -, hkey⟩ := Option.bind_eq_some_iff.mp hfound
    obtain ⟨before, after, htable, hput⟩ := pools_setPool hkey
    dsimp only at hadded
    split at hadded
    · next haccepted =>
      refine ⟨found, before, after, (key_findPool hkey).1, htable, haccepted, ?_⟩
      dsimp only
      rw [if_pos haccepted, hput]
      rfl
    · cases hadded

end MatchManager

/-- A pair after some were formed is an old one, or it was formed of the players
that its teams had. -/
theorem mem_formPairs {arrays : Arrays} {pool : Pool} {res : List Pair} {m : MatchManager}
    {mp : MatchedPair}
    (hmp : mp ∈ (res.foldl (MatchManager.formPair arrays pool) m).matchedPairs) :
    mp ∈ m.matchedPairs ∨ mp.zone = pool.zone ∧ mp.poolId = pool.poolId ∧ mp.pair ∈ res ∧
      mp.formed = arrays.pairPids mp.pair := by
  induction res generalizing m with
  | nil => exact .inl hmp
  | cons pair res ih =>
      rcases ih hmp with hformed | ⟨hzone, hpoolId, hmem, hpids⟩
      · rcases List.mem_cons.mp ((put_subperm MatchedPair.pairId _ _).subset hformed) with
          rfl | hold
        · exact .inr ⟨rfl, rfl, List.mem_cons_self, rfl⟩
        · exact .inl hold
      · exact .inr ⟨hzone, hpoolId, List.mem_cons_of_mem _ hmem, hpids⟩

namespace Checker

variable {c : Checker}

/-! ## Departures -/

/-- `dismiss_pair_on_playeroffline` takes the request of a team out of a pool:
the team is in the pair of the player, or the player has no pair and
`player_pool_team` names the request. -/
def Withdraws (c : Checker) (pid : PlayerId) (zone poolId teamId : Nat) : Prop :=
  match c.matching.playerPair pid with
  | some pairId => ∃ mp ∈ c.matching.findPair pairId, teamId ∈ mp.pair.tms.map Item.teamId
  | none => c.matching.playerPoolTeam pid = some ⟨zone, poolId, teamId⟩

/-- `dismiss_pair_on_playeroffline` takes a live pair away. -/
def Dissolves (c : Checker) (pid : PlayerId) (mp : MatchedPair) : Prop :=
  c.matching.playerPair pid = some mp.pairId

instance (c : Checker) (pid : PlayerId) (zone poolId teamId : Nat) :
    Decidable (c.Withdraws pid zone poolId teamId) :=
  match hpair : c.matching.playerPair pid with
  | some pairId =>
      decidable_of_iff
        (∃ mp ∈ c.matching.findPair pairId, teamId ∈ mp.pair.tms.map Item.teamId)
        (by unfold Withdraws; rw [hpair])
  | none =>
      decidable_of_iff (c.matching.playerPoolTeam pid = some ⟨zone, poolId, teamId⟩)
        (by unfold Withdraws; rw [hpair])

instance (c : Checker) (pid : PlayerId) (mp : MatchedPair) : Decidable (c.Dissolves pid mp) :=
  inferInstanceAs (Decidable (_ = _))

variable {pid : PlayerId} {pairId : Nat}

theorem withdraws_of_pair {mp : MatchedPair} (hpair : c.matching.playerPair pid = some pairId)
    (hmp : c.matching.findPair pairId = some mp) (zone poolId teamId : Nat) :
    c.Withdraws pid zone poolId teamId ↔ teamId ∈ mp.pair.tms.map Item.teamId := by
  unfold Withdraws
  rw [hpair]
  show (∃ found ∈ c.matching.findPair pairId, _) ↔ _
  rw [hmp]
  simp only [Option.mem_some_iff, exists_eq_left']

theorem not_withdraws_of_dead (hpair : c.matching.playerPair pid = some pairId)
    (hmp : c.matching.findPair pairId = none) (zone poolId teamId : Nat) :
    ¬ c.Withdraws pid zone poolId teamId := by
  unfold Withdraws
  rw [hpair]
  show ¬ ∃ found ∈ c.matching.findPair pairId, _
  rw [hmp]
  rintro ⟨found, hfound, -⟩
  cases hfound

theorem withdraws_of_unpaired (hpair : c.matching.playerPair pid = none)
    (zone poolId teamId : Nat) :
    c.Withdraws pid zone poolId teamId ↔
      c.matching.playerPoolTeam pid = some ⟨zone, poolId, teamId⟩ := by
  unfold Withdraws
  rw [hpair]

/-- What the requests that stay are tested by. -/
def stays (c : Checker) (pid : PlayerId) (zone poolId : Nat) (item : Item) : Bool :=
  decide (¬ c.Withdraws pid zone poolId item.teamId)

theorem pools_dismissPairOnPlayeroffline (c : Checker) (pid : PlayerId) :
    (c.dismissPairOnPlayeroffline pid).matching.pools =
      (c.matching.keepItems (c.stays pid)).pools := by
  have hall : (∀ zone poolId teamId, ¬ c.Withdraws pid zone poolId teamId) →
      c.matching.keepItems (c.stays pid) = c.matching := by
    intro hnone
    have htrue : c.stays pid = fun _ _ _ => true := by
      funext zone poolId item
      exact decide_eq_true (hnone zone poolId item.teamId)
    rw [htrue, MatchManager.keepItems_true]
  unfold dismissPairOnPlayeroffline
  cases hpair : c.matching.playerPair pid with
  | some pairId =>
      dsimp only
      cases hmp : c.matching.findPair pairId with
      | none => rw [hall (not_withdraws_of_dead hpair hmp)]
      | some mp =>
          have hstays : c.stays pid = fun _ _ item =>
              decide (item.teamId ∉ mp.pair.tms.map Item.teamId) := by
            funext zone poolId item
            refine decide_eq_decide.mpr (not_congr ?_)
            exact withdraws_of_pair hpair hmp zone poolId item.teamId
          -- a live pair: its teams leave all pools
          show ((c.matching.deletePair mp.pairId).delTeamDetailByMp mp).pools = _
          rw [MatchManager.delTeamDetailByMp_eq, hstays]
          rfl
  | none =>
      dsimp only
      cases hentry : c.matching.playerPoolTeam pid with
      | none =>
          -- neither a pair nor a request: nothing is withdrawn
          rw [hall fun zone poolId teamId => ?_]
          rw [withdraws_of_unpaired hpair, hentry]
          exact fun h => (nomatch h)
      | some entry =>
          have hstays : c.stays pid = fun zone poolId item =>
              !(decide (zone = entry.zone ∧ poolId = entry.poolId) &&
                decide (item.teamId = entry.teamId)) := by
            funext zone poolId item
            rw [← Bool.decide_and, ← decide_not]
            refine decide_eq_decide.mpr (not_congr ?_)
            rw [withdraws_of_unpaired hpair, hentry]
            cases entry
            simp only [Option.some.injEq, PoolTeam.mk.injEq]
            omega
          -- a request: its team leaves its own pool
          show (c.matching.removeFromPool entry.zone entry.poolId entry.teamId).pools = _
          rw [hstays]
          unfold MatchManager.removeFromPool
          rw [← MatchManager.removeFrom_eq]

theorem mem_pairs_dismissPairOnPlayeroffline (c : Checker) (pid : PlayerId) (mp : MatchedPair) :
    mp ∈ (c.dismissPairOnPlayeroffline pid).matching.matchedPairs ↔
      mp ∈ c.matching.matchedPairs ∧ ¬ c.Dissolves pid mp := by
  unfold dismissPairOnPlayeroffline Dissolves
  cases hpair : c.matching.playerPair pid with
  | none =>
      have hkept : mp ∈ c.matching.matchedPairs ↔
          mp ∈ c.matching.matchedPairs ∧ ¬ (none : Option Nat) = some mp.pairId := by
        simp
      dsimp only
      split
      all_goals exact hkept
  | some pairId =>
      dsimp only
      cases hmp : c.matching.findPair pairId with
      | none =>
          have hnone := List.find?_eq_none.mp hmp mp
          simp only [decide_eq_true_eq] at hnone
          refine ⟨fun hmem => ⟨hmem, fun heq => ?_⟩, And.left⟩
          exact hnone hmem (Option.some_inj.mp heq).symm
      | some found =>
          have hfound : found.pairId = pairId := of_decide_eq_true
            (List.find?_some (p := fun mp : MatchedPair => decide (mp.pairId = pairId)) hmp)
          show mp ∈ ((c.matching.deletePair found.pairId).delTeamDetailByMp found).matchedPairs ↔ _
          rw [MatchManager.delTeamDetailByMp_eq, hfound]
          show mp ∈ c.matching.matchedPairs.filter _ ↔ _
          rw [List.mem_filter, decide_eq_true_eq, Option.some_inj, eq_comm]

/-! ## Commands -/

theorem narrows_dismiss (mp : MatchedPair) : c.matching.Narrows (c.dismiss mp).matching := by
  show c.matching.Narrows ((c.matching.deletePair mp.pairId).delTeamDetailByMp mp)
  rw [MatchManager.delTeamDetailByMp_eq]
  exact (MatchManager.narrows_deletePair mp.pairId).trans (MatchManager.narrows_keepItems _)

theorem narrows_dismissPairOnPlayeroffline (pid : PlayerId) :
    c.matching.Narrows (c.dismissPairOnPlayeroffline pid).matching := by
  have hkept := MatchManager.narrows_keepItems (m := c.matching) (c.stays pid)
  constructor
  · rw [pools_dismissPairOnPlayeroffline]
    exact hkept.pools
  · intro mp hmp
    exact ⟨mp, ((mem_pairs_dismissPairOnPlayeroffline c pid mp).mp hmp).1,
      MatchedPair.Same.refl mp⟩
  · unfold MatchManager.signature
    rw [pools_dismissPairOnPlayeroffline]
    exact hkept.signature

theorem narrows_checkMatchAllConfirmed (profiles : List PoolProfile) (mp : MatchedPair)
    (server : Bool) (now : Nat) :
    c.matching.Narrows (c.checkMatchAllConfirmed profiles mp server now).matching := by
  unfold checkMatchAllConfirmed startCombat
  split
  · dsimp only
    split
    · exact MatchManager.Narrows.refl _
    · split
      · refine MatchManager.Narrows.trans ?_ (narrows_dismiss mp)
        exact MatchManager.narrows_of_eq rfl rfl
      · exact MatchManager.narrows_of_eq rfl rfl
  · exact MatchManager.Narrows.refl _

theorem matching_recordCompleted (mp : MatchedPair) (server : Bool) :
    (c.recordCompleted mp server).matching = c.matching := by
  unfold recordCompleted
  split <;> rfl

theorem narrows_comfirmMatchPair (profiles : List PoolProfile) (pairId : Nat) (pid : PlayerId)
    (ok server : Bool) (now : Nat) :
    c.matching.Narrows (c.comfirmMatchPair profiles pairId pid ok server now).matching := by
  unfold comfirmMatchPair
  split
  · exact MatchManager.Narrows.refl _
  · next mp hmp =>
    split
    · refine (MatchManager.narrows_confirm pairId pid).trans ?_
      have hcheck := narrows_checkMatchAllConfirmed
        (c := ({ c with matching := c.matching.confirm pairId pid } : Checker).recordCompleted
          { mp with confirms := mp.confirms.insert pid } server)
        profiles { mp with confirms := mp.confirms.insert pid } server now
      rw [matching_recordCompleted] at hcheck
      exact hcheck
    · exact narrows_dismiss mp

theorem matching_doRemoveTeam {id : Nat} {next : Checker}
    (hremoved : c.doRemoveTeam id = some next) :
    next.matching = c.matching.keepItems fun _ _ item => decide (item.teamId ≠ id) := by
  rw [← MatchManager.delTeamDetail_eq]
  unfold doRemoveTeam at hremoved
  split at hremoved
  · cases hremoved
  · cases hremoved
    rfl

theorem matching_removeTeam {id : Nat} {info : TeamInfo}
    (hinfo : c.teams.teamInfos id = some info) :
    (c.removeTeam id).matching =
      c.matching.keepItems fun _ _ item => decide (item.teamId ≠ id) := by
  rw [← MatchManager.delTeamDetail_eq]
  unfold removeTeam doRemoveTeam
  rw [hinfo]
  rfl

theorem narrows_matchCancel (id poolid : Nat) :
    c.matching.Narrows (c.matchCancel id poolid).matching := by
  unfold matchCancel
  split
  · exact MatchManager.Narrows.refl _
  · exact MatchManager.narrows_removeFrom (fun _ other => decide (other = poolid)) id

end Checker
end Match
end ArmyRs
