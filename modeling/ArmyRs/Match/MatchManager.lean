import ArmyRs.Match.TeamMatch

/-!
# The pools and the match pairs of a checker

`MatchManager` holds the pools of the zones and the pairs that wait for the
confirmation of their players.  A pair keeps the items of its teams, hence the
arrays of their members; who was in the pair when it was formed is computed
once, for `player_pair`, and is kept here as `formed`.
-/

namespace ArmyRs
namespace Match

open Foundation

/-- An element of a `members_info` array. -/
structure Member where
  pid : PlayerId
  score : Int
  ready : Bool
  deriving DecidableEq, Repr

/-- The `members_info` arrays. -/
abbrev Arrays := Ref → List Member

/-- The players in an array at the moment. -/
def Arrays.pids (arrays : Arrays) (ref : Ref) : List PlayerId :=
  (arrays ref).map Member.pid

/-- The players of the teams of a pair at the moment. -/
def Arrays.pairPids (arrays : Arrays) (pair : Pair) : List PlayerId :=
  pair.tms.flatMap fun item => arrays.pids item.membersInfo

/-! ## Profiles -/

structure PoolProfile where
  id : Nat
  mapType : Nat
  combatType : Nat
  scoreMin : Int
  scoreMax : Int
  deriving DecidableEq, Repr

/-- `get_pool_klass` -/
def getPoolKlass (profile : PoolProfile) : Option CombatType :=
  match profile.combatType with
  | 0 => some .ct1v1
  | 1 => some .ct2v2
  | 2 => some .ct3v3
  | 3 => some .ct4v4
  | 4 => some .ct5v5
  | _ => none

/-- `MatchPoolRouter.getSingleMatchPoolId`, for the profiles that
`get_all_pools` lists.  Without a profile the answer is no pool id. -/
def getSingleMatchPoolId (profiles : List PoolProfile) (mtype ctype : Nat) (score : Int) :
    Option Nat :=
  (profiles.find? fun pool => pool.mapType = mtype ∧ pool.combatType = ctype ∧
    pool.scoreMin ≤ score ∧ score ≤ pool.scoreMax).map PoolProfile.id

/-- `init_pool_profiles`: the profiles under their ids. -/
def initPoolProfiles (profiles : List PoolProfile) : List PoolProfile :=
  profiles.foldl (fun table profile => put PoolProfile.id profile table) []

/-! ## State -/

/-- A pool of a zone with its entry in `last_match_ticks`. -/
structure Pool where
  zone : Nat
  poolId : Nat
  lastTick : Nat
  teamMatch : TeamMatch

structure MatchedPair where
  /-- The number of the pair among all pairs formed so far; ids come again. -/
  serial : Nat
  pairId : Nat
  zone : Nat
  poolId : Nat
  startTick : Nat
  pair : Pair
  notified : Bool
  /-- The keys of `confirms`. -/
  confirms : List PlayerId
  /-- `pidsInPair`, the players at the moment the pair was formed. -/
  formed : List PlayerId
  deriving DecidableEq, Repr

/-- An entry of `player_pool_team`. -/
structure PoolTeam where
  zone : Nat
  poolId : Nat
  teamId : Nat
  deriving DecidableEq, Repr

structure MatchManager where
  pools : List Pool
  tick : Nat
  matchedPairs : List MatchedPair
  pairUuid : Nat
  pairsFormed : Nat
  playerPair : PlayerId → Option Nat
  playerPoolTeam : PlayerId → Option PoolTeam

def matchInterval : Nat := 5

def pairTimeout : Nat := 20

/-- `init_pools` and `init_pool_last_match_tick`. -/
def initPools (profiles : List PoolProfile) (zones : List Nat) (random : Nat → Nat → Nat) :
    List Pool :=
  zones.eraseDups.flatMap fun zone =>
    (initPoolProfiles profiles).filterMap fun profile =>
      (getPoolKlass profile).map fun combatType =>
        ⟨zone, profile.id, random zone profile.id, ⟨combatType, fun _ => []⟩⟩

namespace MatchManager

/-! ## Pools -/

/-- `@@pools[zone][pool_id]` -/
def findPool (m : MatchManager) (zone poolId : Nat) : Option Pool :=
  m.pools.find? fun pool => pool.zone = zone ∧ pool.poolId = poolId

/-- Removes the request of a team from the selected pools. -/
def removeFrom (m : MatchManager) (selected : Pool → Bool) (tid : Nat) : MatchManager :=
  { m with
    pools := m.pools.map fun pool =>
      if selected pool then { pool with teamMatch := pool.teamMatch.removeTeam tid } else pool }

/-- `del_team_detail` -/
def delTeamDetail (m : MatchManager) (tid : Nat) : MatchManager :=
  m.removeFrom (fun _ => true) tid

/-- `MatchManager.match_cancel`: the pools of this id, in every zone. -/
def matchCancel (m : MatchManager) (poolId id : Nat) : MatchManager :=
  m.removeFrom (fun pool => pool.poolId = poolId) id

/-- The removal from the pool that `player_pool_team` names. -/
def removeFromPool (m : MatchManager) (zone poolId tid : Nat) : MatchManager :=
  m.removeFrom (fun pool => pool.zone = zone ∧ pool.poolId = poolId) tid

/-- Puts a pool in the place of the one under its keys. -/
def setPool (m : MatchManager) (pool : Pool) : MatchManager :=
  { m with pools := put (fun pool => (pool.zone, pool.poolId)) pool m.pools }

/-- `add_team`: nothing when there is no such pool, which is answered with an
error (or raises, for an unknown zone). -/
def addTeam (m : MatchManager) (tid zone : Nat) (poolId : Option Nat) (membersInfo : Ref)
    (pids : List PlayerId) : MatchManager × Bool :=
  match poolId.bind (m.findPool zone) with
  | none => (m, false)
  | some found =>
      let added := found.teamMatch.addTeam tid membersInfo pids.length
      let m := m.setPool { found with teamMatch := added.1 }
      if added.2 then
        ({ m with
            playerPoolTeam := fun pid =>
              if pid ∈ pids then some ⟨zone, found.poolId, tid⟩ else m.playerPoolTeam pid },
          true)
      else (m, false)

/-! ## Pairs -/

/-- `@@matched_pairs[pair_id]` -/
def findPair (m : MatchManager) (pairId : Nat) : Option MatchedPair :=
  m.matchedPairs.find? fun mp => mp.pairId = pairId

/-- `@@matched_pairs.delete(pair_id)` -/
def deletePair (m : MatchManager) (pairId : Nat) : MatchManager :=
  { m with matchedPairs := m.matchedPairs.filter fun mp => mp.pairId ≠ pairId }

/-- `del_team_detail_by_mp` -/
def delTeamDetailByMp (m : MatchManager) (mp : MatchedPair) : MatchManager :=
  mp.pair.tms.foldl (fun m item => m.delTeamDetail item.teamId) m

def genPairId (m : MatchManager) : Nat :=
  if m.pairUuid + 1 > 10000000 then 0 else m.pairUuid + 1

/-- `update` puts a pair that `do_match` has returned into `matched_pairs`. -/
def formPair (arrays : Arrays) (pool : Pool) (m : MatchManager) (pair : Pair) : MatchManager :=
  let pairId := m.genPairId
  let pidsInPair := arrays.pairPids pair
  { m with
    pairUuid := pairId
    pairsFormed := m.pairsFormed + 1
    matchedPairs := put MatchedPair.pairId
      { serial := m.pairsFormed, pairId := pairId, zone := pool.zone, poolId := pool.poolId,
        startTick := m.tick, pair := pair, notified := false, confirms := [],
        formed := pidsInPair } m.matchedPairs
    playerPair := fun pid => if pid ∈ pidsInPair then some pairId else m.playerPair pid }

/-- A pair at the end of `update`: it is announced, kept, or timed out. -/
def notifyOrExpire (tick : Nat) (mp : MatchedPair) : Option MatchedPair :=
  if mp.notified then
    if mp.startTick + pairTimeout ≤ tick then none else some mp
  else some { mp with notified := true }

/-- The end of `update`. -/
def checkTimeout (m : MatchManager) : MatchManager :=
  { m with matchedPairs := m.matchedPairs.filterMap (notifyOrExpire m.tick) }

/-- `confirms[pid] = true` -/
def confirm (m : MatchManager) (pairId : Nat) (pid : PlayerId) : MatchManager :=
  { m with
    matchedPairs := m.matchedPairs.map fun mp =>
      if mp.pairId = pairId then { mp with confirms := mp.confirms.insert pid } else mp }

/-- `@@player_pair.delete(pid)` for several players. -/
def deletePlayerPairs (m : MatchManager) (pids : List PlayerId) : MatchManager :=
  { m with playerPair := fun pid => if pid ∈ pids then none else m.playerPair pid }

/-- `@@player_pool_team.delete(pid)` for several players. -/
def deletePoolTeams (m : MatchManager) (pids : List PlayerId) : MatchManager :=
  { m with playerPoolTeam := fun pid => if pid ∈ pids then none else m.playerPoolTeam pid }

/-- Everything that waits in a pool or is in a live pair. -/
def poolItems (m : MatchManager) : List Item :=
  m.pools.flatMap fun pool => pool.teamMatch.items

def pairItems (m : MatchManager) : List Item :=
  m.matchedPairs.flatMap fun mp => mp.pair.tms

end MatchManager
end Match
end ArmyRs
