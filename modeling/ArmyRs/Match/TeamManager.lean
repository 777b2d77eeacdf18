import ArmyRs.Match.MatchManager
import ArmyRs.Foundation.Transition

/-!
# The teams of a checker

The commands of the players arrive at the checker of their zone one at a time:
`TeamManager` keeps the teams, asks `MatchManager` for a match, and hands the
confirmations on to it.  Between the commands the periodic `update` matches the
pools and lets old pairs expire.

A request hands the `members_info` array of the team over.  Whoever joins,
leaves or is kicked later on changes this array, and with it the requests and
the pairs of the team.

`History` records what happened to the pairs; no command reads it.
-/

namespace ArmyRs
namespace Match

open Foundation

structure TeamInfo where
  creator : PlayerId
  teamScore : Int
  membersInfo : Ref
  teamType : Int
  /-- 0: idle, 1: in match pool, 2: match ok and not confirmed. -/
  status : Nat
  deriving DecidableEq, Repr

/-! ## Rooms -/

/-- What `RoomInfo#initialize` sets and a caller can read. -/
structure RoomInfo where
  type : String
  creator : String
  id : String
  timeStamp : Nat
  deriving DecidableEq, Repr

/-- `RoomInfo.gen_room_id(uid)`; another number of arguments is an
`ArgumentError`. -/
def RoomInfo.genRoomId (now : Nat) : List String → Option String
  | [uid] => some s!"RID-{uid}-{now}"
  | _ => none

/-- `RoomInfo.new(type, rid, uid)`; another number of arguments is an
`ArgumentError`. -/
def RoomInfo.new (now : Nat) : List String → Option RoomInfo
  | [type, rid, uid] => some ⟨type, uid, rid, now⟩
  | _ => none

/-! ## State -/

/-- A combat that was started: for which pair, and the players told to start. -/
structure Combat where
  serial : Nat
  pids : List PlayerId
  deriving DecidableEq, Repr

structure History where
  /-- The pairs for which `check_match_all_confirmed` came to the creation of
  the room, as they were at that moment. -/
  created : List MatchedPair
  /-- The pairs that were confirmed by all players they were formed with when a
  combat server was available. -/
  completed : List MatchedPair
  started : List Combat
  deriving DecidableEq, Repr

structure TeamManager where
  arrays : Arrays
  nextRef : Ref
  playerTeamid : PlayerId → Option Nat
  teamInfos : Nat → Option TeamInfo
  /-- The team that a player has created. -/
  teamMap : PlayerId → Option Nat
  maxTeamid : Option Nat

/-- A checker process. -/
structure Checker where
  teams : TeamManager
  matching : MatchManager
  history : History

inductive Event
  | createTeam (pid : PlayerId) (score teamType : Int)
  | removeTeam (id : Nat)
  | joinTeam (id : Nat) (pid : PlayerId) (score : Int)
  | leaveTeam (id : Nat) (pid : PlayerId)
  | kickMember (id : Nat) (kickedPid : PlayerId)
  | teamMemberReady (id : Nat) (pid : PlayerId) (ready : Bool)
  /-- `closed` is the answer of `match_close?`. -/
  | matchRequest (id zone mtype ctype : Nat) (closed : Bool)
  | matchCancel (id poolid : Nat)
  /-- `server` tells whether `CombatServerDB.get_server` knows a server. -/
  | matchConfirm (pairId : Nat) (pid : PlayerId) (ok server : Bool) (now : Nat)
  /-- A player goes offline. -/
  | removePlayer (pid : PlayerId)
  /-- The periodic update. -/
  | update
  deriving DecidableEq, Repr

namespace TeamManager

def setInfo (t : TeamManager) (id : Nat) (info : TeamInfo) : TeamManager :=
  { t with teamInfos := Function.update t.teamInfos id (some info) }

def setArray (t : TeamManager) (ref : Ref) (members : List Member) : TeamManager :=
  { t with arrays := Function.update t.arrays ref members }

def deletePlayerTeamids (t : TeamManager) (pids : List PlayerId) : TeamManager :=
  { t with playerTeamid := fun pid => if pid ∈ pids then none else t.playerTeamid pid }

section

variable (t : TeamManager) (id : Nat) (info : TeamInfo) (ref : Ref) (members : List Member)
  (pids : List PlayerId)

@[simp] theorem arrays_setInfo : (t.setInfo id info).arrays = t.arrays := rfl

@[simp] theorem teamInfos_setInfo :
    (t.setInfo id info).teamInfos = Function.update t.teamInfos id (some info) := rfl

@[simp] theorem playerTeamid_setInfo : (t.setInfo id info).playerTeamid = t.playerTeamid := rfl

@[simp] theorem teamMap_setInfo : (t.setInfo id info).teamMap = t.teamMap := rfl

@[simp] theorem arrays_setArray :
    (t.setArray ref members).arrays = Function.update t.arrays ref members := rfl

@[simp] theorem teamInfos_setArray : (t.setArray ref members).teamInfos = t.teamInfos := rfl

@[simp] theorem playerTeamid_setArray :
    (t.setArray ref members).playerTeamid = t.playerTeamid := rfl

@[simp] theorem teamMap_setArray : (t.setArray ref members).teamMap = t.teamMap := rfl

@[simp] theorem arrays_deletePlayerTeamids :
    (t.deletePlayerTeamids pids).arrays = t.arrays := rfl

@[simp] theorem teamInfos_deletePlayerTeamids :
    (t.deletePlayerTeamids pids).teamInfos = t.teamInfos := rfl

@[simp] theorem playerTeamid_deletePlayerTeamids :
    (t.deletePlayerTeamids pids).playerTeamid =
      fun pid => if pid ∈ pids then none else t.playerTeamid pid := rfl

@[simp] theorem teamMap_deletePlayerTeamids :
    (t.deletePlayerTeamids pids).teamMap = t.teamMap := rfl

end

/-- `GET_TEAM_NEWID` -/
def genTeamId (t : TeamManager) : Nat :=
  match t.maxTeamid with
  | none => 1
  | some maxid => if maxid + 1 > 100000000 then 1 else maxid + 1

/-- `calc_score`, for an array that is not empty. -/
def calcScore (members : List Member) : Int :=
  (members.map Member.score).sum / members.length

/-- `in_team?` -/
def inTeam (t : TeamManager) (info : TeamInfo) (pid : PlayerId) : Bool :=
  pid ∈ t.arrays.pids info.membersInfo

/-- `membercount` -/
def membercount (t : TeamManager) (info : TeamInfo) : Nat :=
  (t.arrays info.membersInfo).length

/-- `check_addready?` -/
def checkAddready (t : TeamManager) (info : TeamInfo) : Bool :=
  (t.arrays info.membersInfo).all fun mi => mi.ready || mi.pid == info.creator

/-- `set_status`, with the readiness that status 0 takes back. -/
def setStatus (t : TeamManager) (id status : Nat) : TeamManager :=
  match t.teamInfos id with
  | none => t
  | some info =>
      let t := t.setInfo id { info with status := status }
      if status = 0 then
        t.setArray info.membersInfo ((t.arrays info.membersInfo).map fun mi =>
          if mi.pid ≠ info.creator then { mi with ready := false } else mi)
      else t

/-- `set_ready` -/
def setReady (t : TeamManager) (info : TeamInfo) (pid : PlayerId) (ready : Bool) : TeamManager :=
  t.setArray info.membersInfo ((t.arrays info.membersInfo).map fun mi =>
    if mi.pid = pid ∧ pid ≠ info.creator then { mi with ready := ready } else mi)

/-- `remove_member`; the score stays as it was. -/
def removeMember (t : TeamManager) (info : TeamInfo) (pid : PlayerId) : TeamManager :=
  t.setArray info.membersInfo
    ((t.arrays info.membersInfo).filter fun mi => mi.pid ≠ pid)

/-- `add_member` of a player that is not in the team; a sixth member is not
added. -/
def addMember (t : TeamManager) (id : Nat) (info : TeamInfo) (pid : PlayerId) (score : Int) :
    TeamManager :=
  if t.membercount info = 5 then t
  else
    let members := t.arrays info.membersInfo ++ [⟨pid, score, pid == info.creator⟩]
    (t.setArray info.membersInfo members).setInfo id { info with teamScore := calcScore members }

/-- The end of `create_team`: a new team with a new array. -/
def newTeam (t : TeamManager) (pid : PlayerId) (score teamType : Int) : TeamManager :=
  let id := t.genTeamId
  let members : List Member := [⟨pid, score, true⟩]
  { arrays := Function.update t.arrays t.nextRef members
    nextRef := t.nextRef + 1
    playerTeamid := Function.update t.playerTeamid pid (some id)
    teamInfos := Function.update t.teamInfos id
      (some ⟨pid, calcScore members, t.nextRef, teamType, 0⟩)
    teamMap := Function.update t.teamMap pid (some id)
    maxTeamid := some id }

/-- The tables of `do_remove_team`. -/
def deleteTeam (t : TeamManager) (id : Nat) (info : TeamInfo) : TeamManager :=
  { t with
    teamMap := Function.update t.teamMap info.creator none
    teamInfos := Function.update t.teamInfos id none }.deletePlayerTeamids
      (t.arrays.pids info.membersInfo)

/-- `join_team` comes as far as `add_member`, and the player is not in the team
yet. -/
def canJoin (t : TeamManager) (info : TeamInfo) (pid : PlayerId) : Bool :=
  (t.playerTeamid pid).isNone && (t.teamMap pid).isNone && info.status == 0 &&
    decide ((t.membercount info : Int) < info.teamType + 1) && !t.inTeam info pid

end TeamManager

namespace Checker

/-! ## Teams -/

/-- `do_remove_team`; it raises for a team that is not there. -/
def doRemoveTeam (c : Checker) (id : Nat) : Option Checker :=
  match c.teams.teamInfos id with
  | none => none
  | some info =>
      some { c with
        teams := c.teams.deleteTeam id info
        matching := c.matching.delTeamDetail id }

def removeTeam (c : Checker) (id : Nat) : Checker :=
  (c.doRemoveTeam id).getD c

/-- The team that `player_teamid` names is there and was created by another
player. -/
def inForeignTeam (c : Checker) (pid : PlayerId) : Bool :=
  ((c.teams.playerTeamid pid).bind c.teams.teamInfos).any fun info => info.creator != pid

def createTeam (c : Checker) (pid : PlayerId) (score teamType : Int) : Checker :=
  if c.inForeignTeam pid then c
  else
    let removed :=
      match c.teams.teamMap pid with
      | none => some c
      | some existId => c.doRemoveTeam existId
    match removed with
    | none => c
    | some c => { c with teams := c.teams.newTeam pid score teamType }

def joinTeam (c : Checker) (id : Nat) (pid : PlayerId) (score : Int) : Checker :=
  match c.teams.teamInfos id with
  | none => c
  | some info =>
      if c.teams.canJoin info pid then
        let teams := c.teams.addMember id info pid score
        { c with
          teams := { teams with playerTeamid := Function.update teams.playerTeamid pid (some id) } }
      else c

/-- `leave_team`: the entry in `player_teamid` goes, whatever team it names. -/
def leaveTeam (c : Checker) (id : Nat) (pid : PlayerId) : Checker :=
  match c.teams.teamInfos id with
  | none => c
  | some info =>
      let c := { c with teams := (c.teams.deletePlayerTeamids [pid]).removeMember info pid }
      if info.creator = pid then c.removeTeam id else c

def kickMember (c : Checker) (id : Nat) (kickedPid : PlayerId) : Checker :=
  match c.teams.teamInfos id with
  | none => c
  | some info =>
      if info.creator = kickedPid then c
      else
        { c with
          teams := (c.teams.removeMember info kickedPid).deletePlayerTeamids [kickedPid] }

def teamMemberReady (c : Checker) (id : Nat) (pid : PlayerId) (ready : Bool) : Checker :=
  match c.teams.teamInfos id with
  | none => c
  | some info => { c with teams := c.teams.setReady info pid ready }

/-! ## Requests -/

/-- The pool that a request of the team goes to, for a team whose members are
ready. -/
def requestPool (profiles : List PoolProfile) (c : Checker) (info : TeamInfo)
    (mtype ctype : Nat) (closed : Bool) : Option Nat :=
  if c.teams.checkAddready info && !closed then
    getSingleMatchPoolId profiles mtype ctype info.teamScore
  else none

/-- `match_request`.  The status of the team is written and not read. -/
def matchRequest (profiles : List PoolProfile) (c : Checker) (id zone mtype ctype : Nat)
    (closed : Bool) : Checker :=
  match c.teams.teamInfos id with
  | none => c
  | some info =>
      let poolId := c.requestPool profiles info mtype ctype closed
      let added := c.matching.addTeam id zone poolId info.membersInfo
        (c.teams.arrays.pids info.membersInfo)
      if added.2 then { c with teams := c.teams.setStatus id 1, matching := added.1 }
      else { c with matching := added.1 }

def matchCancel (c : Checker) (id poolid : Nat) : Checker :=
  match c.teams.teamInfos id with
  | none => c
  | some _ =>
      { c with teams := c.teams.setStatus id 0, matching := c.matching.matchCancel poolid id }

/-! ## Confirmation -/

/-- The pair goes, and its teams leave all pools. -/
def dismiss (c : Checker) (mp : MatchedPair) : Checker :=
  { c with matching := (c.matching.deletePair mp.pairId).delTeamDetailByMp mp }

/-- The loop of `check_match_all_confirmed` over the members of the teams, as
they are now. -/
def allConfirmed (c : Checker) (mp : MatchedPair) : Bool :=
  (c.teams.arrays.pairPids mp.pair).all fun pid => pid ∈ mp.confirms

/-- The creation of the room: `gen_room_id` is called with three arguments and
`RoomInfo.new` with six. -/
def createRoom (profiles : List PoolProfile) (mp : MatchedPair) (now : Nat) : Option RoomInfo :=
  match (initPoolProfiles profiles).find? fun profile => profile.id = mp.poolId with
  | none => none
  | some profile =>
      let ctype := toString profile.combatType
      let mtype := toString profile.mapType
      match RoomInfo.genRoomId now [toString mp.poolId, mtype, ctype] with
      | none => none
      | some rid => RoomInfo.new now [ctype, rid, "match_pool", "0", mtype, "1"]

/-- What follows the creation of the room. -/
def startCombat (c : Checker) (mp : MatchedPair) (server : Bool) : Checker :=
  let pids := c.teams.arrays.pairPids mp.pair
  let c := { c with matching := (c.matching.deletePlayerPairs pids).deletePoolTeams pids }
  if server then
    { c with history := { c.history with
        started := c.history.started ++ [(⟨mp.serial, pids⟩ : Combat)] } }.dismiss mp
  else c

/-- `check_match_all_confirmed`; an error in the creation of the room ends the
command. -/
def checkMatchAllConfirmed (profiles : List PoolProfile) (c : Checker) (mp : MatchedPair)
    (server : Bool) (now : Nat) : Checker :=
  if c.allConfirmed mp then
    let c := { c with history := { c.history with created := c.history.created ++ [mp] } }
    match createRoom profiles mp now with
    | none => c
    | some _ => c.startCombat mp server
  else c

/-- Records a pair that all players it was formed with have confirmed while a
server is available. -/
def recordCompleted (c : Checker) (mp : MatchedPair) (server : Bool) : Checker :=
  if server = true ∧ ∀ pid ∈ mp.formed, pid ∈ mp.confirms then
    { c with history := { c.history with completed := c.history.completed ++ [mp] } }
  else c

/-- `comfirm_match_pair`; it does not look whether the player is in the pair. -/
def comfirmMatchPair (profiles : List PoolProfile) (c : Checker) (pairId : Nat) (pid : PlayerId)
    (ok server : Bool) (now : Nat) : Checker :=
  match c.matching.findPair pairId with
  | none => c
  | some mp =>
      if ok then
        let c := { c with matching := c.matching.confirm pairId pid }
        let mp := { mp with confirms := mp.confirms.insert pid }
        (c.recordCompleted mp server).checkMatchAllConfirmed profiles mp server now
      else c.dismiss mp

/-! ## Departures -/

/-- `dismiss_pair_on_playeroffline` -/
def dismissPairOnPlayeroffline (c : Checker) (pid : PlayerId) : Checker :=
  match c.matching.playerPair pid with
  | some pairId =>
      match c.matching.findPair pairId with
      | none => c
      | some mp =>
          let c := c.dismiss mp
          { c with
            matching := c.matching.deletePlayerPairs (c.teams.arrays.pairPids mp.pair) }
  | none =>
      match c.matching.playerPoolTeam pid with
      | none => c
      | some entry =>
          { c with matching := c.matching.removeFromPool entry.zone entry.poolId entry.teamId }

/-- `remove_player`; a team that is gone raises. -/
def removePlayer (c : Checker) (pid : PlayerId) : Checker :=
  match c.teams.playerTeamid pid with
  | none => c
  | some id =>
      match c.teams.teamInfos id with
      | none => c
      | some info =>
          let c := { c with teams := c.teams.setStatus id 0 }.dismissPairOnPlayeroffline pid
          if info.creator = pid then c.removeTeam id
          else
            { c with teams := (c.teams.removeMember info pid).deletePlayerTeamids [pid] }

/-! ## The periodic update -/

/-- `push_team_pair` for the pairs that `do_match` has found. -/
def pushTeamPairs (c : Checker) (res : List Pair) : Checker :=
  { c with
    teams := (res.flatMap Pair.tms).foldl (fun t item => t.setStatus item.teamId 2) c.teams }

/-- `update` over the pools that are still to come: the checker, the pools as
they are afterwards, and whether a `do_match` has raised.  What such a
`do_match` has found so far is lost. -/
def updatePools : Checker → List Pool → Checker × List Pool × Bool
  | c, [] => (c, [], false)
  | c, pool :: pools =>
      if pool.lastTick + matchInterval ≤ c.matching.tick then
        let round := pool.teamMatch.doMatch
        let pool := { pool with lastTick := c.matching.tick, teamMatch := round.pool }
        let c := c.pushTeamPairs round.res
        if round.raised then (c, pool :: pools, true)
        else
          let c := { c with
            matching := round.res.foldl (MatchManager.formPair c.teams.arrays pool) c.matching }
          let rest := updatePools c pools
          (rest.1, pool :: rest.2.1, rest.2.2)
      else
        let rest := updatePools c pools
        (rest.1, pool :: rest.2.1, rest.2.2)

/-- `MatchManager.update`; the caller rescues what it raises. -/
def update (c : Checker) : Checker :=
  let c := { c with matching := { c.matching with tick := c.matching.tick + 1 } }
  let (c, pools, raised) := c.updatePools c.matching.pools
  let c := { c with matching := { c.matching with pools := pools } }
  if raised then c else { c with matching := c.matching.checkTimeout }

end Checker

/-- One command, or one periodic update. -/
def step (profiles : List PoolProfile) (c : Checker) : Event → Option Checker
  | .createTeam pid score teamType => some (c.createTeam pid score teamType)
  | .removeTeam id => some (c.removeTeam id)
  | .joinTeam id pid score => some (c.joinTeam id pid score)
  | .leaveTeam id pid => some (c.leaveTeam id pid)
  | .kickMember id kickedPid => some (c.kickMember id kickedPid)
  | .teamMemberReady id pid ready => some (c.teamMemberReady id pid ready)
  | .matchRequest id zone mtype ctype closed =>
      some (c.matchRequest profiles id zone mtype ctype closed)
  | .matchCancel id poolid => some (c.matchCancel id poolid)
  | .matchConfirm pairId pid ok server now =>
      some (c.comfirmMatchPair profiles pairId pid ok server now)
  | .removePlayer pid => some (c.removePlayer pid)
  | .update => some c.update

/-- A checker after `MatchManager.init`: no team, empty pools. -/
def initial (profiles : List PoolProfile) (zones : List Nat) (random : Nat → Nat → Nat)
    (maxTeamid : Option Nat) : Checker where
  teams :=
    { arrays := fun _ => []
      nextRef := 0
      playerTeamid := fun _ => none
      teamInfos := fun _ => none
      teamMap := fun _ => none
      maxTeamid := maxTeamid }
  matching :=
    { pools := initPools profiles zones random
      tick := 0
      matchedPairs := []
      pairUuid := 0
      pairsFormed := 0
      playerPair := fun _ => none
      playerPoolTeam := fun _ => none }
  history := ⟨[], [], []⟩

/-! ## A small checker -/

/-- A pool for 1v1 and a pool for 2v2. -/
def singlesAndDoubles : List PoolProfile := [⟨0, 1, 0, 0, 5000⟩, ⟨1, 1, 1, 0, 5000⟩]

/-- A checker of zone 1 with the two pools. -/
def emptyChecker : Checker :=
  initial singlesAndDoubles [1] (fun _ _ => 0) none

/-- Two players ask for a 1v1 and are paired. -/
def singlesPaired : List Event :=
  [.createTeam 7 1000 0, .createTeam 8 1000 0, .matchRequest 1 1 1 0 false,
    .matchRequest 2 1 1 0 false, .update, .update, .update, .update, .update, .update]

end Match
end ArmyRs
