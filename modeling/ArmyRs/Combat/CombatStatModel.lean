import ArmyRs.Combat.CombatStatItem
import ArmyRs.Foundation.Transition

/-!
# The votes of a room

`CombatStatModel` lets the players of a room outvote a cheater, twice.

* The reports of a frame are collected until there are as many as players; then
  every report is compared with every other one, and the views of the players
  with the most agreement are written.  Frames that stay incomplete are written
  as they are when their time is over.
* At the end the statistics that the views lead to are compared, and one with the
  most agreement is the result of the room.

`total_data` and `staResolve` are variables of the Lua state, which every room has
for itself, since it is a service of its own.  `resolved` records the frames that
were written, and `senders` whose messages the counter of a frame has counted;
nothing reads them.
-/

namespace ArmyRs
namespace Combat

open Foundation

abbrev Frame := LuaValue

structure StatModel where
  initialized : Bool
  framedata : Table Frame (Table Pid Detail)
  framebegintick : Table Frame Nat
  framepcnt : Table Frame Nat
  playerdata : Table Pid PlayerData
  offlinePlayers : Table Pid PlayerData
  totalData : Table Pid Total
  playercnt : Int
  staResolve : Option CombatStat
  /-- `skynet.now()` -/
  now : Nat
  resolved : List Frame
  senders : Frame → List Pid

/-- `CombatStatModel.new`: the global variable `staResolve` stays as it is in the
Lua state of the room. -/
def StatModel.new (staResolve : Option CombatStat) (now : Nat) : StatModel where
  initialized := false
  framedata := ∅
  framebegintick := ∅
  framepcnt := ∅
  playerdata := ∅
  offlinePlayers := ∅
  totalData := ∅
  playercnt := 0
  staResolve := staResolve
  now := now
  resolved := []
  senders := fun _ => []

/-! ## Players -/

/-- `init`: every player has a view of all seats. -/
def StatModel.init (s : StatModel) (members : Members) : StatModel :=
  if s.initialized then s
  else
    let seats := members.seats
    let view := seats.foldl (fun view seat => initPlayers view seat.1 seat.2)
      (PlayerData.mk emptySide emptySide)
    { s with
      initialized := true
      playerdata := seats.foldl (fun playerdata seat => playerdata.insert seat.2.pid view)
        s.playerdata
      playercnt := seats.length }

/-- `re_enter` -/
def StatModel.reEnter (s : StatModel) (pid : Pid) : StatModel :=
  match s.playerdata.lookup pid, s.offlinePlayers.lookup pid with
  | none, some view =>
      { s with
        playerdata := s.playerdata.insert pid view
        offlinePlayers := s.offlinePlayers.erase pid
        playercnt := s.playercnt + 1 }
  | _, _ => s

/-- `player_offline` -/
def StatModel.playerOffline (s : StatModel) (pid : Pid) : StatModel :=
  match s.playerdata.lookup pid with
  | some view =>
      { s with
        offlinePlayers := s.offlinePlayers.insert pid view
        playerdata := s.playerdata.erase pid
        totalData := s.totalData.erase pid
        playercnt := s.playercnt - 1 }
  | none => s

/-! ## Votes -/

/-- `compare_frameData`: the second report has what the first one has. -/
def compareFrameData (stat1 stat2 : Detail) : Bool :=
  stat1.entries.all fun entry =>
    match stat2.lookup entry.1 with
    | none => false
    | some pstat => entry.2.entries.all fun field => pstat.lookup field.1 = some field.2

/-- A field that is there in the first statistics is the same in the second. -/
def sameIfThere (field1 field2 : Option LuaValue) : Bool :=
  field1.isNone || field1 = field2

/-- `compare_stat`: one level deep, so that the tables of the sides are compared
by identity. -/
def compareStat (stat1 stat2 : CombatStat) : Bool :=
  sameIfThere stat1.token stat2.token && sameIfThere stat1.mtype stat2.mtype &&
    sameIfThere stat1.ctype stat2.ctype && sameIfThere stat1.winner stat2.winner &&
    sameIfThere stat1.duration stat2.duration && sameIfThere stat1.begintime stat2.begintime &&
    sameIfThere stat1.enterType stat2.enterType &&
    (List.range stat1.stats.length).all fun m =>
      (stat2.stats[m]?).map SideStat.ref = (stat1.stats[m]?).map SideStat.ref

/-- How many ballots agree with the one of a player, itself included. -/
def votes {V : Type*} (agree : V → V → Bool) (ballots : Table Pid V) (k : Pid) (v : V) : Nat :=
  1 + ballots.entries.countP fun other => decide (k ≠ other.1) && agree v other.2

/-- `frmcntLst` and `cntlst` -/
def counts {V : Type*} (agree : V → V → Bool) (ballots : Table Pid V) : List (Pid × Nat) :=
  ballots.entries.map fun ballot => (ballot.1, votes agree ballots ballot.1 ballot.2)

/-- `max_cnt` -/
def maxCnt (cnts : List (Pid × Nat)) : Nat :=
  cnts.foldl (fun most cnt => if most < cnt.2 then cnt.2 else most) 0

/-! ## Frames -/

/-- The loop that writes a report into the views of the players with the most
votes.  The others are kicked off, which does nothing.  An error ends the loop. -/
def writeVotes (most : Nat) (detail : Detail) :
    List (Pid × Nat) → Table Pid PlayerData → Table Pid PlayerData × Bool
  | [], playerdata => (playerdata, true)
  | cnt :: cnts, playerdata =>
      if cnt.2 < most then writeVotes most detail cnts playerdata
      else
        match setPlayerdata playerdata cnt.1 detail with
        | none => (playerdata, false)
        | some playerdata => writeVotes most detail cnts playerdata

/-- The message is put with the others of its frame. -/
def StatModel.collect (s : StatModel) (pid : Pid) (frame : Frame) (detail : Detail) : StatModel :=
  { s with
    framedata := s.framedata.insert frame (((s.framedata.lookup frame).getD ∅).insert pid detail)
    framebegintick :=
      if (s.framedata.lookup frame).isNone then s.framebegintick.insert frame s.now
      else s.framebegintick
    framepcnt := s.framepcnt.insert frame ((s.framepcnt.lookup frame).getD 0 + 1)
    senders := Function.update s.senders frame (s.senders frame ++ [pid]) }

/-- The vote over a frame, with the report that has come last. -/
def StatModel.vote (s : StatModel) (frame : Frame) (detail : Detail) : StatModel :=
  let cnts := counts compareFrameData ((s.framedata.lookup frame).getD ∅)
  let s := { s with resolved := s.resolved ++ [frame] }
  match writeVotes (maxCnt cnts) detail cnts s.playerdata with
  | (playerdata, false) => { s with playerdata := playerdata }
  | (playerdata, true) =>
      { s with
        playerdata := playerdata
        framedata := s.framedata.erase frame
        framebegintick := s.framebegintick.erase frame
        framepcnt := s.framepcnt.erase frame
        senders := Function.update s.senders frame [] }

/-- `modify_playerdata` -/
def StatModel.modifyPlayerdata (s : StatModel) (pid : Pid) (frame : Frame) (detail : Detail) :
    StatModel :=
  if (s.playerdata.lookup pid).isSome then
    let s := s.collect pid frame detail
    if (((s.framepcnt.lookup frame).getD 0 : Nat) : Int) = s.playercnt then s.vote frame detail
    else s
  else s

/-- The frames whose time is over. -/
def StatModel.timedOut (s : StatModel) : List Frame :=
  (s.framebegintick.entries.filter fun tick => decide (500 ≤ s.now - tick.2)).map Sigma.fst

/-- What was reported for a frame that has timed out, for players that are there. -/
def writeReports (reports : Table Pid Detail) (playerdata : Table Pid PlayerData) :
    Table Pid PlayerData :=
  reports.entries.foldl (fun playerdata report =>
    match playerdata.lookup report.1 with
    | some view => playerdata.insert report.1 (view.set report.2)
    | none => playerdata) playerdata

/-- One round of `hCheckFrameData`.  The counters of the frames stay. -/
def StatModel.checkFrameData (s : StatModel) : StatModel :=
  let dellst := s.timedOut
  { s with
    playerdata := dellst.foldl
      (fun playerdata frame => writeReports ((s.framedata.lookup frame).getD ∅) playerdata)
      s.playerdata
    framedata := dellst.foldl (fun framedata frame => framedata.erase frame) s.framedata
    framebegintick := dellst.foldl (fun ticks frame => ticks.erase frame) s.framebegintick
    resolved := s.resolved ++ dellst }

/-! ## The result of the room -/

/-- The first loop of `resolve_combatstat`: the statistics of the players in the
order in which `pairs` takes them, with two tables for each. -/
def computeStats (members : Members) (s : StatModel) : List Pid → Nat →
    Option (Table Pid CombatStat)
  | [], _ => some ∅
  | pid :: pids, ref =>
      match s.playerdata.lookup pid, s.totalData.lookup pid with
      | some view, some total =>
          (computeStats members s pids (ref + 2)).map fun stalst =>
            stalst.insert pid (getCombatStat ref members view total).2
      | _, _ => none

/-- The last loop: the last one with the most votes in the order of `pairs`. -/
def pickStat (stalst : Table Pid CombatStat) (cntlst : List (Pid × Nat)) (most : Nat)
    (order : List Pid) (staResolve : Option CombatStat) : Option CombatStat :=
  order.foldl (fun staResolve k =>
    match cntlst.lookup k with
    | some cnt => if cnt < most then staResolve else stalst.lookup k
    | none => staResolve) staResolve

/-- `getCombatStat` completes the views with what was uploaded. -/
def StatModel.finish (s : StatModel) (pids : List Pid) : Table Pid PlayerData :=
  pids.foldl (fun playerdata pid =>
    match playerdata.lookup pid, s.totalData.lookup pid with
    | some view, some total => playerdata.insert pid (view.finish total)
    | _, _ => playerdata) s.playerdata

/-- `resolve_combatstat`, with the orders in which its loops go through
`playerdata` and `cntlst`.  It fails when a player has uploaded nothing. -/
def StatModel.resolveCombatstat (s : StatModel) (members : Members)
    (playerdataOrder cntlstOrder : List Pid) : Option (StatModel × Option CombatStat) :=
  match s.staResolve with
  | some sta => some (s, some sta)
  | none =>
      (computeStats members s playerdataOrder 0).map fun stalst =>
        let cntlst := counts compareStat stalst
        let computed := playerdataOrder.getLast?.bind fun pid => stalst.lookup pid
        let staResolve := pickStat stalst cntlst (maxCnt cntlst) cntlstOrder computed
        ({ s with playerdata := s.finish playerdataOrder, staResolve := staResolve }, staResolve)

/-! ## Runs -/

inductive Event
  | tick (elapsed : Nat)
  | init (members : Members)
  | reEnter (pid : Pid)
  | playerOffline (pid : Pid)
  /-- A report of a frame. -/
  | combatDetail (pid : Pid) (frame : Frame) (detail : Detail)
  /-- The timer that `init` has started. -/
  | checkFrameData

def StatModel.step (s : StatModel) : Event → Option StatModel
  | .tick elapsed => some { s with now := s.now + elapsed }
  | .init members => some (s.init members)
  | .reEnter pid => some (s.reEnter pid)
  | .playerOffline pid => some (s.playerOffline pid)
  | .combatDetail pid frame detail => some (s.modifyPlayerdata pid frame detail)
  | .checkFrameData => if s.initialized then some s.checkFrameData else none

end Combat
end ArmyRs
