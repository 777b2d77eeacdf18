import ArmyRs.Combat.CombatStatModel
import ArmyRs.Combat.Scheduler

/-!
# The room of a combat

A room is a service of its own.  The gate tells it which players connect, with
the number of their session, and which sessions end; the players send messages.
A message handler that fails destroys the room.  The timers run in one coroutine:
a timer that fails ends all of them.

The room counts down until all heroes are selected, waits until all players that
are online are ready, and starts the frame line.

* `exiting` counts the calls of `exit` that wait for the address of the room
  manager; the service ends when one of them goes on.
* `statuses`, `broadcasts` and `frameLineStarts` record what has happened, and
  `session` which session of a player has not ended; nothing reads them.
-/

namespace ArmyRs
namespace Combat

open Foundation

abbrev Sid := Nat

/-- `STATUS_ONLINE` and `STATUS_OFFLINE` -/
inductive PlayerStatus
  | online
  | offline
  deriving DecidableEq

/-- `GMS_INITED` and so on. -/
inductive RoomStatus
  | inited
  | counted
  | started
  | exited
  deriving DecidableEq

def RoomStatus.toNat : RoomStatus → Nat
  | .inited => 1
  | .counted => 2
  | .started => 3
  | .exited => 4

structure Player where
  pid : Pid
  token : String
  sid : Sid
  status : PlayerStatus

structure RoomSeat where
  pid : Pid
  name : LuaValue
  tid : Option LuaValue
  /-- What the data server says; the room does not change it. -/
  online : Bool
  loadingReady : Bool

/-- An empty seat is `-1`.  `playerData` has the selected car of each player. -/
structure RoomInfo where
  status : RoomStatus
  countDown : Int
  members : List (List (Option RoomSeat))
  playerData : Table Pid LuaValue

/-- The functions that are scheduled. -/
inductive Callback
  | doCheck
  | countDown
  | allLeft
  | onFrame
  | checkFrameData

/-- What is sent to all players that are online. -/
inductive Broadcast
  | onlinePeers (pids : List Pid)
  | countDown (count : Int)
  | enterCombat
  | gameStart
  deriving DecidableEq

structure Room where
  players : Table Pid Player
  sids : Table Sid Pid
  token : Option String
  roomInfo : Option RoomInfo
  hCountDown : Option Nat
  hAllLeft : Option Nat
  /-- The timer of the frame line. -/
  hTimer : Option Nat
  scheduler : Scheduler Callback
  schedulerRunning : Bool
  statModel : StatModel
  /-- The tables of the broadcaster are gone. -/
  broadcasterExited : Bool
  /-- Selections of a hero that wait for Redis. -/
  loading : Nat
  exiting : Nat
  activetick : Nat
  closed : Bool
  statuses : List RoomStatus
  broadcasts : List Broadcast
  frameLineStarts : Nat
  session : Pid → Option Sid

/-- The service at its start, with what earlier rooms have left. -/
def Room.new (staResolve : Option CombatStat) (now : Nat) : Room where
  players := ∅
  sids := ∅
  token := none
  roomInfo := none
  hCountDown := none
  hAllLeft := none
  hTimer := none
  scheduler := (Scheduler.new.schedule 500 .doCheck).1
  schedulerRunning := true
  statModel := StatModel.new staResolve now
  broadcasterExited := false
  loading := 0
  exiting := 0
  activetick := now
  closed := false
  statuses := []
  broadcasts := []
  frameLineStarts := 0
  session := fun _ => none

/-- `skynet.now()` -/
def Room.now (s : Room) : Nat := s.statModel.now

/-! ## Seats -/

/-- Goes through a list until the function fails. -/
def mapUntil {α : Type*} (f : α → α × Bool) : List α → List α × Bool
  | [] => ([], true)
  | a :: as =>
      match f a with
      | (a, true) => (a :: (mapUntil f as).1, (mapUntil f as).2)
      | (a, false) => (a :: as, false)

/-- A player without a hero gets the selected car; it is an error when there is
no data of the player. -/
def assignSeat (playerData : Table Pid LuaValue) : Option RoomSeat → Option RoomSeat × Bool
  | none => (none, true)
  | some seat =>
      match seat.tid, playerData.lookup seat.pid with
      | some _, _ => (some seat, true)
      | none, some car => (some { seat with tid := some car }, true)
      | none, none => (some seat, false)

/-- `assignDefaultProperty` -/
def assignDefaultProperty (info : RoomInfo) : List (List (Option RoomSeat)) × Bool :=
  mapUntil (mapUntil (assignSeat info.playerData)) info.members

/-- The seats that the statistics read; all have a hero by then. -/
def toMembers (members : List (List (Option RoomSeat))) : Members :=
  members.map fun side => side.map fun seat =>
    seat.bind fun seat => seat.tid.map fun tid => ⟨seat.pid, seat.name, tid⟩

/-- `checkAllHeroConfirm` -/
def checkAllHeroConfirm (members : List (List (Option RoomSeat))) : Bool :=
  members.all fun side => side.all fun seat => seat.all fun seat => seat.tid.isSome

/-- The first seat of the player on a side becomes ready. -/
def setLoadingReady (pid : Pid) : List (Option RoomSeat) → List (Option RoomSeat)
  | [] => []
  | none :: seats => none :: setLoadingReady pid seats
  | some seat :: seats =>
      if seat.pid = pid then some { seat with loadingReady := true } :: seats
      else some seat :: setLoadingReady pid seats

/-- The hero of a player on all of its seats. -/
def setTid (pid : Pid) (tid : Option LuaValue) (seat : RoomSeat) : RoomSeat :=
  if seat.pid = pid then { seat with tid := tid } else seat

/-! ## Status and timers -/

/-- `setRoomStatus` -/
def Room.setRoomStatus (s : Room) (status : RoomStatus) : Room :=
  match s.roomInfo with
  | none => s
  | some info =>
      { s with
        roomInfo := some { info with status := status }
        statuses := s.statuses ++ [status] }

def Room.broadcastMsg (s : Room) (msg : Broadcast) : Room :=
  { s with broadcasts := s.broadcasts ++ [msg] }

/-- `stopCountDown` -/
def Room.stopCountDown (s : Room) : Room :=
  match s.hCountDown with
  | none => s
  | some handle => { s with scheduler := s.scheduler.unschedule handle, hCountDown := none }

/-- `startCountDown` -/
def Room.startCountDown (s : Room) : Room :=
  match s.hCountDown, s.roomInfo with
  | none, some info =>
      if RoomStatus.counted.toNat ≤ info.status.toNat then s
      else
        { s with
          roomInfo := some { info with countDown := 60 }
          scheduler := (s.scheduler.schedule 100 .countDown).1
          hCountDown := some (s.scheduler.schedule 100 .countDown).2 }
  | _, _ => s

/-- `stopCheckAllLeft` -/
def Room.stopCheckAllLeft (s : Room) : Room :=
  match s.hAllLeft with
  | none => s
  | some handle => { s with scheduler := s.scheduler.unschedule handle, hAllLeft := none }

/-- `InputFrameLine:start` -/
def Room.inputFrmLineStart (s : Room) : Room :=
  { s with
    scheduler := (s.scheduler.schedule 2 .onFrame).1
    hTimer := some (s.scheduler.schedule 2 .onFrame).2
    frameLineStarts := s.frameLineStarts + 1 }

/-- `InputFrameLine:exit` -/
def Room.inputFrmLineExit (s : Room) : Room :=
  match s.hTimer with
  | none => s
  | some handle => { s with scheduler := s.scheduler.unschedule handle, hTimer := none }

/-- `init` of the statistics starts their timer. -/
def Room.statModelInit (s : Room) (members : Members) : Room :=
  { s with
    statModel := s.statModel.init members
    scheduler :=
      if s.statModel.initialized then s.scheduler
      else (s.scheduler.schedule 500 .checkFrameData).1 }

/-- The players that are online according to their seats. -/
def Room.notifyOnlinePeers (s : Room) : Room :=
  match s.roomInfo with
  | none => s
  | some info =>
      let peers := info.members.flatMap fun side => side.filterMap fun seat =>
        seat.bind fun seat => if seat.online then some seat.pid else none
      if peers = [] then s else s.broadcastMsg (.onlinePeers peers)

/-! ## The end of a room -/

/-- `FrameBroadcaster:exit` -/
def Room.broadcasterExit (s : Room) : Room := { s with broadcasterExited := true }

/-- `exit`, up to where it removes the room from the room manager. -/
def Room.exit (s : Room) : Room :=
  ((((s.setRoomStatus .exited).stopCheckAllLeft).stopCountDown).broadcasterExit).inputFrmLineExit

/-- `destroy`, up to where `removeRoomInfo` waits; it does not when no player has
ever entered. -/
def Room.destroy (s : Room) : Room :=
  match s.token with
  | none => { s.exit with closed := true }
  | some _ => { s.exit with exiting := s.exit.exiting + 1 }

/-- The rest of `exit`, and the end of the service. -/
def Room.exitResumed (s : Room) : Room :=
  { s with
    players := ∅
    sids := ∅
    token := none
    roomInfo := none
    closed := true
    session := fun _ => none }

/-! ## Messages of the players -/

/-- No player that is online is still loading. -/
def Room.allReady (s : Room) (info : RoomInfo) : Bool :=
  info.members.all fun side => side.all fun seat => seat.all fun seat =>
    !((s.players.lookup seat.pid).any (fun player => decide (player.status = .online)) &&
      !seat.loadingReady)

/-- `checkLoadingReady` -/
def Room.checkLoadingReady (s : Room) : Room :=
  match s.roomInfo with
  | none => s
  | some info =>
      if info.status ≠ .counted then s
      else if s.allReady info then
        ((s.broadcastMsg .gameStart).inputFrmLineStart).setRoomStatus .started
      else s

/-- `on_rcv_player_ready`: an error is caught. -/
def Room.onRcvPlayerReady (s : Room) (pid : Pid) : Room :=
  match s.roomInfo with
  | none => s
  | some info =>
      { s with roomInfo := some { info with
          members := info.members.map (setLoadingReady pid) } }.checkLoadingReady

/-- `on_rcv_hero_selected`, up to where it waits for Redis. -/
def Room.onRcvHeroSelected (s : Room) (pid : Pid) (tid : Option LuaValue) : Room :=
  match s.roomInfo with
  | none => s
  | some info =>
      { s with
        roomInfo := some { info with
          members := info.members.map fun side => side.map fun seat => seat.map (setTid pid tid) }
        loading := s.loading + 1 }

/-- The rest of `on_rcv_hero_selected`, with what Redis has answered. -/
def Room.heroLoaded (s : Room) (playerData : Option (Table Pid LuaValue)) : Room :=
  match s.roomInfo, playerData with
  | some info, some playerData =>
      { s with
        roomInfo := some { info with playerData := playerData }
        loading := s.loading - 1 }
  | _, _ => { s with loading := s.loading - 1 }

/-- `on_rcv_upload_stat`: when everybody has uploaded, the result is computed. -/
def Room.onRcvUploadStat (s : Room) (pid : Pid) (total : Total)
    (playerdataOrder cntlstOrder : List Pid) : Room :=
  let statModel := { s.statModel with totalData := s.statModel.totalData.insert pid total }
  let members := (s.roomInfo.map fun info => toMembers info.members).getD []
  if (statModel.totalData.keys.length : Int) = statModel.playercnt then
    match statModel.resolveCombatstat members playerdataOrder cntlstOrder with
    | none => { s with statModel := statModel }
    | some (statModel, _) => { s with statModel := statModel }
  else { s with statModel := statModel }

/-! ## Connections -/

/-- Whether everybody has left. -/
def Room.allLeft (s : Room) : Bool :=
  s.players.entries.all fun entry => decide (entry.2.status ≠ .online)

/-- `checkAllLeft`, called without `destroy`. -/
def Room.checkAllLeft (s : Room) : Room :=
  let s := s.stopCheckAllLeft
  if s.allLeft then
    { s with
      scheduler := (s.scheduler.schedule 3500 .allLeft).1
      hAllLeft := some (s.scheduler.schedule 3500 .allLeft).2 }
  else s

/-- The first player that enters brings the information of the room. -/
def Room.setRoomInfo (s : Room) (token : String) (roomInfo : RoomInfo) : Room :=
  match s.roomInfo with
  | none =>
      { s with roomInfo := some roomInfo, token := some (s.token.getD token) }.setRoomStatus .inited
  | some _ => s

/-- The player comes back to the statistics when the combat has started. -/
def Room.statModelReEnter (s : Room) (pid : Pid) : Room :=
  match s.roomInfo with
  | none => s
  | some info =>
      if RoomStatus.started.toNat ≤ info.status.toNat then
        { s with statModel := s.statModel.reEnter pid }
      else s

/-- The player is online with its new session. -/
def Room.addPlayer (s : Room) (pid : Pid) (token : String) (sid : Sid) : Room :=
  { s with
    players := s.players.insert pid ⟨pid, token, sid, .online⟩
    sids := s.sids.insert sid pid
    session := Function.update s.session pid (some sid) }

/-- `player_enter`.  `resetSendStatus` fails when the broadcaster has exited. -/
def Room.playerEnter (s : Room) (pid : Pid) (token : String) (roomInfo : RoomInfo) (sid : Sid) :
    Room × Bool :=
  let s := s.setRoomInfo token roomInfo
  if (s.players.lookup pid).any (fun player => decide (player.status = .online)) &&
      s.broadcasterExited then (s, false)
  else
    let s := (s.statModelReEnter pid).addPlayer pid token sid
    ((s.startCountDown.stopCheckAllLeft).notifyOnlinePeers, true)

/-- The player goes offline, whichever of its sessions has ended. -/
def Room.setOffline (s : Room) (sid : Sid) (pid : Pid) (player : Player) : Room :=
  { s with
    players := s.players.insert pid { player with status := .offline }
    statModel := s.statModel.playerOffline pid
    session :=
      if s.session pid = some sid then Function.update s.session pid none else s.session }

/-- `player_disconnect` -/
def Room.playerDisconnect (s : Room) (sid : Sid) : Room × Bool :=
  match s.sids.lookup sid with
  | none => (s, true)
  | some pid =>
      match s.players.lookup pid with
      | none => (s, false)
      | some player =>
          let s := s.setOffline sid pid player
          if s.broadcasterExited then (s, false)
          else
            let s := s.notifyOnlinePeers.checkAllLeft
            (if s.allLeft then s else s.checkLoadingReady, true)

/-! ## Timers -/

def Room.setMembers (s : Room) (members : List (List (Option RoomSeat))) : Room :=
  { s with roomInfo := s.roomInfo.map fun info => { info with members := members } }

/-- The count-down is over.  An error in `assignDefaultProperty` ends the timers. -/
def Room.countedDown (s : Room) (info : RoomInfo) : Room × Bool :=
  let assigned := assignDefaultProperty info
  let s := (s.stopCountDown.setRoomStatus .counted).setMembers assigned.1
  if assigned.2 then
    ((s.statModelInit (toMembers assigned.1)).broadcastMsg .enterCombat, true)
  else (s, false)

/-- The timer of the count-down. -/
def Room.onCountDown (s : Room) : Room × Bool :=
  match s.roomInfo with
  | none => (s, false)
  | some info =>
      let info := { info with countDown := info.countDown - 1 }
      let s := { s with roomInfo := some info }.broadcastMsg (.countDown info.countDown)
      if info.countDown ≤ 0 ∨ checkAllHeroConfirm info.members then s.countedDown info
      else (s, true)

/-- The timer of `checkAllLeft` destroys the room when nobody has come back. -/
def Room.onAllLeft (s : Room) : Room × Bool :=
  let s := s.stopCheckAllLeft
  if s.allLeft then (s.destroy, false) else (s, true)

/-- `doCheck`: a room that gets no messages ends. -/
def Room.doCheck (s : Room) : Room × Bool :=
  match s.roomInfo with
  | none => (s, false)
  | some info =>
      let timeout := if info.status = .started then 4500 else 30000
      if timeout ≤ s.now - s.activetick then ({ s with closed := true }, false) else (s, true)

/-- Calls a scheduled function; `false` when the coroutine does not go on. -/
def Room.call (s : Room) : Callback → Room × Bool
  | .doCheck => s.doCheck
  | .countDown => s.onCountDown
  | .allLeft => s.onAllLeft
  | .onFrame => (s, true)
  | .checkFrameData => ({ s with statModel := s.statModel.checkFrameData }, true)

/-- The functions that a pass of the scheduler calls. -/
def Room.calls : List Callback → Room → Room
  | [], s => s
  | func :: funcs, s =>
      match s.call func with
      | (s, true) => Room.calls funcs s
      | (s, false) => { s with schedulerRunning := false }

/-- One pass of the scheduler. -/
def Room.runClocks (s : Room) : Room :=
  Room.calls (s.scheduler.runClocks s.now).2
    { s with scheduler := (s.scheduler.runClocks s.now).1 }

/-! ## Runs -/

inductive RoomEvent
  | tick (elapsed : Nat)
  | playerEnter (pid : Pid) (token : String) (roomInfo : RoomInfo) (sid : Sid)
  | playerDisconnect (sid : Sid)
  | playerReady (sender : Pid)
  | heroSelected (pid : Pid) (tid : Option LuaValue)
  /-- Redis answers to a selection. -/
  | heroLoaded (playerData : Option (Table Pid LuaValue))
  | combatDetail (sender : Pid) (frame : Frame) (detail : Detail)
  | uploadStat (sender : Pid) (total : Total) (playerdataOrder cntlstOrder : List Pid)
  /-- A message without a handler. -/
  | unknown
  | runClocks
  | exitResumed

/-- Handles a message that makes the room active. -/
def Room.dispatch (s : Room) (handler : Room → Room × Bool) : Room :=
  match handler { s with activetick := s.now } with
  | (s, true) => s
  | (s, false) => s.destroy

/-- What happens in a room that is not closed. -/
def Room.handle (s : Room) : RoomEvent → Option Room
  | .tick elapsed => some { s with statModel := { s.statModel with now := s.now + elapsed } }
  | .playerEnter pid token roomInfo sid =>
      some (s.dispatch fun s => s.playerEnter pid token roomInfo sid)
  | .playerDisconnect sid => some (s.dispatch fun s => s.playerDisconnect sid)
  | .playerReady sender => some (s.dispatch fun s => (s.onRcvPlayerReady sender, true))
  | .heroSelected pid tid => some (s.dispatch fun s => (s.onRcvHeroSelected pid tid, true))
  | .heroLoaded playerData => if 0 < s.loading then some (s.heroLoaded playerData) else none
  | .combatDetail sender frame detail =>
      some (s.dispatch fun s =>
        ({ s with statModel := s.statModel.modifyPlayerdata sender frame detail }, true))
  | .uploadStat sender total playerdataOrder cntlstOrder =>
      some (s.dispatch fun s =>
        (s.onRcvUploadStat sender total playerdataOrder cntlstOrder, true))
  | .unknown => some (s.dispatch fun s => (s, false))
  | .runClocks => if s.schedulerRunning then some s.runClocks else none
  | .exitResumed => if 0 < s.exiting then some s.exitResumed else none

def Room.step (s : Room) (event : RoomEvent) : Option Room :=
  if s.closed then none else s.handle event

end Combat
end ArmyRs
