import ArmyRs.Foundation.Blocks
import ArmyRs.Foundation.Transition

/-!
# The frame broadcaster of a combat room

The inputs of the players are collected frame by frame: `InputFrameLine` pushes
an input into the action list of the current frame, and on every tick hands the
frame to `FrameBroadcaster:broadcast` and goes on to the next one.  A player
whose last sent frame is the one before gets the new frame at once (live); a
player that is behind asks for the missing frames with `sync_frame` and gets
them in batches of ten, with a sleep after each batch.

Action lists are Lua tables taken from a pool, so `Lists` keeps them behind
references: `heap` is what the tables hold, `actions` which table a frame has,
and `pond` the tables waiting in the pool.  A sent message is encoded at once;
its content is read off the heap at that moment.

A coroutine runs until it sleeps.  Hence an event is one tick, one pushed
input, one message of a client, or the waking of one sleeping
`startBatchSend`, and the order of the events is arbitrary.
-/

namespace ArmyRs
namespace FrameSync

open Foundation

/-- The address of a Lua table. -/
abbrev Ref := Nat

/-- `EMPTY_MSG`, the one table that stands for every frame without inputs. -/
def emptyMsg : Ref := 0

/-- `maxSize` of the pool of action lists. -/
def maxSize : Nat := 15000

inductive Status
  | online
  | offline
  deriving DecidableEq, Repr

/-- What `sendClientMsg` hands to the agent of a client: one frame (command 3)
or a batch of frames (command 4). -/
inductive Msg (Action : Type*)
  | frame (curFrame : Nat) (actions : List Action)
  | batch (startFrame stopFrame : Nat) (finished : Bool) (frames : List (List Action))
  deriving DecidableEq, Repr

/-- `batchMsg`, the table that all batches are sent with. -/
structure BatchMsg where
  startFrame : Nat := 0
  stopFrame : Nat := 0
  finished : Bool := false
  frames : List Ref := []
  deriving DecidableEq, Repr

/-- A sleeping `startBatchSend`: its player and its local `startFrame`. -/
structure Loop (Pid : Type*) where
  pid : Pid
  startFrame : Nat
  deriving DecidableEq, Repr

/-- The tables of action lists: `actions` of the broadcaster and its pool. -/
structure Lists (Action : Type*) where
  heap : Ref → List Action
  nextRef : Ref
  pond : List Ref
  actions : Nat → Option Ref

/-- A room with its broadcaster and its input line. -/
structure Room (Pid Action : Type*) where
  lists : Lists Action
  curFrm : Nat
  /-- The keys of `players`, in the order in which `pairs` visits them. -/
  players : List Pid
  status : Pid → Status
  sendStartFrames : Pid → Option Nat
  sendStopFrames : Pid → Option Nat
  batchSending : Pid → Bool
  batchMsg : BatchMsg
  sleeping : List (Loop Pid)
  /-- The messages sent so far. -/
  outbox : List (Pid × Msg Action)

/-- A new room: no player, no frame. -/
def initial {Pid Action : Type*} : Room Pid Action where
  lists :=
    { heap := fun _ => []
      nextRef := 1
      pond := []
      actions := fun _ => none }
  curFrm := 1
  players := []
  status := fun _ => .offline
  sendStartFrames := fun _ => none
  sendStopFrames := fun _ => none
  batchSending := fun _ => false
  batchMsg := {}
  sleeping := []
  outbox := []

inductive Event (Pid Action : Type*)
  /-- `player_enter`, for a new player or a player that comes back. -/
  | playerEnter (pid : Pid)
  | playerDisconnect (pid : Pid)
  | pushInput (action : Action)
  /-- The timer of the input line fires. -/
  | tick
  | syncFrame (pid : Pid) (startFrame : Nat)
  /-- The sleep of a `startBatchSend` is over. -/
  | wake (loop : Loop Pid)
  deriving DecidableEq, Repr

section

variable {Pid Action : Type*}

/-! ## The pool and the action lists -/

/-- `borrow`: the last table of the pond, or a new one. -/
def Lists.borrow (lists : Lists Action) : Lists Action × Ref :=
  match lists.pond.getLast? with
  | some object => ({ lists with pond := lists.pond.dropLast }, object)
  | none =>
      ({ lists with
          heap := Function.update lists.heap lists.nextRef []
          nextRef := lists.nextRef + 1 }, lists.nextRef)

/-- `recycle`: a full pond drops the table. -/
def Lists.recycle (lists : Lists Action) (object : Ref) : Lists Action :=
  if lists.pond.length < maxSize then { lists with pond := lists.pond ++ [object] }
  else { lists with pond := lists.pond.take maxSize }

/-- `self.actions[frm] = lst`. -/
def Lists.setActions (lists : Lists Action) (frm : Nat) (lst : Ref) : Lists Action :=
  { lists with actions := Function.update lists.actions frm (some lst) }

/-- `getActionLst`. -/
def Lists.getActionLst (lists : Lists Action) (frm : Nat) : Lists Action × Ref :=
  match lists.actions frm with
  | some lst => (lists, lst)
  | none =>
      let (lists, lst) := lists.borrow
      (lists.setActions frm lst, lst)

/-- `table.insert(lst, action)`. -/
def Lists.insert (lists : Lists Action) (lst : Ref) (action : Action) : Lists Action :=
  { lists with heap := Function.update lists.heap lst (lists.heap lst ++ [action]) }

/-- The first lines of `broadcast`: an empty list goes back to the pool and
`EMPTY_MSG` takes its place. -/
def Lists.settle (lists : Lists Action) (frm : Nat) (lst : Ref) : Lists Action × Ref :=
  match lists.heap lst with
  | [] => ((lists.recycle lst).setActions frm emptyMsg, emptyMsg)
  | _ :: _ => (lists, lst)

/-- `InputFrameLine:pushInput`. -/
def Room.pushInput (room : Room Pid Action) (action : Action) : Room Pid Action :=
  let (lists, lst) := room.lists.getActionLst room.curFrm
  { room with lists := lists.insert lst action }

variable [DecidableEq Pid]

/-! ## Live frames -/

/-- `sendClientMsg`. -/
def Room.sendClientMsg (room : Room Pid Action) (pid : Pid) (msg : Msg Action) :
    Room Pid Action :=
  { room with outbox := room.outbox ++ [(pid, msg)] }

/-- A tick sends its frame to the player: the player is online, the frame comes
right after the last frame it was sent, and no batch is on its way. -/
def Room.goesLive (room : Room Pid Action) (frm : Nat) (pid : Pid) : Bool :=
  decide (room.status pid = .online) &&
    (decide (frm = (room.sendStartFrames pid).getD 0 + 1) && !room.batchSending pid)

/-- What `broadcast` does for one player. -/
def Room.broadcastTo (frm : Nat) (lst : Ref) (room : Room Pid Action) (pid : Pid) :
    Room Pid Action :=
  let room := { room with
    sendStopFrames := Function.update room.sendStopFrames pid (some frm) }
  if room.goesLive frm pid then
    { room.sendClientMsg pid (.frame frm (room.lists.heap lst)) with
      sendStartFrames := Function.update room.sendStartFrames pid (some frm) }
  else room

/-- `FrameBroadcaster:broadcast`, for a frame whose list is in `actions`. -/
def Room.broadcast (room : Room Pid Action) (frm : Nat) (lst : Ref) : Room Pid Action :=
  let (lists, lst) := room.lists.settle frm lst
  room.players.foldl (Room.broadcastTo frm lst) { room with lists := lists }

/-- `InputFrameLine:broadcast`. -/
def Room.tick (room : Room Pid Action) : Room Pid Action :=
  let (lists, lst) := room.lists.getActionLst room.curFrm
  let room := { room with lists := lists }.broadcast room.curFrm lst
  { room with curFrm := room.curFrm + 1 }

/-! ## Batches -/

/-- The body of the loop of `startBatchSend`, up to the sleep. -/
def Room.sendBatch (room : Room Pid Action) (pid : Pid) (startFrame stopFrame : Nat) :
    Room Pid Action :=
  let start := startFrame
  let stop := if stopFrame ≤ start + 10 then stopFrame else start + 10
  let batchMsg : BatchMsg :=
    { startFrame := start
      stopFrame := stop
      finished := decide (stopFrame ≤ start + 10)
      -- `table.insert` of a missing list inserts nothing
      frames := (forRange (start + 1) stop 1).filterMap room.lists.actions }
  let room := { room with batchMsg := batchMsg }
  { room.sendClientMsg pid (.batch batchMsg.startFrame batchMsg.stopFrame batchMsg.finished
      (batchMsg.frames.map room.lists.heap)) with
    sendStartFrames := Function.update room.sendStartFrames pid (some stop)
    sleeping := room.sleeping ++ [⟨pid, stop⟩] }

/-- The head of the loop of `startBatchSend`, and what follows the loop. -/
def Room.loopBatch (room : Room Pid Action) (pid : Pid) (startFrame stopFrame : Nat) :
    Room Pid Action :=
  if startFrame < stopFrame ∧ room.status pid = .online then
    room.sendBatch pid startFrame stopFrame
  else { room with batchSending := Function.update room.batchSending pid false }

/-- `startBatchSend`, up to its first sleep. -/
def Room.startBatchSend (room : Room Pid Action) (pid : Pid) (startFrame : Nat) :
    Room Pid Action :=
  let room := { room with
    batchSending := Function.update room.batchSending pid true
    sendStartFrames := Function.update room.sendStartFrames pid (some startFrame) }
  room.loopBatch pid startFrame ((room.sendStopFrames pid).getD 0)

/-- A `startBatchSend` goes on after its sleep.  A missing stop frame stops the
coroutine with an error. -/
def Room.wake (room : Room Pid Action) (loop : Loop Pid) : Room Pid Action :=
  let room := { room with sleeping := room.sleeping.erase loop }
  match room.sendStopFrames loop.pid with
  | some stopFrame => room.loopBatch loop.pid loop.startFrame stopFrame
  | none => room

/-! ## Players -/

/-- `resetSendStatus`. -/
def Room.resetSendStatus (room : Room Pid Action) (pid : Pid) : Room Pid Action :=
  { room with sendStartFrames := Function.update room.sendStartFrames pid none }

/-- `player_enter`: a player that is still online loses its send status. -/
def Room.playerEnter (room : Room Pid Action) (pid : Pid) : Room Pid Action :=
  if pid ∈ room.players then
    let room := if room.status pid = .online then room.resetSendStatus pid else room
    { room with status := Function.update room.status pid .online }
  else
    { room with
      players := room.players ++ [pid]
      status := Function.update room.status pid .online }

/-- `player_disconnect`: the player stays in `players`. -/
def Room.playerDisconnect (room : Room Pid Action) (pid : Pid) : Room Pid Action :=
  { room with status := Function.update room.status pid .offline }.resetSendStatus pid

/-- One event.  A message about a player that is not in the room does nothing. -/
def step (room : Room Pid Action) : Event Pid Action → Option (Room Pid Action)
  | .playerEnter pid => some (room.playerEnter pid)
  | .playerDisconnect pid =>
      if pid ∈ room.players then some (room.playerDisconnect pid) else some room
  | .pushInput action => some (room.pushInput action)
  | .tick => some room.tick
  | .syncFrame pid startFrame =>
      if pid ∈ room.players then some (room.startBatchSend pid startFrame) else some room
  | .wake loop => if loop ∈ room.sleeping then some (room.wake loop) else none

end

end FrameSync
end ArmyRs
