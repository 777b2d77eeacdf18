import Mathlib.Logic.Function.Basic
import ArmyRs.Lobby.RoomInfo

/-!
# The lobby

`CombatRoom` keeps the rooms of a checker in three tables of the class: the list
of the room ids, the rooms by their ids, and for each creator the id of his room.
The requests arrive over the RPC queue of the checker, one at a time.

`perform` answers with what is sent back, and with the tables after the request.
A request that raises is answered with a call error; what it changed before it
raised stays changed.
-/

namespace ArmyRs
namespace Lobby

/-- The `res` of a request. -/
structure Res where
  success : Bool
  reason : Option String
  roomInfo : Option RoomInfo
  roomInfos : Option (List (Option RoomInfo))
  deriving DecidableEq, Repr

/-- The `res` that a request starts with. -/
def Res.new : Res where
  success := true
  reason := none
  roomInfo := none
  roomInfos := none

/-- `ng`. -/
def Res.ng (res : Res) (reason : String) : Res :=
  { res with success := false, reason := some reason }

/-- `@@room_ids`, `@@room_infos` and `@@room_map`. -/
structure CombatRoom where
  roomIds : List String
  roomInfos : String → Option RoomInfo
  roomMap : String → Option String

def CombatRoom.new : CombatRoom where
  roomIds := []
  roomInfos := fun _ => none
  roomMap := fun _ => none

/-- What a request answers, `none` when it raises, and the tables behind it. -/
abbrev Answer := Option Res × CombatRoom

namespace CombatRoom

/-- `do_remove_room`.  The id of no room raises: there is no creator to ask for. -/
def doRemoveRoom (lobby : CombatRoom) (id : String) : Option CombatRoom :=
  match lobby.roomInfos id with
  | none => none
  | some roomInfo =>
      some
        { roomIds := lobby.roomIds.filter fun other => other ≠ id
          roomInfos := Function.update lobby.roomInfos id none
          roomMap := Function.update lobby.roomMap roomInfo.creator none }

/-- Removes the room that a creator has already. -/
def removeExisting (lobby : CombatRoom) (uid : String) : Option CombatRoom :=
  match lobby.roomMap uid with
  | none => some lobby
  | some existId => lobby.doRemoveRoom existId

/-- Writes a new room into the three tables. -/
def register (lobby : CombatRoom) (uid id : String) (roomInfo : RoomInfo) : CombatRoom where
  roomIds := lobby.roomIds ++ [id]
  roomInfos := Function.update lobby.roomInfos id (some roomInfo)
  roomMap := Function.update lobby.roomMap uid (some id)

/-- The two computers of a room for one. -/
def addComputers (roomInfo : RoomInfo) : RoomInfo :=
  let roomInfo := (roomInfo.addMember 1 "computer" "computer1").setReady (some "computer") true
  (roomInfo.addMember 2 "computer" "computer2").setReady (some "computer") true

/-- The room of `create_room`. -/
def createdRoom (uid name : String) (type : Option String) (now : Nat) : RoomInfo :=
  let roomInfo := (RoomInfo.new type (genRoomId uid now) uid now).addMember 0 uid name
  let roomInfo := (roomInfo.setReady (some uid) true).setHouseCreator (some uid) true
  if type = some "stand" then addComputers roomInfo else roomInfo

/-- `create_room`. -/
def createRoom (lobby : CombatRoom) (uid name : String) (type : Option String) (now : Nat) :
    Answer :=
  match lobby.removeExisting uid with
  | none => (none, lobby)
  | some lobby =>
      let roomInfo := createdRoom uid name type now
      (some { Res.new with roomInfo := some roomInfo },
        lobby.register uid (genRoomId uid now) roomInfo)

/-- `remove_room`. -/
def removeRoom (lobby : CombatRoom) (id : String) : Answer :=
  match lobby.doRemoveRoom id with
  | none => (none, lobby)
  | some next => (some Res.new, next)

/-- `start_combat`.  With a server found, the `member_pids` of the room are asked
for, which a `RoomInfo` does not have. -/
def startCombat (lobby : CombatRoom) (id : String) (server : Bool) : Answer :=
  match lobby.roomInfos id with
  | none => (some (Res.new.ng "room_not_exist"), lobby)
  | some roomInfo =>
      let res := { Res.new with roomInfo := some roomInfo }
      if roomInfo.allReady then
        match lobby.doRemoveRoom id with
        | none => (none, lobby)
        | some next => if server then (none, next) else (some (res.ng "server_unavailable"), next)
      else (some (res.ng "not_all_ready"), lobby)

/-- `notify_room_change` raises: a `RoomInfo` has no `member_pids`. -/
def notifyRoomChange (lobby : CombatRoom) : Answer :=
  (none, lobby)

/-- `get_room_list`: it opens a room of the asking player. -/
def getRoomList (lobby : CombatRoom) (uid name : String) (now : Nat) : Answer :=
  match lobby.removeExisting uid with
  | none => (none, lobby)
  | some lobby =>
      let id := genRoomId uid now
      let roomInfo := (RoomInfo.new (some "PVP") id uid now).addMember 0 uid name
      let lobby := lobby.register uid id roomInfo
      (some { Res.new with roomInfos := some (lobby.roomIds.map lobby.roomInfos) }, lobby)

/-- `get_room_info`. -/
def getRoomInfo (lobby : CombatRoom) (id : String) : Answer :=
  match lobby.roomInfos id with
  | none => (some (Res.new.ng ""), lobby)
  | some roomInfo => (some { Res.new with roomInfo := some roomInfo }, lobby)

/-- The room under an id after it has been changed in place. -/
def write (lobby : CombatRoom) (id : String) (roomInfo : RoomInfo) : CombatRoom :=
  { lobby with roomInfos := Function.update lobby.roomInfos id (some roomInfo) }

/-- `join_room`. -/
def joinRoom (lobby : CombatRoom) (id uid name : String) : Answer :=
  match lobby.roomInfos id with
  | none => (some (Res.new.ng "room_not_exist"), lobby)
  | some roomInfo =>
      if roomInfo.full then (some (Res.new.ng "full_member"), lobby)
      else
        let roomInfo :=
          if roomInfo.inRoom (some uid) then roomInfo.removeMember (some uid) else roomInfo
        match roomInfo.findVacant with
        -- without a position the array cannot be read
        | none => (none, lobby)
        | some pos => (lobby.write id (roomInfo.addMember pos uid name)).notifyRoomChange

/-- `set_ready`. -/
def setReady (lobby : CombatRoom) (id : String) (uid : Option String) (ready : Bool) : Answer :=
  match lobby.roomInfos id with
  | none => (some (Res.new.ng "room_not_exist"), lobby)
  | some roomInfo => (lobby.write id (roomInfo.setReady uid ready)).notifyRoomChange

/-- `leave_room`.  The clients are told before the room of its creator is
removed. -/
def leaveRoom (lobby : CombatRoom) (id : String) (uid : Option String) : Answer :=
  match lobby.roomInfos id with
  | none => (some (Res.new.ng "room_not_exist"), lobby)
  | some roomInfo =>
      if roomInfo.isCreator uid then
        match lobby.notifyRoomChange with
        | (none, lobby) => (none, lobby)
        | (some _, lobby) =>
            match (lobby.write id (roomInfo.removeMember uid)).doRemoveRoom id with
            | none => (none, lobby)
            | some next => (some Res.new, next)
      else (lobby.write id (roomInfo.removeMember uid)).notifyRoomChange

end CombatRoom

/-! ## Requests -/

/-- The requests.  `now` is the clock, and `server` tells whether a combat server
is found. -/
inductive Request
  | createRoom (uid name : String) (type : Option String) (now : Nat)
  | removeRoom (id : String)
  | startCombat (id : String) (server : Bool)
  | getRoomList (uid name : String) (now : Nat)
  | getRoomInfo (id : String)
  | joinRoom (id uid name : String)
  | setReady (id : String) (uid : Option String) (ready : Bool)
  | leaveRoom (id : String) (uid : Option String)
  deriving DecidableEq, Repr

/-- `perform`. -/
def perform (lobby : CombatRoom) : Request → Answer
  | .createRoom uid name type now => lobby.createRoom uid name type now
  | .removeRoom id => lobby.removeRoom id
  | .startCombat id server => lobby.startCombat id server
  | .getRoomList uid name now => lobby.getRoomList uid name now
  | .getRoomInfo id => lobby.getRoomInfo id
  | .joinRoom id uid name => lobby.joinRoom id uid name
  | .setReady id uid ready => lobby.setReady id uid ready
  | .leaveRoom id uid => lobby.leaveRoom id uid

/-- The tables after a sequence of requests. -/
def serve (lobby : CombatRoom) (requests : List Request) : CombatRoom :=
  requests.foldl (fun lobby request => (perform lobby request).2) lobby

/-- What every request keeps holds after all of them. -/
theorem serve_invariant {Inv : CombatRoom → Prop} {lobby : CombatRoom} (hstart : Inv lobby)
    (hkeep : ∀ lobby request, Inv lobby → Inv (perform lobby request).2)
    (requests : List Request) : Inv (serve lobby requests) := by
  induction requests generalizing lobby with
  | nil => exact hstart
  | cons request requests ih => exact ih (hkeep lobby request hstart)

/-! ## What a request does to the tables -/

/-- A request leaves the tables as they are, removes a room, opens a room after
removing the old one of its creator, or changes a room in place. -/
inductive Change (lobby : CombatRoom) : CombatRoom → Prop
  | same : Change lobby lobby
  | removed {id : String} {next : CombatRoom} (hnext : lobby.doRemoveRoom id = some next) :
      Change lobby next
  | opened {uid : String} {between : CombatRoom} {now : Nat} {roomInfo : RoomInfo}
      (hbetween : lobby.removeExisting uid = some between) (hcreator : roomInfo.creator = uid)
      (hseats : roomInfo.seats = [some uid, none, none] ∨
        roomInfo.seats = [some uid, some "computer", some "computer"]) :
      Change lobby (between.register uid (genRoomId uid now) roomInfo)
  | written {id : String} {old roomInfo : RoomInfo} (hold : lobby.roomInfos id = some old)
      (hcreator : roomInfo.creator = old.creator)
      (hseats : old.full = true → roomInfo.seats = old.seats) :
      Change lobby (lobby.write id roomInfo)

theorem createdRoom_creator (uid name : String) (type : Option String) (now : Nat) :
    (CombatRoom.createdRoom uid name type now).creator = uid := by
  unfold CombatRoom.createdRoom
  dsimp only
  split <;> rfl

/-- The creator sits on the first seat, and computers or nobody on the others. -/
theorem createdRoom_seats (uid name : String) (type : Option String) (now : Nat) :
    (CombatRoom.createdRoom uid name type now).seats = [some uid, none, none] ∨
      (CombatRoom.createdRoom uid name type now).seats =
        [some uid, some "computer", some "computer"] := by
  unfold CombatRoom.createdRoom
  dsimp only
  split
  · right
    simp [CombatRoom.addComputers]
  · left
    simp

section

variable {lobby : CombatRoom}

theorem createRoom_change (uid name : String) (type : Option String) (now : Nat) :
    Change lobby (lobby.createRoom uid name type now).2 := by
  unfold CombatRoom.createRoom
  split
  · exact .same
  · next between hbetween =>
    exact .opened hbetween (createdRoom_creator uid name type now)
      (createdRoom_seats uid name type now)

theorem getRoomList_change (uid name : String) (now : Nat) :
    Change lobby (lobby.getRoomList uid name now).2 := by
  unfold CombatRoom.getRoomList
  split
  · exact .same
  · next between hbetween => exact .opened hbetween rfl (.inl (by simp))

theorem removeRoom_change (id : String) : Change lobby (lobby.removeRoom id).2 := by
  unfold CombatRoom.removeRoom
  split
  · exact .same
  · next next hnext => exact .removed hnext

theorem startCombat_change (id : String) (server : Bool) :
    Change lobby (lobby.startCombat id server).2 := by
  unfold CombatRoom.startCombat
  split
  · exact .same
  · dsimp only
    split
    · split
      · exact .same
      · next next hnext =>
        cases server
        · exact .removed hnext
        · exact .removed hnext
    · exact .same

theorem getRoomInfo_change (id : String) : Change lobby (lobby.getRoomInfo id).2 := by
  unfold CombatRoom.getRoomInfo
  split
  · exact .same
  · exact .same

theorem setReady_change (id : String) (uid : Option String) (ready : Bool) :
    Change lobby (lobby.setReady id uid ready).2 := by
  unfold CombatRoom.setReady
  split
  · exact .same
  · next roomInfo hroom => exact .written hroom rfl fun _ => setReady_seats roomInfo uid ready

/-- Leaving changes nothing: the seat is not written, and the room of a creator
is not removed, since telling the clients raises. -/
theorem leaveRoom_change (id : String) (uid : Option String) :
    Change lobby (lobby.leaveRoom id uid).2 := by
  unfold CombatRoom.leaveRoom
  split
  · exact .same
  · next roomInfo hroom =>
    split
    · exact .same
    · exact .written hroom rfl fun _ => rfl

theorem joinRoom_change (id uid name : String) : Change lobby (lobby.joinRoom id uid name).2 := by
  unfold CombatRoom.joinRoom
  split
  · exact .same
  · next roomInfo hroom =>
    rw [removeMember_eq, ite_self]
    split
    · exact .same
    · next hfull =>
      dsimp only
      split
      · exact .same
      · next pos hpos => exact .written hroom rfl fun hroomFull => absurd hroomFull hfull

/-- Every request makes one of the changes. -/
theorem perform_change (request : Request) : Change lobby (perform lobby request).2 := by
  cases request with
  | createRoom uid name type now => exact createRoom_change uid name type now
  | removeRoom id => exact removeRoom_change id
  | startCombat id server => exact startCombat_change id server
  | getRoomList uid name now => exact getRoomList_change uid name now
  | getRoomInfo id => exact getRoomInfo_change id
  | joinRoom id uid name => exact joinRoom_change id uid name
  | setReady id uid ready => exact setReady_change id uid ready
  | leaveRoom id uid => exact leaveRoom_change id uid

end

end Lobby
end ArmyRs
