import Mathlib.Data.List.Basic

/-!
# The rooms of the lobby

`RoomInfo` is a room in which players wait for a combat: three seats, of which
the vacant ones hold `-1` and the others a member.  The seats are one array, so
that a member that is found can be changed in place.
-/

namespace ArmyRs
namespace Lobby

/-- The hash of a member. -/
structure Member where
  ready : Bool
  name : String
  uid : String
  houseCreator : Bool
  deriving DecidableEq, Repr

/-- A room.  A vacant seat is `none`. -/
structure RoomInfo where
  creator : String
  id : String
  members : List (Option Member)
  timeStamp : Nat
  type : Option String
  chIds : Int
  deriving DecidableEq, Repr

/-- `gen_room_id`. -/
def genRoomId (uid : String) (now : Nat) : String :=
  "RID-" ++ uid ++ "-" ++ toString now

/-- `initialize`, with three vacant seats. -/
def RoomInfo.new (type : Option String) (rid uid : String) (now : Nat) : RoomInfo where
  creator := uid
  id := rid
  members := List.replicate 3 none
  timeStamp := now
  type := type
  chIds := -1

namespace RoomInfo

/-- `find_vacant` without a position: the first vacant seat. -/
def findVacant (room : RoomInfo) : Option Nat :=
  room.members.findIdx? Option.isNone

/-- `add_member`: whatever the seat held is replaced. -/
def addMember (room : RoomInfo) (pos : Nat) (uid name : String) : RoomInfo :=
  { room with members := room.members.set pos (some ⟨false, name, uid, false⟩) }

/-- The member that `@members.find` looks for.  The uid of a request may be
missing, and then no member is found. -/
def isMember (uid : Option String) (seat : Option Member) : Bool :=
  match seat with
  | none => false
  | some member => decide (some member.uid = uid)

/-- `in_room?`. -/
def inRoom (room : RoomInfo) (uid : Option String) : Bool :=
  room.members.any (isMember uid)

/-- Changes the first member with the uid in place. -/
def changeFirst (uid : Option String) (change : Member → Member) :
    List (Option Member) → List (Option Member)
  | [] => []
  | seat :: seats =>
      if isMember uid seat then seat.map change :: seats
      else seat :: changeFirst uid change seats

/-- `set_ready`. -/
def setReady (room : RoomInfo) (uid : Option String) (ready : Bool) : RoomInfo :=
  { room with members := changeFirst uid (fun m => { m with ready := ready }) room.members }

/-- `set_house_creator`. -/
def setHouseCreator (room : RoomInfo) (uid : Option String) (isCreator : Bool) : RoomInfo :=
  { room with
    members := changeFirst uid (fun m => { m with houseCreator := isCreator }) room.members }

/-- `remove_member` finds the member and sets the local variable that holds it
to `-1`; the array is not written. -/
def removeMember (room : RoomInfo) (_uid : Option String) : RoomInfo :=
  room

/-- `creator?`. -/
def isCreator (room : RoomInfo) (uid : Option String) : Bool :=
  decide (some room.creator = uid)

/-- `all_ready?`. -/
def allReady (_room : RoomInfo) : Bool :=
  true

/-- `full?` counts the seats, vacant or not. -/
def full (room : RoomInfo) : Bool :=
  decide (room.members.length ≥ 3)

end RoomInfo

/-! ## What the operations leave as it is -/

section

variable {room : RoomInfo} {uid : Option String}

@[simp] theorem addMember_creator (pos : Nat) (player name : String) :
    (room.addMember pos player name).creator = room.creator := rfl

@[simp] theorem addMember_id (pos : Nat) (player name : String) :
    (room.addMember pos player name).id = room.id := rfl

@[simp] theorem setReady_creator (ready : Bool) :
    (room.setReady uid ready).creator = room.creator := rfl

@[simp] theorem setReady_id (ready : Bool) : (room.setReady uid ready).id = room.id := rfl

@[simp] theorem setHouseCreator_creator (isCreator : Bool) :
    (room.setHouseCreator uid isCreator).creator = room.creator := rfl

@[simp] theorem setHouseCreator_id (isCreator : Bool) :
    (room.setHouseCreator uid isCreator).id = room.id := rfl

@[simp] theorem removeMember_eq : room.removeMember uid = room := rfl

end

/-! ## Who sits where -/

/-- The uids on the seats. -/
def seatUids (members : List (Option Member)) : List (Option String) :=
  members.map (Option.map Member.uid)

/-- Changing a member other than its uid keeps everybody on his seat. -/
theorem seatUids_changeFirst {uid : Option String} {change : Member → Member}
    (hchange : ∀ member, (change member).uid = member.uid) (members : List (Option Member)) :
    seatUids (RoomInfo.changeFirst uid change members) = seatUids members := by
  induction members with
  | nil => rfl
  | cons seat seats ih =>
      unfold RoomInfo.changeFirst
      split
      · simp [seatUids, Function.comp_def, hchange]
      · simpa [seatUids] using ih

/-- The uids on the seats of a room. -/
def RoomInfo.seats (room : RoomInfo) : List (Option String) :=
  seatUids room.members

@[simp] theorem setReady_seats (room : RoomInfo) (uid : Option String) (ready : Bool) :
    (room.setReady uid ready).seats = room.seats := by
  apply seatUids_changeFirst
  intro member
  rfl

@[simp] theorem setHouseCreator_seats (room : RoomInfo) (uid : Option String)
    (isCreator : Bool) : (room.setHouseCreator uid isCreator).seats = room.seats := by
  apply seatUids_changeFirst
  intro member
  rfl

@[simp] theorem addMember_seats (room : RoomInfo) (pos : Nat) (uid name : String) :
    (room.addMember pos uid name).seats = room.seats.set pos (some uid) := by
  simp [RoomInfo.seats, seatUids, RoomInfo.addMember, List.map_set]

@[simp] theorem new_seats (type : Option String) (rid uid : String) (now : Nat) :
    (RoomInfo.new type rid uid now).seats = [none, none, none] := rfl

@[simp] theorem length_seats (room : RoomInfo) : room.seats.length = room.members.length := by
  simp [RoomInfo.seats, seatUids]

end Lobby
end ArmyRs
