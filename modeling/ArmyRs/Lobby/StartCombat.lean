import ArmyRs.Combat.GetServer
import ArmyRs.Lobby.CombatRoom

/-!
# The start of a combat without a server

`start_combat` takes the room out of the tables and asks for a combat server
afterwards.  Where there is none, the request fails and the room is gone
(`startCombat_keeps_iff`).
-/

namespace ArmyRs
namespace Lobby

open Combat

/-- `@@timeout` -/
def serverTimeout : Int := 5 * 2

/-- The first part of `srv.split('_')`; empty parts at the end are left out. -/
def splitFirst (srv : Srv) : Option String :=
  if srv.toList.all fun c => c = '_' then none
  else some (String.ofList (srv.toList.takeWhile fun c => c ≠ '_'))

/-- The `ip` of `get_server`. -/
def getServerIp (db : CombatServerDb) (now : Int) : Option String × CombatServerDb :=
  let (srv, db) := db.getServer now serverTimeout
  (srv.bind splitFirst, db)

namespace CombatRoom

/-- `start_combat` with the hashes of the combat servers. -/
def startCombatWith (lobby : CombatRoom) (db : CombatServerDb) (now : Int) (id : String) :
    Answer × CombatServerDb :=
  match lobby.roomInfos id with
  | none => ((some (Res.new.ng "room_not_exist"), lobby), db)
  | some roomInfo =>
      let res := { Res.new with roomInfo := some roomInfo }
      if roomInfo.allReady then
        match lobby.doRemoveRoom id with
        | none => ((none, lobby), db)
        | some next =>
            match getServerIp db now with
            | (none, db) => ((some (res.ng "server_unavailable"), next), db)
            -- `member_pids` raises
            | (some _, db) => ((none, next), db)
      else ((some (res.ng "not_all_ready"), lobby), db)

variable {lobby : CombatRoom} {db : CombatServerDb} {now : Int} {id : String}

/-- All that counts is whether a server is found. -/
theorem startCombatWith_eq (lobby : CombatRoom) (db : CombatServerDb) (now : Int) (id : String) :
    (lobby.startCombatWith db now id).1 = lobby.startCombat id (getServerIp db now).1.isSome := by
  unfold startCombatWith startCombat
  cases lobby.roomInfos id with
  | none => rfl
  | some roomInfo =>
      dsimp only
      split
      · cases lobby.doRemoveRoom id with
        | none => rfl
        | some next =>
            dsimp only
            obtain ⟨ip, after⟩ := getServerIp db now
            cases ip with
            | none => rfl
            | some ip => rfl
      · rfl

/-- A removed room is gone. -/
theorem roomInfos_doRemoveRoom {next : CombatRoom} (hnext : lobby.doRemoveRoom id = some next) :
    next.roomInfos id = none := by
  unfold doRemoveRoom at hnext
  split at hnext
  · cases hnext
  · cases hnext
    exact Function.update_self ..

/-- A room that may start is removed, whatever comes afterwards. -/
theorem startCombat_of_ready {roomInfo : RoomInfo} (hroom : lobby.roomInfos id = some roomInfo)
    (hready : roomInfo.allReady = true) (server : Bool) :
    ∃ next, lobby.doRemoveRoom id = some next ∧ lobby.startCombat id server =
      if server then (none, next)
      else (some ({ Res.new with roomInfo := some roomInfo }.ng "server_unavailable"), next) := by
  have hnext : ∃ next, lobby.doRemoveRoom id = some next := by
    simp [doRemoveRoom, hroom]
  obtain ⟨next, hnext⟩ := hnext
  exact ⟨next, hnext, by simp [startCombat, hroom, hready, hnext]⟩

/-- The other failures come before the room is removed. -/
theorem startCombat_of_not_ready
    (hearly : ∀ roomInfo ∈ lobby.roomInfos id, roomInfo.allReady = false) (server : Bool) :
    (lobby.startCombat id server).2 = lobby := by
  unfold startCombat
  cases hroom : lobby.roomInfos id with
  | none => rfl
  | some roomInfo => simp [hearly roomInfo hroom]

/-- The request is answered, and fails. -/
def Refused (answer : Answer) : Prop :=
  ∃ res, answer.1 = some res ∧ res.success = false

/-- A server is found, or the request fails before the room is removed.  With a
server the request is not refused, but it does not succeed either: when the room is
already removed, the call of `member_pids` raises a `NoMethodError`, and there is no
answer. -/
def FailsEarly (lobby : CombatRoom) (db : CombatServerDb) (now : Int) (id : String) : Prop :=
  (getServerIp db now).1.isSome = true ∨
    ∀ roomInfo ∈ lobby.roomInfos id, roomInfo.allReady = false

/-- A request that fails leaves the tables as they are exactly when it does not
come to the combat servers in vain. -/
theorem startCombat_keeps_iff (lobby : CombatRoom) (db : CombatServerDb) (now : Int)
    (id : String) :
    (Refused (lobby.startCombatWith db now id).1 →
      (lobby.startCombatWith db now id).1.2 = lobby) ↔ FailsEarly lobby db now id := by
  rw [startCombatWith_eq]
  unfold FailsEarly
  generalize (getServerIp db now).1.isSome = server
  by_cases hearly : ∀ roomInfo ∈ lobby.roomInfos id, roomInfo.allReady = false
  · exact ⟨fun _ => .inr hearly, fun _ _ => startCombat_of_not_ready hearly server⟩
  · have hroom : ∃ roomInfo, lobby.roomInfos id = some roomInfo ∧ roomInfo.allReady = true := by
      simpa using hearly
    obtain ⟨roomInfo, hroom, hready⟩ := hroom
    obtain ⟨next, hnext, hstart⟩ := startCombat_of_ready hroom hready server
    rw [hstart]
    cases server with
    | true => simp [Refused]
    | false =>
        constructor
        · intro hkeeps
          have hgone := roomInfos_doRemoveRoom hnext
          have hsame : next = lobby := hkeeps ⟨_, rfl, rfl⟩
          rw [hsame, hroom] at hgone
          cases hgone
        · rintro (hserver | hnone)
          · cases hserver
          · exact absurd hnone hearly

/-- No combat server has registered. -/
def noServers : CombatServerDb := ⟨∅, ∅, ∅⟩

/-- A player opens a room and starts, and the room is gone. -/
theorem not_keeps_noServers :
    ¬ ∀ (requests : List Request) (db : CombatServerDb) (now : Int) (id : String),
      Refused ((serve .new requests).startCombatWith db now id).1 →
        ((serve .new requests).startCombatWith db now id).1.2 = serve .new requests := by
  intro h
  have hkept := h [.createRoom "7" "seven" (some "stand") 100] noServers 105 "RID-7-100"
    ⟨_, rfl, rfl⟩
  have hrooms := congrArg (fun lobby => (lobby.roomInfos "RID-7-100").isSome) hkept
  revert hrooms
  decide +kernel

end CombatRoom

end Lobby
end ArmyRs
