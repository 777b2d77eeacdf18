import ArmyRs.Lobby.CombatRoom

/-!
# Taking and leaving a seat

`full?` counts the seats of a room instead of its members, `remove_member`
writes a local variable, and the room that is told about is asked for a method it
does not have.  So nobody ever joins a room, and nobody ever leaves his seat.

`Meets` says what a request should do, and `Harmless` when it does: a join is
refused rightly exactly when no seat is vacant, and a leave is right exactly when
the player has no seat.  The computers that fill a room for one are not players.
-/

namespace ArmyRs
namespace Lobby

/-- The player has a seat. -/
def Sits (roomInfo : RoomInfo) (uid : String) : Prop :=
  some uid ∈ roomInfo.seats

/-- A seat is vacant. -/
def HasVacancy (roomInfo : RoomInfo) : Prop :=
  none ∈ roomInfo.members

/-- In every room, every player has one seat at most. -/
def OneSeatEach (lobby : CombatRoom) : Prop :=
  ∀ id roomInfo, lobby.roomInfos id = some roomInfo →
    ∀ uid, uid ≠ "computer" → roomInfo.seats.count (some uid) ≤ 1

/-- The request is answered with success. -/
def Succeeds (lobby : CombatRoom) (request : Request) : Prop :=
  ∃ res, (perform lobby request).1 = some res ∧ res.success = true

/-- A join succeeds exactly when the room has a vacant seat, and after a leave the
player has no seat in the room. -/
def Meets (lobby : CombatRoom) (request : Request) : Prop :=
  match request with
  | .joinRoom id _ _ =>
      Succeeds lobby request ↔
        ∃ roomInfo, lobby.roomInfos id = some roomInfo ∧ HasVacancy roomInfo
  | .leaveRoom id (some uid) =>
      ∀ roomInfo, (perform lobby request).2.roomInfos id = some roomInfo → ¬ Sits roomInfo uid
  | _ => True

/-- Nobody joins a room with a vacant seat, and nobody leaves a room in which he
has a seat. -/
def Harmless (lobby : CombatRoom) : Request → Prop
  | .joinRoom id _ _ => ∀ roomInfo, lobby.roomInfos id = some roomInfo → ¬ HasVacancy roomInfo
  | .leaveRoom id (some uid) =>
      ∀ roomInfo, lobby.roomInfos id = some roomInfo → ¬ Sits roomInfo uid
  | _ => True

/-! ## The seats of every room -/

/-- A room holds its creator on the first seat, and computers or nobody on the two
others. -/
def Seated (roomInfo : RoomInfo) : Prop :=
  ∃ uid, roomInfo.seats = [some uid, none, none] ∨
    roomInfo.seats = [some uid, some "computer", some "computer"]

theorem Seated.full {roomInfo : RoomInfo} (h : Seated roomInfo) : roomInfo.full = true := by
  have hlength : roomInfo.members.length = 3 := by
    obtain ⟨uid, hseats | hseats⟩ := h
    · rw [← length_seats, hseats]
      rfl
    · rw [← length_seats, hseats]
      rfl
  simp [RoomInfo.full, hlength]

theorem Seated.count_le_one {roomInfo : RoomInfo} (h : Seated roomInfo) {uid : String}
    (huid : uid ≠ "computer") : roomInfo.seats.count (some uid) ≤ 1 := by
  have hne : ¬ "computer" = uid := fun heq => huid heq.symm
  obtain ⟨creator, hseats | hseats⟩ := h
  · rw [hseats]
    by_cases hcreator : creator = uid <;> simp [hcreator]
  · rw [hseats]
    by_cases hcreator : creator = uid <;> simp [hcreator, hne]

/-- Every live room is seated so. -/
def AllSeated (lobby : CombatRoom) : Prop :=
  ∀ id roomInfo, lobby.roomInfos id = some roomInfo → Seated roomInfo

section

variable {lobby next : CombatRoom} {id uid : String}

theorem AllSeated.doRemoveRoom (h : AllSeated lobby) (hnext : lobby.doRemoveRoom id = some next) :
    AllSeated next := by
  unfold CombatRoom.doRemoveRoom at hnext
  split at hnext
  · cases hnext
  · cases hnext
    intro other roomInfo hroom
    dsimp only at hroom
    by_cases hother : other = id
    · subst hother
      simp at hroom
    · rw [Function.update_of_ne hother] at hroom
      exact h other roomInfo hroom

theorem AllSeated.removeExisting (h : AllSeated lobby)
    (hnext : lobby.removeExisting uid = some next) : AllSeated next := by
  unfold CombatRoom.removeExisting at hnext
  split at hnext
  · cases hnext
    exact h
  · exact h.doRemoveRoom hnext

/-- A room that is written under an id. -/
theorem AllSeated.update (h : AllSeated lobby) {roomInfo : RoomInfo} (hroom : Seated roomInfo)
    (hnext : next.roomInfos = Function.update lobby.roomInfos id (some roomInfo)) :
    AllSeated next := by
  intro other otherInfo hother
  rw [hnext] at hother
  by_cases hkey : other = id
  · subst hkey
    rw [Function.update_self] at hother
    cases hother
    exact hroom
  · rw [Function.update_of_ne hkey] at hother
    exact h other otherInfo hother

theorem AllSeated.change (h : AllSeated lobby) (hchange : Change lobby next) : AllSeated next := by
  cases hchange with
  | same => exact h
  | removed hnext => exact h.doRemoveRoom hnext
  | opened hbetween hcreator hseats =>
      exact (h.removeExisting hbetween).update ⟨_, hseats⟩ rfl
  | written hold hcreator hseats =>
      have hseated : Seated _ := h _ _ hold
      exact h.update (by rw [Seated, hseats hseated.full]; exact hseated) rfl

end

theorem allSeated_serve (requests : List Request) : AllSeated (serve CombatRoom.new requests) := by
  apply serve_invariant
  · intro id roomInfo hroom
    cases hroom
  · exact fun lobby request h => h.change (perform_change request)

/-! ## What a request does -/

section

variable {lobby : CombatRoom}

/-- Nobody joins. -/
theorem not_succeeds_joinRoom (h : AllSeated lobby) (id uid name : String) :
    ¬ Succeeds lobby (.joinRoom id uid name) := by
  rintro ⟨res, hres, hsuccess⟩
  unfold perform CombatRoom.joinRoom at hres
  dsimp only at hres
  split at hres
  · cases hres
    cases hsuccess
  · next roomInfo hroom =>
    rw [if_pos (h id roomInfo hroom).full] at hres
    cases hres
    cases hsuccess

/-- Leaving writes back the room that was there. -/
theorem leaveRoom_roomInfos (id : String) (uid : Option String) :
    (perform lobby (.leaveRoom id uid)).2.roomInfos = lobby.roomInfos := by
  unfold perform CombatRoom.leaveRoom
  dsimp only
  split
  · rfl
  · next roomInfo hroom =>
    split
    · rfl
    · exact Function.update_eq_self_iff.mpr hroom.symm

/-- In a lobby with seated rooms, a request does what it should exactly when it
is harmless. -/
theorem meets_iff_of_allSeated (h : AllSeated lobby) (request : Request) :
    Meets lobby request ↔ Harmless lobby request := by
  cases request with
  | joinRoom id uid name =>
      unfold Meets Harmless
      dsimp only
      constructor
      · intro hmeets roomInfo hroom hvacancy
        exact not_succeeds_joinRoom h id uid name (hmeets.mpr ⟨roomInfo, hroom, hvacancy⟩)
      · intro hfull
        constructor
        · exact fun hsucceeds => absurd hsucceeds (not_succeeds_joinRoom h id uid name)
        · rintro ⟨roomInfo, hroom, hvacancy⟩
          exact absurd hvacancy (hfull roomInfo hroom)
  | leaveRoom id uid =>
      cases uid with
      | none => rfl
      | some uid =>
          unfold Meets Harmless
          dsimp only
          rw [leaveRoom_roomInfos]
  | _ => rfl

end

/-- After any requests no player has two seats, and the next request does what it
should exactly when it is harmless. -/
theorem meets_iff (requests : List Request) (request : Request) :
    OneSeatEach (serve CombatRoom.new requests) ∧
      (Meets (serve CombatRoom.new requests) request ↔
        Harmless (serve CombatRoom.new requests) request) := by
  have hseated : AllSeated (serve CombatRoom.new requests) := allSeated_serve requests
  constructor
  · exact fun id roomInfo hroom uid huid => (hseated id roomInfo hroom).count_le_one huid
  · exact meets_iff_of_allSeated hseated request

/-- A room with two vacant seats is opened, and the next player cannot join it;
the creator leaves it, and keeps his seat. -/
theorem not_meets_join_nor_leave :
    ¬ Meets (serve CombatRoom.new [.createRoom "7" "ann" none 100])
        (.joinRoom "RID-7-100" "8" "ben") ∧
      ¬ Meets (serve CombatRoom.new [.createRoom "7" "ann" none 100])
        (.leaveRoom "RID-7-100" (some "7")) := by
  have hroom : (serve CombatRoom.new [.createRoom "7" "ann" none 100]).roomInfos "RID-7-100" =
      some (CombatRoom.createdRoom "7" "ann" none 100) := by
    decide +kernel
  constructor
  · rw [meets_iff_of_allSeated (allSeated_serve _)]
    intro hharmless
    apply hharmless _ hroom
    unfold HasVacancy
    decide +kernel
  · rw [meets_iff_of_allSeated (allSeated_serve _)]
    intro hharmless
    apply hharmless _ hroom
    unfold Sits
    decide +kernel

end Lobby
end ArmyRs
