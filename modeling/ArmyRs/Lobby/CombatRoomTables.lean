import ArmyRs.Foundation.Memberships
import ArmyRs.Foundation.Strings
import ArmyRs.Lobby.CombatRoom

/-!
# The tables of the lobby agree

`TablesAgree` says that the list of ids holds every live room once, and that the
table of the creators is the inverse of the creator of a room.  Every request
keeps it: an id is made from the uid of the creator, so that the room that is
opened after the old one of its creator was removed has an id that no other room
has.
-/

namespace ArmyRs
namespace Lobby

open Foundation

/-- The room under `id` is live, and `uid` created it. -/
def CreatedBy (lobby : CombatRoom) (id uid : String) : Prop :=
  ∃ roomInfo, lobby.roomInfos id = some roomInfo ∧ roomInfo.creator = uid

/-- The list of ids holds the keys of the rooms, each once; a live room's creator
maps to it, and whoever maps to a room created it. -/
structure TablesAgree (lobby : CombatRoom) : Prop where
  nodup : lobby.roomIds.Nodup
  mem_roomIds : ∀ id, id ∈ lobby.roomIds ↔ ∃ roomInfo, lobby.roomInfos id = some roomInfo
  creator_maps : ∀ id roomInfo, lobby.roomInfos id = some roomInfo →
    lobby.roomMap roomInfo.creator = some id
  maps_creator : ∀ uid id, lobby.roomMap uid = some id →
    ∃ roomInfo, lobby.roomInfos id = some roomInfo ∧ roomInfo.creator = uid

theorem tablesAgree_iff {lobby : CombatRoom} :
    TablesAgree lobby ↔ lobby.roomIds.Nodup ∧
      (∀ id, id ∈ lobby.roomIds ↔ ∃ roomInfo, lobby.roomInfos id = some roomInfo) ∧
      Indexes lobby.roomMap (CreatedBy lobby) := by
  constructor
  · intro h
    refine ⟨h.nodup, h.mem_roomIds, fun uid id => ⟨h.maps_creator uid id, ?_⟩⟩
    rintro ⟨roomInfo, hroom, rfl⟩
    exact h.creator_maps id roomInfo hroom
  · rintro ⟨hnodup, hmem, hindex⟩
    exact
      { nodup := hnodup
        mem_roomIds := hmem
        creator_maps := fun id roomInfo hroom => (hindex _ id).mpr ⟨roomInfo, hroom, rfl⟩
        maps_creator := fun uid id => (hindex uid id).mp }

/-! ## The ids of rooms -/

/-- The id of a room tells who created it. -/
theorem genRoomId_uid {uid other : String} {now later : Nat}
    (h : genRoomId uid now = genRoomId other later) : uid = other := by
  have hlists : "RID-".toList ++ (uid.toList ++ '-' :: Nat.toDigits 10 now) =
      "RID-".toList ++ (other.toList ++ '-' :: Nat.toDigits 10 later) := by
    simpa [genRoomId] using congrArg String.toList h
  have hsplit := eq_of_append_cons_eq (List.append_cancel_left hlists)
    (minus_notMem_toDigits now) (minus_notMem_toDigits later)
  exact String.toList_inj.mp hsplit.1

/-- What the requests keep: the tables agree, and every live room has an id made
from the uid of its creator. -/
structure Kept (lobby : CombatRoom) : Prop where
  agree : TablesAgree lobby
  ids : ∀ id roomInfo, lobby.roomInfos id = some roomInfo →
    ∃ now, id = genRoomId roomInfo.creator now

theorem kept_new : Kept CombatRoom.new where
  agree :=
    { nodup := List.nodup_nil
      mem_roomIds := fun _ => by simp [CombatRoom.new]
      creator_maps := by
        intro id roomInfo hroom
        cases hroom
      maps_creator := by
        intro uid id hmap
        cases hmap }
  ids := by
    intro id roomInfo hroom
    cases hroom

section

variable {lobby next : CombatRoom} {id uid : String} {roomInfo : RoomInfo}

/-- Removing a room removes it from the three tables. -/
theorem Kept.doRemoveRoom (h : Kept lobby) (hnext : lobby.doRemoveRoom id = some next) :
    Kept next := by
  unfold CombatRoom.doRemoveRoom at hnext
  split at hnext
  · cases hnext
  · next roomInfo hroom =>
    cases hnext
    obtain ⟨hnodup, hmem, hindex⟩ := tablesAgree_iff.mp h.agree
    constructor
    · rw [tablesAgree_iff]
      refine ⟨hnodup.filter _, ?_, ?_⟩
      · intro other
        rw [List.mem_filter, hmem]
        by_cases hother : other = id
        · subst hother
          simp
        · simp [hother]
      · -- the creator of the room loses its only room
        apply hindex.eraseOne roomInfo.creator
        intro key q
        unfold CreatedBy
        dsimp only
        constructor
        · rintro ⟨other, hother, rfl⟩
          have hkey : key ≠ id := by
            rintro rfl
            simp at hother
          rw [Function.update_of_ne hkey] at hother
          refine ⟨⟨other, hother, rfl⟩, fun hcreator => hkey ?_⟩
          have hmaps : lobby.roomMap other.creator = some key :=
            (hindex _ key).mpr ⟨other, hother, rfl⟩
          have hmaps' : lobby.roomMap roomInfo.creator = some id :=
            (hindex _ id).mpr ⟨roomInfo, hroom, rfl⟩
          rw [hcreator, hmaps'] at hmaps
          exact (Option.some_inj.mp hmaps).symm
        · rintro ⟨⟨other, hother, rfl⟩, hne⟩
          have hkey : key ≠ id := by
            rintro rfl
            rw [hroom] at hother
            cases hother
            exact hne rfl
          exact ⟨other, by rw [Function.update_of_ne hkey, hother], rfl⟩
    · intro other otherInfo hother
      dsimp only at hother
      by_cases hkey : other = id
      · subst hkey
        simp at hother
      · rw [Function.update_of_ne hkey] at hother
        exact h.ids other otherInfo hother

theorem doRemoveRoom_roomMap (hroom : lobby.roomInfos id = some roomInfo)
    (hnext : lobby.doRemoveRoom id = some next) : next.roomMap roomInfo.creator = none := by
  unfold CombatRoom.doRemoveRoom at hnext
  rw [hroom] at hnext
  cases hnext
  exact Function.update_self _ _ _

/-- After the old room of a creator was removed, nothing maps him to a room. -/
theorem Kept.removeExisting (h : Kept lobby) (hnext : lobby.removeExisting uid = some next) :
    Kept next ∧ next.roomMap uid = none := by
  unfold CombatRoom.removeExisting at hnext
  split at hnext
  · next hmap =>
    cases hnext
    exact ⟨h, hmap⟩
  · next existId hmap =>
    obtain ⟨roomInfo, hroom, rfl⟩ := h.agree.maps_creator uid existId hmap
    exact ⟨h.doRemoveRoom hnext, doRemoveRoom_roomMap hroom hnext⟩

/-- A creator without a room opens one. -/
theorem Kept.register (h : Kept lobby) (huid : lobby.roomMap uid = none) (now : Nat)
    (hcreator : roomInfo.creator = uid) :
    Kept (lobby.register uid (genRoomId uid now) roomInfo) := by
  -- a live room under the new id would be a room of the same creator
  have hfresh : lobby.roomInfos (genRoomId uid now) = none := by
    by_contra hlive
    obtain ⟨old, hold⟩ := Option.ne_none_iff_exists'.mp hlive
    obtain ⟨later, hid⟩ := h.ids _ old hold
    have hmaps : lobby.roomMap old.creator = some (genRoomId uid now) :=
      h.agree.creator_maps _ old hold
    rw [← genRoomId_uid hid, huid] at hmaps
    cases hmaps
  obtain ⟨hnodup, hmem, hindex⟩ := tablesAgree_iff.mp h.agree
  constructor
  · rw [tablesAgree_iff]
    refine ⟨?_, ?_, ?_⟩
    · apply hnodup.append (List.nodup_singleton _)
      rw [List.disjoint_singleton, hmem, hfresh]
      rintro ⟨old, hold⟩
      cases hold
    · intro other
      unfold CombatRoom.register
      rw [List.mem_append, List.mem_singleton, hmem]
      by_cases hother : other = genRoomId uid now
      · subst hother
        simp
      · simp [hother]
    · apply hindex.insert huid
      intro key q
      unfold CreatedBy CombatRoom.register
      dsimp only
      by_cases hkey : key = genRoomId uid now
      · subst hkey
        rw [Function.update_self, hfresh]
        simp [hcreator, eq_comm]
      · rw [Function.update_of_ne hkey]
        simp [hkey]
  · intro other otherInfo hother
    unfold CombatRoom.register at hother
    dsimp only at hother
    by_cases hkey : other = genRoomId uid now
    · subst hkey
      rw [Function.update_self] at hother
      cases hother
      exact ⟨now, by rw [hcreator]⟩
    · rw [Function.update_of_ne hkey] at hother
      exact h.ids other otherInfo hother

/-- A room that is changed in place keeps its creator. -/
theorem Kept.write (h : Kept lobby) {old : RoomInfo} (hold : lobby.roomInfos id = some old)
    (hcreator : roomInfo.creator = old.creator) : Kept (lobby.write id roomInfo) := by
  obtain ⟨hnodup, hmem, hindex⟩ := tablesAgree_iff.mp h.agree
  constructor
  · rw [tablesAgree_iff]
    refine ⟨hnodup, ?_, ?_⟩
    · intro other
      unfold CombatRoom.write
      rw [hmem]
      by_cases hother : other = id
      · subst hother
        simp [hold]
      · simp [hother]
    · apply hindex.congr
      intro key q
      unfold CreatedBy CombatRoom.write
      dsimp only
      by_cases hkey : key = id
      · subst hkey
        rw [Function.update_self, hold]
        simp [hcreator]
      · rw [Function.update_of_ne hkey]
  · intro other otherInfo hother
    unfold CombatRoom.write at hother
    dsimp only at hother
    by_cases hkey : other = id
    · subst hkey
      rw [Function.update_self] at hother
      cases hother
      rw [hcreator]
      exact h.ids other old hold
    · rw [Function.update_of_ne hkey] at hother
      exact h.ids other otherInfo hother

theorem Kept.change (h : Kept lobby) (hchange : Change lobby next) : Kept next := by
  cases hchange with
  | same => exact h
  | removed hnext => exact h.doRemoveRoom hnext
  | opened hbetween hcreator hseats =>
      obtain ⟨hkept, hmap⟩ := h.removeExisting hbetween
      exact hkept.register hmap _ hcreator
  | written hold hcreator hseats => exact h.write hold hcreator

end

/-- After any sequence of requests the three tables agree. -/
theorem tablesAgree_serve (requests : List Request) :
    TablesAgree (serve CombatRoom.new requests) :=
  (serve_invariant kept_new (fun _ request h => h.change (perform_change request)) requests).agree

end Lobby
end ArmyRs
