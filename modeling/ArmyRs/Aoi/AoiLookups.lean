import ArmyRs.Aoi.AoiHistory
import ArmyRs.Aoi.IdMapHistory

/-!
# The objects of a space in its map

The code looks its objects up in `space->object`, a map of the ids that it has copied, where
`AoiSpace` takes `ids` to know them.  `MappedSpace` keeps both: what an operation does
depends on what the map answers, and the object it works on is the one that the map gave.
In every run the space is the one that `AoiHistory` follows, and the map answers with the
objects of the space (`follows_of_run`).

When objects leave as well, the map keeps the slots of their ids.  It still answers with
the objects of the space for their ids, and with an object that is in no list for an id
that has left (`Indexed`).

An object is named by the id that it was allocated for.
-/

namespace ArmyRs
namespace Aoi

open Foundation

structure MappedSpace where
  objectMap : Map Uid
  space : AoiSpace Uid

namespace AoiEvent

/-- The id is one that a slot of the map can hold. -/
def Named : AoiEvent Uid → Prop
  | enter uid _ | move uid _ => uid ≠ [] ∧ uid.length ≤ maxUidLen
  | setRadius _ => True

end AoiEvent

namespace AoiSpace

section

variable {Name : Type*} [DecidableEq Name] {space : AoiSpace Name} {uid : Name} {pos : Position}

theorem lmove_of_mem_ids (huid : uid ∈ space.ids) :
    space.lmove uid pos = space.updateObjPos uid pos := by
  have hsome : space.mapFind uid = some (space.object uid) := if_pos huid
  unfold lmove move
  rw [hsome]
  rfl

theorem ids_updateObjPos (space : AoiSpace Name) (uid : Name) (pos : Position) :
    (space.updateObjPos uid pos).ids = space.ids := by
  unfold updateObjPos
  dsimp only
  split_ifs <;> rfl

end

end AoiSpace

namespace MappedSpace

open AoiSpace

/-- `aoi_init`. -/
def init : MappedSpace := ⟨Map.mapNew, .init⟩

/-- `move`. -/
def move (s : MappedSpace) (uid : Uid) (pos : Position) : Option MappedSpace := do
  let (objectMap, found) ← s.objectMap.mapFind uid uid
  match found with
  | some obj => some ⟨objectMap, s.space.updateObjPos obj pos⟩
  | none => some ⟨objectMap, s.space⟩

/-- `lenter`, through `add` and `move`. -/
def lenter (depth : ℕ) (s : MappedSpace) (uid : Uid) (pos : Position) : Option MappedSpace := do
  let (objectMap, found) ← s.objectMap.mapFind uid uid
  match found with
  | some _ => move ⟨objectMap, s.space⟩ uid pos
  | none =>
    let (objectMap, obj) ← objectMap.mapQuery depth uid uid
    some ⟨objectMap, s.space.addObject obj pos⟩

def step (depth : ℕ) (s : MappedSpace) : AoiEvent Uid → Option MappedSpace
  | .enter uid pos => s.lenter depth uid pos
  | .move uid pos => s.move uid pos
  | .setRadius radius => some { s with space := s.space.lsetRadius radius }

/-- The map with its history, when one object was inserted for each id of the space. -/
def mapHistory (s : MappedSpace) : MapHistory Uid :=
  ⟨s.objectMap, s.space.ids.map fun uid => (uid, uid)⟩

/-- The map holds one object for each id of the space, under the id itself. -/
structure Mapped (s : MappedSpace) : Prop where
  consistent : s.mapHistory.Consistent
  short : ∀ uid ∈ s.space.ids, uid.length ≤ maxUidLen

section

variable {s : MappedSpace} {uid obj : Uid} {pos : Position} {event : AoiEvent Uid}

theorem mapped_init : init.Mapped where
  consistent := MapHistory.consistent_init
  short := fun _ huid => absurd huid List.not_mem_nil

theorem Mapped.holds_iff (hs : s.Mapped) :
    s.objectMap.Holds uid obj ↔ uid ∈ s.space.ids ∧ obj = uid := by
  have hholds := hs.consistent.holds_iff uid obj
  dsimp only [mapHistory] at hholds
  rw [hholds]
  constructor
  · rintro ⟨inserted, hmem, hcopy⟩
    obtain ⟨other, hother, heq⟩ := List.mem_map.mp hmem
    cases heq
    rw [copyUid_of_le (hs.short _ hother)] at hcopy
    exact hcopy ▸ ⟨hother, rfl⟩
  · rintro ⟨huid, rfl⟩
    exact ⟨obj, List.mem_map_of_mem huid, copyUid_of_le (hs.short obj huid)⟩

/-- What the map answers is what `AoiSpace.mapFind` says, and nothing is allocated. -/
theorem Mapped.mapFind (hs : s.Mapped) (huid : uid ≠ []) (fresh : Uid) :
    s.objectMap.mapFind uid fresh =
      some (s.objectMap, (s.space.mapFind uid).map fun _ => uid) := by
  rcases Map.mapFind_cases hs.consistent.wellFormed huid (hs.consistent.kept uid huid) fresh with
    ⟨found, hfind, -, hholds⟩ | ⟨hfind, -, hnone⟩
  · obtain ⟨hmem, rfl⟩ := hs.holds_iff.mp hholds
    have hsome : s.space.mapFind found = some (s.space.object found) := if_pos hmem
    rw [hsome]
    exact hfind
  · have hmem : uid ∉ s.space.ids := fun hmem => hnone uid (hs.holds_iff.mpr ⟨hmem, rfl⟩)
    have hno : s.space.mapFind uid = none := if_neg hmem
    rw [hno]
    exact hfind

/-- A space with the same ids can take the place of the space. -/
theorem Mapped.of_ids {space : AoiSpace Uid} (hs : s.Mapped) (hids : space.ids = s.space.ids) :
    Mapped ⟨s.objectMap, space⟩ := by
  constructor
  · have hsame : mapHistory ⟨s.objectMap, space⟩ = s.mapHistory := by
      rw [mapHistory, mapHistory, hids]
    rw [hsame]
    exact hs.consistent
  · dsimp only
    rw [hids]
    exact hs.short

/-- `move` with the map is `lmove`. -/
theorem Mapped.move (hs : s.Mapped) (huid : uid ≠ []) (pos : Position) :
    s.move uid pos = some ⟨s.objectMap, s.space.lmove uid pos⟩ ∧
      Mapped ⟨s.objectMap, s.space.lmove uid pos⟩ := by
  have hfind := hs.mapFind huid uid
  unfold MappedSpace.move
  rw [hfind]
  by_cases hmem : uid ∈ s.space.ids
  · have hsome : s.space.mapFind uid = some (s.space.object uid) := if_pos hmem
    rw [lmove_of_mem_ids hmem, hsome]
    exact ⟨rfl, hs.of_ids (ids_updateObjPos s.space uid pos)⟩
  · have hno : s.space.mapFind uid = none := if_neg hmem
    rw [lmove_of_not_mem hmem, hno]
    exact ⟨rfl, hs⟩

/-- `lenter` with the map is `lenter`. -/
theorem Mapped.lenter (hs : s.Mapped) (huid : uid ≠ []) (hlen : uid.length ≤ maxUidLen)
    (pos : Position) (depth : ℕ) :
    ∃ objectMap, s.lenter (depth + 4) uid pos = some ⟨objectMap, s.space.lenter uid pos⟩ ∧
      Mapped ⟨objectMap, s.space.lenter uid pos⟩ := by
  have hfind := hs.mapFind huid uid
  by_cases hmem : uid ∈ s.space.ids
  · -- `add` refuses the id, and the object is moved
    have hsome : s.space.mapFind uid = some (s.space.object uid) := if_pos hmem
    obtain ⟨hmove, hmapped⟩ := hs.move huid pos
    rw [lenter_of_mem hmem]
    refine ⟨s.objectMap, ?_, hmapped⟩
    unfold MappedSpace.lenter
    rw [hfind, hsome]
    exact hmove
  · -- a new id gets a slot, and then an object at the end
    have hno : s.space.mapFind uid = none := if_neg hmem
    rw [hno] at hfind
    obtain ⟨objectMap, hinsert, hconsistent⟩ := hs.consistent.insert huid uid depth
    have hquery : s.objectMap.mapQuery (depth + 4) uid uid = some (objectMap, uid) := by
      have hmap : s.mapHistory.map = s.objectMap := rfl
      rw [hmap] at hinsert
      simp [Map.mapQuery, hfind, hinsert]
    obtain ⟨hids, -, -⟩ := lenter_new pos hmem
    refine ⟨objectMap, ?_, ?_, ?_⟩
    · unfold MappedSpace.lenter
      rw [hfind, lenter_of_not_mem hmem]
      simp [hquery]
    · -- the pairs of the history are the same, in another order
      refine ⟨hconsistent.wellFormed, hconsistent.kept, fun id found => ?_⟩
      have hholds := hconsistent.holds_iff id found
      dsimp only [mapHistory] at hholds ⊢
      rw [hholds, hids, List.map_append, List.map_singleton]
      simp [or_comm]
    · intro other hother
      dsimp only at hother
      rw [hids, List.mem_append, List.mem_singleton] at hother
      rcases hother with hold | rfl
      · exact hs.short other hold
      · exact hlen

/-- An operation does to the space what it does without the map. -/
theorem Mapped.step {h : AoiHistory Uid} (hs : s.Mapped) (hspace : s.space = h.space)
    (hnamed : event.Named) (depth : ℕ) :
    ∃ next hnext, s.step (depth + 4) event = some next ∧ h.step event = some hnext ∧
      next.space = hnext.space ∧ next.Mapped := by
  cases event with
  | enter uid pos =>
      obtain ⟨objectMap, hstep, hmapped⟩ := hs.lenter hnamed.1 hnamed.2 pos depth
      rw [hspace] at hstep hmapped
      exact ⟨_, _, hstep, rfl, rfl, hmapped⟩
  | move uid pos =>
      obtain ⟨hstep, hmapped⟩ := hs.move hnamed.1 pos
      rw [hspace] at hstep hmapped
      exact ⟨_, _, hstep, rfl, rfl, hmapped⟩
  | setRadius radius =>
      have hmapped : Mapped ⟨s.objectMap, s.space.lsetRadius radius⟩ := hs.of_ids rfl
      refine ⟨_, _, rfl, rfl, ?_, hmapped⟩
      exact congrArg (AoiSpace.lsetRadius · radius) hspace

end

/-- The same for a whole run. -/
theorem Mapped.exec {s : MappedSpace} {h : AoiHistory Uid} {events : List (AoiEvent Uid)}
    (hs : s.Mapped) (hspace : s.space = h.space) (hnamed : ∀ event ∈ events, event.Named)
    (depth : ℕ) :
    ∃ final hfinal, Foundation.exec (MappedSpace.step (depth + 4)) free s events = some final ∧
      Run AoiHistory.step free h events hfinal ∧ final.space = hfinal.space ∧ final.Mapped := by
  induction events generalizing s h with
  | nil => exact ⟨s, h, rfl, .refl, hspace, hs⟩
  | cons event events ih =>
    obtain ⟨next, hnext, hstep, hstep', hsame, hmapped⟩ :=
      hs.step hspace (hnamed event List.mem_cons_self) depth
    obtain ⟨final, hfinal, hexec, hrun, hresult⟩ :=
      ih hmapped hsame fun event hevent => hnamed event (.tail _ hevent)
    refine ⟨final, hfinal, ?_, .cons trivial hstep' hrun, hresult⟩
    have hfree : free s event := trivial
    rw [Foundation.exec, if_pos hfree, hstep]
    exact hexec

/-- With ids that a slot can hold, the operations end; the space is the same as when `ids`
answers in the map's place; and the map, which is sound, answers for every id that is not
empty as `ids` does. -/
theorem follows_of_run (depth : ℕ) (events : List (AoiEvent Uid))
    (hnamed : ∀ event ∈ events, event.Named) :
    ∃ s h, exec (step (depth + 4)) free init events = some s ∧
      Run AoiHistory.step free AoiHistory.init events h ∧ s.space = h.space ∧
      s.mapHistory.Sound ∧
      ∀ uid, uid ≠ [] → ∀ fresh, s.objectMap.mapFind uid fresh =
        some (s.objectMap, (h.space.mapFind uid).map fun _ => uid) := by
  obtain ⟨s, h, hexec, hrun, hspace, hs⟩ := mapped_init.exec (h := .init) rfl hnamed depth
  refine ⟨s, h, hexec, hrun, hspace, ?_, fun uid huid fresh => ?_⟩
  · refine (MapHistory.sound_iff hs.consistent).mpr fun pair hpair => ?_
    obtain ⟨uid, huid, rfl⟩ := List.mem_map.mp hpair
    exact hs.short uid huid
  · rw [← hspace]
    exact hs.mapFind huid fresh

/-- Two ids that share a chain of the map; one object is entered again. -/
theorem follows_twoObjects :
    ∃ s h, exec (step 4) free init
        [.enter [97#8] fun _ => 5, .enter [98#8] fun _ => 9, .move [97#8] fun _ => 7,
          .enter [98#8] fun _ => 3] = some s ∧
      Run AoiHistory.step free AoiHistory.init
        [.enter [97#8] fun _ => 5, .enter [98#8] fun _ => 9, .move [97#8] fun _ => 7,
          .enter [98#8] fun _ => 3] h ∧ s.space = h.space ∧
      s.mapHistory.Sound ∧
      ∀ uid, uid ≠ [] → ∀ fresh, s.objectMap.mapFind uid fresh =
        some (s.objectMap, (h.space.mapFind uid).map fun _ => uid) := by
  apply follows_of_run 0
  simp [AoiEvent.Named, maxUidLen]

end MappedSpace

/-! ## Leaving -/

namespace AoiSpace

variable {Name : Type*} [DecidableEq Name]

/-- `drop_object`, the map apart; an object that gets the id later begins without nodes. -/
def dropObject (space : AoiSpace Name) (uid : Name) : AoiSpace Name :=
  let obj := space.object uid
  { space with
    ids := space.ids.erase uid
    object := Function.update space.object uid { obj with posIter := fun _ => none }
    lists := fun axis =>
      match obj.posIter axis with
      | some node => listRemoveNode (space.lists axis) node
      | none => space.lists axis }

section

variable {space : AoiSpace Name} {uid c : Name} {pos : Position} {axis : Axis}

theorem radius_lmove (h : space.Linked) (huid : uid ∈ space.ids) :
    (space.lmove uid pos).radius = space.radius := by
  unfold AoiSpace.lmove
  rw [AoiSpace.move_of_mem h huid]
  rfl

/-- An object that is in no list stays where it is. -/
theorem updateObjPos_of_apart (hapart : ∀ axis, (space.object uid).posIter axis = none) :
    space.updateObjPos uid pos = space := by
  unfold updateObjPos
  exact if_pos (.inl (hapart .x))

theorem dropObject_lists (h : space.Linked) (huid : uid ∈ space.ids) (axis : Axis) :
    (space.dropObject uid).lists axis = listRemoveNode (space.lists axis) (.node uid) := by
  unfold dropObject
  simp [h.posIter uid huid]

theorem mem_dropObject (h : space.Linked) :
    c ∈ (space.dropObject uid).ids ↔ c ≠ uid ∧ c ∈ space.ids := h.nodup.mem_erase_iff

theorem object_dropObject (hne : c ≠ uid) : (space.dropObject uid).object c = space.object c :=
  Function.update_of_ne hne _ _

theorem Linked.dropObject (h : space.Linked) (huid : uid ∈ space.ids) :
    (space.dropObject uid).Linked where
  nodup := h.nodup.erase uid
  posIter := by
    intro c hc axis
    obtain ⟨hne, hold⟩ := (mem_dropObject h).mp hc
    rw [object_dropObject hne]
    exact h.posIter c hold axis
  lists := by
    intro axis
    obtain ⟨xs, hxs, hmem⟩ := h.lists axis
    obtain ⟨front, back, rfl⟩ := List.append_of_mem ((hmem uid).mpr huid)
    have hnot := (List.nodup_cons.mp (List.nodup_middle.mp hxs.nodup)).1
    refine ⟨front ++ back, by rw [dropObject_lists h huid]; exact hxs.remove, fun c => ?_⟩
    rw [mem_dropObject h, ← hmem]
    by_cases heq : c = uid
    · subst heq
      simpa using hnot
    · simp [heq]

theorem Sorted.dropObject (hsorted : space.Sorted axis) (h : space.Linked)
    (huid : uid ∈ space.ids) : (space.dropObject uid).Sorted axis := by
  obtain ⟨xs, hxs, hxsSorted⟩ := hsorted
  obtain ⟨others, hothers, hmem⟩ := h.lists axis
  rw [hothers.eq hxs] at hmem
  obtain ⟨front, back, rfl⟩ := List.append_of_mem ((hmem uid).mpr huid)
  have hnot := (List.nodup_cons.mp (List.nodup_middle.mp hxs.nodup)).1
  refine ⟨front ++ back, by rw [dropObject_lists h huid]; exact hxs.remove, ?_⟩
  refine (sortedBy_middle.mp hxsSorted).1.congr fun c hc => ?_
  have hne : c ≠ uid := fun heq => hnot (heq ▸ hc)
  rw [coord, object_dropObject hne, coord]

theorem whereIs_dropObject (h : space.Linked) (c : Name) :
    (space.dropObject uid).whereIs c = if c = uid then none else space.whereIs c := by
  rw [whereIs_eq, whereIs_eq]
  by_cases heq : c = uid
  · simp [heq, mem_dropObject h]
  · simp [heq, mem_dropObject h, object_dropObject heq]

end

end AoiSpace

namespace MappedSpace

open AoiSpace

/-- The map holds the objects of the space under their ids.  Other objects that it holds are
in no list. -/
structure Indexed (s : MappedSpace) : Prop where
  wellFormed : s.objectMap.WellFormed
  distinct : s.objectMap.Distinct
  own : ∀ uid obj, s.objectMap.Holds uid obj → obj = uid
  held : ∀ uid ∈ s.space.ids, s.objectMap.Holds uid uid
  apart : ∀ uid, uid ∉ s.space.ids → ∀ axis, (s.space.object uid).posIter axis = none

section

variable {s : MappedSpace} {uid : Uid} {pos : Position}

theorem indexed_init : init.Indexed where
  wellFormed := Map.wellFormed_blank (by decide)
  distinct := Map.distinct_blank _
  own := fun uid obj hholds => absurd hholds (Map.not_holds_blank _ uid obj)
  held := fun _ huid => absurd huid List.not_mem_nil
  apart := fun _ _ _ => rfl

theorem Indexed.ne_nil (hs : s.Indexed) (huid : uid ∈ s.space.ids) : uid ≠ [] := by
  obtain ⟨i, hi, hobj⟩ := hs.held uid huid
  exact hi ▸ hs.wellFormed.ne_nil hobj

/-- The object of an entered id is found. -/
theorem Indexed.mapFind (hs : s.Indexed) (huid : uid ∈ s.space.ids) (fresh : Uid) :
    s.objectMap.mapFind uid fresh = some (s.objectMap, some uid) := by
  have hid := hs.ne_nil huid
  obtain ⟨i, hi, hobj⟩ := hs.held uid huid
  have hkept : ¬ s.objectMap.Emptied uid := by
    rintro ⟨j, -, hj, hnone⟩
    have hij := hs.distinct i j (hi ▸ hid) (hi.trans hj.symm)
    rw [← hij, hobj] at hnone
    cases hnone
  rcases Map.mapFind_cases hs.wellFormed hid hkept fresh with
    ⟨found, hfind, -, hholds⟩ | ⟨-, -, hnone⟩
  · rw [hfind, hs.own uid found hholds]
  · exact absurd ⟨i, hi, hobj⟩ (hnone uid)

/-- For another id there is an object when a slot has the id; it is in no list. -/
theorem Indexed.mapFind_of_not_mem (hs : s.Indexed) (hid : uid ≠ []) (huid : uid ∉ s.space.ids) :
    ∃ objectMap, s.objectMap.mapFind uid uid =
        some (objectMap, if s.objectMap.Slotted uid then some uid else none) ∧
      Indexed ⟨objectMap, s.space⟩ := by
  by_cases hslotted : s.objectMap.Slotted uid
  · rw [if_pos hslotted]
    by_cases hlost : s.objectMap.Emptied uid
    · obtain ⟨objectMap, hfind, hwell, hdistinct, hholds⟩ :=
        Map.mapFind_of_emptied hs.wellFormed hs.distinct hid hlost uid
      refine ⟨objectMap, hfind, hwell, hdistinct, fun other obj hother => ?_,
        fun other hother => ?_, hs.apart⟩
      · rw [hholds] at hother
        split at hother
        · next heq => rw [← hother, heq]
        · exact hs.own other obj hother
      · have hne : other ≠ uid := fun heq => huid (heq ▸ hother)
        rw [hholds, if_neg hne]
        exact hs.held other hother
    · refine ⟨s.objectMap, ?_, hs⟩
      rcases Map.mapFind_cases hs.wellFormed hid hlost uid with
        ⟨found, hfind, -, hholds⟩ | ⟨-, -, hnone⟩
      · rw [hfind, hs.own uid found hholds]
      · obtain ⟨i, -, rfl⟩ := hslotted
        obtain ⟨obj, hobj⟩ := hs.wellFormed.exists_obj hid hlost
        exact absurd ⟨i, rfl, hobj⟩ (hnone obj)
  · rw [if_neg hslotted]
    exact ⟨s.objectMap, Map.mapFind_of_not_slotted hs.wellFormed hid hslotted uid, hs⟩

theorem Indexed.lmove (hs : s.Indexed) (hlinked : s.space.Linked) (huid : uid ∈ s.space.ids) :
    Indexed ⟨s.objectMap, s.space.lmove uid pos⟩ := by
  obtain ⟨hids, hobject⟩ := lmove_of_mem pos hlinked huid
  refine ⟨hs.wellFormed, hs.distinct, hs.own, ?_, ?_⟩
  · dsimp only
    rw [hids]
    exact hs.held
  · intro other hother axis
    dsimp only at hother ⊢
    rw [hids] at hother
    have hne : other ≠ uid := fun heq => hother (heq ▸ huid)
    rw [hobject]
    simp [withPosition, hne, hs.apart other hother]

/-- A new id is put into the map, and the old ones stay. -/
theorem Indexed.addObject (hs : s.Indexed) (hid : uid ≠ []) (hlen : uid.length ≤ maxUidLen)
    (hnew : ¬ s.objectMap.Slotted uid) (pos : Position) (depth : ℕ) :
    s.objectMap.mapFind uid uid = some (s.objectMap, none) ∧
      ∃ objectMap, s.objectMap.mapQuery (depth + 4) uid uid = some (objectMap, uid) ∧
        Indexed ⟨objectMap, s.space.addObject uid pos⟩ := by
  have hfind := Map.mapFind_of_not_slotted hs.wellFormed hid hnew uid
  have huid : uid ∉ s.space.ids := by
    intro hmem
    have hfound := hs.mapFind hmem uid
    rw [hfind] at hfound
    cases hfound
  obtain ⟨objectMap, hinsert, ha⟩ :=
    Map.mapInsert_adds hs.wellFormed hid (copyUid_of_le hlen) uid depth
  obtain ⟨hids, -, hobject⟩ := lenter_new pos huid
  rw [lenter_of_not_mem huid] at hids hobject
  refine ⟨hfind, objectMap, by simp [Map.mapQuery, hfind, hinsert], ha.wellFormed,
    ha.distinct hs.distinct (hs.wellFormed.ne_of_not_slotted hid hnew), fun other obj hother => ?_,
    fun other hother => ?_, fun other hother axis => ?_⟩
  · rcases (ha.holds_iff other obj).mp hother with hold | ⟨rfl, rfl⟩
    · exact hs.own other obj hold
    · rfl
  · dsimp only at hother
    rw [hids, List.mem_append, List.mem_singleton] at hother
    refine (ha.holds_iff other other).mpr (hother.imp (hs.held other) fun heq => ⟨heq, heq⟩)
  · dsimp only at hother ⊢
    rw [hids, List.mem_append, List.mem_singleton, not_or] at hother
    rw [hobject, Function.update_of_ne hother.2]
    exact hs.apart other hother.1 axis

/-- The map forgets an object that leaves, and only that. -/
theorem Indexed.dropObject (hs : s.Indexed) (hlinked : s.space.Linked)
    (huid : uid ∈ s.space.ids) :
    ∃ objectMap, s.objectMap.mapDrop uid = some (objectMap, some uid) ∧
      Indexed ⟨objectMap, s.space.dropObject uid⟩ := by
  obtain ⟨objectMap, hdrop, hwell, hdistinct, -, hholds⟩ :=
    Map.mapDrop_spec hs.wellFormed hs.distinct (hs.held uid huid)
  refine ⟨objectMap, hdrop, hwell, hdistinct, fun other obj hother => ?_, fun other hother => ?_,
    fun other hother axis => ?_⟩
  · exact hs.own other obj ((hholds other obj).mp hother).2
  · obtain ⟨hne, hold⟩ := (mem_dropObject hlinked).mp hother
    exact (hholds other other).mpr ⟨hne, hs.held other hold⟩
  · by_cases heq : other = uid
    · simp [AoiSpace.dropObject, heq]
    · have hold : other ∉ s.space.ids :=
        fun hmem => hother ((mem_dropObject hlinked).mpr ⟨heq, hmem⟩)
      dsimp only
      rw [object_dropObject heq]
      exact hs.apart other hold axis

end

end MappedSpace

end Aoi
end ArmyRs
