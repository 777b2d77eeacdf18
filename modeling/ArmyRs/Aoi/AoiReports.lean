import ArmyRs.Aoi.AoiLookups
import ArmyRs.Aoi.AoiSight

/-!
# The reported pairs over a whole run

`SightSpace` is a space with its id map and with the objects that have a node of
`in_sight_list`; its operations answer with the pairs that `push_pairs` makes.
`AoiReports` remembers where each entered object was put last.  As long as a run is
`Careful`, every operation reports exactly the pairs of its object with the entered ones
within the radius, once each (`reports_of_run`).

Three things go wrong otherwise.  An id that has left keeps its slot of the map, and an
object that is made there again comes into no list (`enter_of_slotted`).  A new object may
be put behind one that is ahead of it, and the lists lose their order.  And `lleave` frees
the object before `push_pairs` reads its id, and its node of `in_sight_list` once for each
axis.
-/

namespace ArmyRs
namespace Aoi

open Foundation

/-! ## The operations -/

/-- An object is sighted when its `in_sight_list_iter` is not `NULL`. `in_sight_list` itself
is empty between two operations. -/
structure SightSpace extends MappedSpace where
  sighted : Uid → Bool

/-- The pairs of ids that an operation answers with; an id that is read from freed memory is
nothing. -/
abbrev Pairs := List (Option Uid × Uid)

/-- `push_pairs`. -/
def pushPairs (obj : Option Uid) (sight : List Uid) : Pairs := sight.map fun ob => (obj, ob)

namespace SightSpace

/-- `aoi_init`. -/
def init : SightSpace := ⟨.init, fun _ => false⟩

/-- Objects that come into sight have a node of `in_sight_list` from then on. -/
def see (sighted : Uid → Bool) (sight : List Uid) (ob : Uid) : Bool :=
  sighted ob || decide (ob ∈ sight)

/-- `lmove`. -/
def move (s : SightSpace) (uid : Uid) (pos : Position) : Option (SightSpace × Pairs) := do
  let (objectMap, found) ← s.objectMap.mapFind uid uid
  match found with
  | some obj =>
    let space := s.space.updateObjPos obj pos
    let sight := space.getRangeList obj
    some (⟨⟨objectMap, space⟩, see s.sighted sight⟩, pushPairs (some obj) sight)
  | none => some (⟨⟨objectMap, s.space⟩, s.sighted⟩, [])

/-- `lenter`, through `add` and `move`. -/
def enter (depth : ℕ) (s : SightSpace) (uid : Uid) (pos : Position) :
    Option (SightSpace × Pairs) := do
  let (objectMap, found) ← s.objectMap.mapFind uid uid
  match found with
  | some _ => move ⟨⟨objectMap, s.space⟩, s.sighted⟩ uid pos
  | none =>
    let (objectMap, obj) ← objectMap.mapQuery depth uid uid
    let sight := (s.space.newObject obj pos).addSight pos
    some (⟨⟨objectMap, s.space.addObject obj pos⟩, see s.sighted sight⟩,
      pushPairs (some obj) sight)

/-- `lleave`.  It has no result for an id that is not in the map, where it reads through
`NULL`, nor for a sighted object, whose node is freed three times. -/
def leave (s : SightSpace) (uid : Uid) : Option (SightSpace × Pairs) := do
  let (objectMap, found) ← s.objectMap.mapFind uid uid
  match found with
  | some obj =>
    let sight := s.space.getRangeList obj
    if see s.sighted sight obj then none
    else do
      let (objectMap, _) ← objectMap.mapDrop obj
      some (⟨⟨objectMap, s.space.dropObject obj⟩, see s.sighted sight⟩, pushPairs none sight)
  | none => none

end SightSpace

inductive AoiCall
  | enter (uid : Uid) (pos : Position)
  | move (uid : Uid) (pos : Position)
  | leave (uid : Uid)
  | setRadius (radius : BitVec 32)

/-- What an operation on an id answers with, and where its object was then. -/
structure AoiAnswer where
  uid : Uid
  center : Option Position
  pairs : Pairs

/-- A space, where each entered object was put last, and the last answer. -/
structure AoiReports where
  s : SightSpace
  placed : List (Uid × Position)
  answer : Option AoiAnswer

namespace AoiReports

open AoiSpace

def init : AoiReports := ⟨.init, [], none⟩

/-- Where an entered object was put. -/
def whereabouts (placed : List (Uid × Position)) (uid : Uid) : Option Position :=
  (placed.find? fun entry => entry.1 == uid).map Prod.snd

def without (placed : List (Uid × Position)) (uid : Uid) : List (Uid × Position) :=
  placed.filter fun entry => entry.1 ≠ uid

def step (depth : ℕ) (h : AoiReports) : AoiCall → Option AoiReports
  | .enter uid pos => do
    let (s, pairs) ← h.s.enter depth uid pos
    some ⟨s, (uid, pos) :: without h.placed uid, some ⟨uid, some pos, pairs⟩⟩
  | .move uid pos => do
    let (s, pairs) ← h.s.move uid pos
    match whereabouts h.placed uid with
    | some _ => some ⟨s, (uid, pos) :: without h.placed uid, some ⟨uid, some pos, pairs⟩⟩
    | none => some ⟨s, h.placed, some ⟨uid, none, pairs⟩⟩
  | .leave uid => do
    let (s, pairs) ← h.s.leave uid
    some ⟨s, without h.placed uid, some ⟨uid, whereabouts h.placed uid, pairs⟩⟩
  | .setRadius radius =>
    some ⟨{ h.s with space := h.s.space.lsetRadius radius }, h.placed, none⟩

/-- The last answer has exactly the pairs with the other entered objects within the radius,
once each. -/
def Right (h : AoiReports) : Prop :=
  ∀ answer, h.answer = some answer →
    answer.pairs.Nodup ∧ ∀ who o, (who, o) ∈ answer.pairs ↔
      who = some answer.uid ∧ o ≠ answer.uid ∧ ∃ p q, answer.center = some p ∧
        (o, q) ∈ h.placed ∧ sqDist q p ≤ (h.s.space.radius.toNat : ℤ) ^ 2

/-- The coordinates of a position differ from those of the other entered objects by less
than 2^31. -/
def CloseTo (h : AoiReports) (uid : Uid) (pos : Position) : Prop :=
  ∀ entry ∈ h.placed, entry.1 ≠ uid →
    ∀ axis, |((entry.2 axis).toNat : ℤ) - (pos axis).toNat| < 2 ^ 31

/-- The calls that are considered: with ids that a slot can hold, leaving only of what has
entered, and coordinates and a radius that are not too large. -/
def InDomain (h : AoiReports) : AoiCall → Prop
  | .enter uid pos => (uid ≠ [] ∧ uid.length ≤ maxUidLen) ∧ h.CloseTo uid pos
  | .move uid pos => (uid ≠ [] ∧ uid.length ≤ maxUidLen) ∧ h.CloseTo uid pos
  | .leave uid => ∃ entry ∈ h.placed, entry.1 = uid
  | .setRadius radius => 3 * radius.toNat ^ 2 < 2 ^ 32

/-- On an axis, no entered object is ahead of a position, or one is by more than the
radius. -/
def HasPlace (h : AoiReports) (pos : Position) (axis : Axis) : Prop :=
  (∀ entry ∈ h.placed, (entry.2 axis).toNat ≤ (pos axis).toNat) ∨
    ∃ entry ∈ h.placed, (pos axis).toNat + h.s.space.radius.toNat < (entry.2 axis).toNat

/-- A new object has an id that no slot of the map has, and finds its place on every axis.
An object that leaves was never in sight since it came in, and has no other within the
radius. -/
def Careful (h : AoiReports) : AoiCall → Prop
  | .enter uid pos =>
      (∃ entry ∈ h.placed, entry.1 = uid) ∨
        ¬ h.s.objectMap.Slotted uid ∧ ∀ axis, h.HasPlace pos axis
  | .leave uid =>
      h.s.sighted uid = false ∧ ∀ entry ∈ h.placed, entry.1 ≠ uid →
        ∀ p ∈ whereabouts h.placed uid, (h.s.space.radius.toNat : ℤ) ^ 2 < sqDist entry.2 p
  | _ => True

instance decidableAxes {p : Axis → Prop} [∀ axis, Decidable (p axis)] :
    Decidable (∀ axis, p axis) :=
  decidable_of_iff (p .x ∧ p .y ∧ p .z)
    ⟨fun ⟨hx, hy, hz⟩ axis => by cases axis <;> assumption, fun h => ⟨h .x, h .y, h .z⟩⟩

instance (h : AoiReports) (uid : Uid) (pos : Position) : Decidable (h.CloseTo uid pos) :=
  inferInstanceAs (Decidable (∀ entry ∈ h.placed, entry.1 ≠ uid →
    ∀ axis, |((entry.2 axis).toNat : ℤ) - (pos axis).toNat| < 2 ^ 31))

instance (h : AoiReports) : ∀ call, Decidable (h.InDomain call)
  | .enter _ _ => inferInstanceAs (Decidable (_ ∧ _))
  | .move _ _ => inferInstanceAs (Decidable (_ ∧ _))
  | .leave _ => inferInstanceAs (Decidable (∃ entry ∈ h.placed, _))
  | .setRadius _ => inferInstanceAs (Decidable (_ < _))

instance (h : AoiReports) (pos : Position) (axis : Axis) : Decidable (h.HasPlace pos axis) :=
  inferInstanceAs (Decidable ((∀ entry ∈ h.placed, _) ∨ ∃ entry ∈ h.placed, _))

instance (h : AoiReports) : ∀ call, Decidable (h.Careful call)
  | .enter _ pos =>
      inferInstanceAs (Decidable ((∃ entry ∈ h.placed, _) ∨ _ ∧ ∀ axis, h.HasPlace pos axis))
  | .move _ _ => isTrue trivial
  | .leave uid =>
      inferInstanceAs (Decidable (_ = false ∧ ∀ entry ∈ h.placed, _ →
        ∀ p ∈ whereabouts h.placed uid, _))
  | .setRadius _ => isTrue trivial

end AoiReports

/-! ## The operations, one by one -/

namespace SightSpace

open AoiSpace MappedSpace

section

variable {s : SightSpace} {uid : Uid} {pos : Position}

theorem move_of_mem (hs : s.Indexed) (huid : uid ∈ s.space.ids) (pos : Position) :
    s.move uid pos =
      some (⟨⟨s.objectMap, s.space.lmove uid pos⟩,
          see s.sighted ((s.space.lmove uid pos).getRangeList uid)⟩,
        pushPairs (some uid) ((s.space.lmove uid pos).getRangeList uid)) := by
  unfold move
  rw [hs.mapFind huid, lmove_of_mem_ids huid]
  rfl

/-- Nothing comes into sight of what has not entered. -/
theorem move_of_not_mem (hs : s.Indexed) (hid : uid ≠ []) (huid : uid ∉ s.space.ids)
    (pos : Position) :
    ∃ objectMap, s.move uid pos = some (⟨⟨objectMap, s.space⟩, s.sighted⟩, []) ∧
      Indexed ⟨objectMap, s.space⟩ := by
  obtain ⟨objectMap, hfind, hindexed⟩ := hs.mapFind_of_not_mem hid huid
  refine ⟨objectMap, ?_, hindexed⟩
  have hapart := hs.apart uid huid
  have hsee : see s.sighted [] = s.sighted := by
    funext ob
    simp [see]
  unfold move
  rw [hfind]
  by_cases hslotted : s.objectMap.Slotted uid
  · simp [hslotted, updateObjPos_of_apart hapart, getRangeList_of_apart hapart, pushPairs, hsee]
  · simp [hslotted]

theorem enter_of_mem (hs : s.Indexed) (huid : uid ∈ s.space.ids) (depth : ℕ) (pos : Position) :
    s.enter depth uid pos = s.move uid pos := by
  unfold enter
  rw [hs.mapFind huid]
  rfl

/-- An id that has left, and still has a slot, is not entered again. -/
theorem enter_of_slotted (hs : s.Indexed) (hid : uid ≠ []) (huid : uid ∉ s.space.ids)
    (hslotted : s.objectMap.Slotted uid) (depth : ℕ) (pos : Position) :
    ∃ objectMap, s.enter depth uid pos = some (⟨⟨objectMap, s.space⟩, s.sighted⟩, []) := by
  obtain ⟨found, hfind, hindexed⟩ := hs.mapFind_of_not_mem hid huid
  obtain ⟨objectMap, hmove, -⟩ :=
    @move_of_not_mem ⟨⟨found, s.space⟩, s.sighted⟩ uid hindexed hid huid pos
  refine ⟨objectMap, ?_⟩
  unfold enter
  rw [hfind, if_pos hslotted]
  exact hmove

theorem enter_new (hs : s.Indexed) (hid : uid ≠ []) (hlen : uid.length ≤ maxUidLen)
    (hnew : ¬ s.objectMap.Slotted uid) (depth : ℕ) (pos : Position) :
    ∃ objectMap, s.enter (depth + 4) uid pos =
        some (⟨⟨objectMap, s.space.addObject uid pos⟩,
            see s.sighted ((s.space.newObject uid pos).addSight pos)⟩,
          pushPairs (some uid) ((s.space.newObject uid pos).addSight pos)) ∧
      Indexed ⟨objectMap, s.space.addObject uid pos⟩ := by
  obtain ⟨hfind, objectMap, hquery, hindexed⟩ := hs.addObject hid hlen hnew pos depth
  refine ⟨objectMap, ?_, hindexed⟩
  unfold enter
  rw [hfind]
  simp [hquery]

theorem leave_of_mem (hs : s.Indexed) (hlinked : s.space.Linked) (huid : uid ∈ s.space.ids)
    (hunseen : s.sighted uid = false) (hsight : s.space.getRangeList uid = []) :
    ∃ objectMap, s.leave uid =
        some (⟨⟨objectMap, s.space.dropObject uid⟩, see s.sighted []⟩, []) ∧
      Indexed ⟨objectMap, s.space.dropObject uid⟩ := by
  obtain ⟨objectMap, hdrop, hindexed⟩ := hs.dropObject hlinked huid
  refine ⟨objectMap, ?_, hindexed⟩
  unfold leave
  rw [hs.mapFind huid]
  simp [hsight, see, hunseen, hdrop, pushPairs]

end

end SightSpace

/-! ## Runs -/

namespace AoiReports

open AoiSpace MappedSpace

/-- What holds between two operations of a careful run. -/
structure Tracked (h : AoiReports) : Prop where
  linked : h.s.space.Linked
  sorted : ∀ axis, h.s.space.Sorted axis
  indexed : h.s.Indexed
  placed : ∀ o q, (o, q) ∈ h.placed ↔ h.s.space.whereIs o = some q
  close : ∀ o q o' q', (o, q) ∈ h.placed → (o', q') ∈ h.placed → o ≠ o' →
    ∀ axis, |((q axis).toNat : ℤ) - (q' axis).toNat| < 2 ^ 31
  radius : 3 * h.s.space.radius.toNat ^ 2 < 2 ^ 32

section

variable {h next : AoiReports} {call : AoiCall} {uid c : Uid} {pos q : Position} {axis : Axis}

theorem tracked_init : init.Tracked where
  linked := linked_init
  sorted := sorted_init
  indexed := indexed_init
  placed := by
    intro o q
    simp [init, SightSpace.init, MappedSpace.init, AoiSpace.init, whereIs, mapFind]
  close := fun _ _ _ _ hmem => absurd hmem List.not_mem_nil
  radius := by decide

theorem Tracked.whereabouts (hh : h.Tracked) (uid : Uid) :
    AoiReports.whereabouts h.placed uid = h.s.space.whereIs uid := by
  unfold AoiReports.whereabouts
  cases hfind : h.placed.find? fun entry => entry.1 == uid with
  | none =>
    cases hwhere : h.s.space.whereIs uid with
    | none => rfl
    | some q =>
      have hnot := List.find?_eq_none.mp hfind (uid, q) ((hh.placed uid q).mpr hwhere)
      simp at hnot
  | some entry =>
    have heq : entry.1 = uid := by simpa using List.find?_some hfind
    have hmem : (entry.1, entry.2) ∈ h.placed := List.mem_of_find?_eq_some hfind
    rw [heq, hh.placed] at hmem
    rw [hmem]
    rfl

theorem mem_without : (c, q) ∈ without h.placed uid ↔ (c, q) ∈ h.placed ∧ c ≠ uid := by
  unfold without
  rw [List.mem_filter, decide_eq_true_eq]

/-- The entered ids are those of the space. -/
theorem Tracked.mem_ids_iff (hh : h.Tracked) :
    uid ∈ h.s.space.ids ↔ ∃ entry ∈ h.placed, entry.1 = uid := by
  rw [AoiSpace.mem_ids_iff, Option.isSome_iff_exists]
  constructor
  · rintro ⟨q, hq⟩
    exact ⟨(uid, q), (hh.placed uid q).mpr hq, rfl⟩
  · rintro ⟨⟨_, q⟩, hmem, rfl⟩
    exact ⟨q, (hh.placed _ q).mp hmem⟩

theorem Tracked.mem_placed_iff (hh : h.Tracked) :
    (c, q) ∈ h.placed ↔ c ∈ h.s.space.ids ∧ (h.s.space.object c).position = q := by
  rw [hh.placed, whereIs_eq]
  split
  · next hc => simp [hc]
  · next hc => simp [hc]

/-- What `get_range_list` finds is what the answer should have. -/
theorem Tracked.mem_range (hh : h.Tracked) (huid : (uid, pos) ∈ h.placed) :
    (h.s.space.getRangeList uid).Nodup ∧ ∀ c, c ∈ h.s.space.getRangeList uid ↔
      c ≠ uid ∧ ∃ q, (c, q) ∈ h.placed ∧
        sqDist q pos ≤ (h.s.space.radius.toNat : ℤ) ^ 2 := by
  obtain ⟨hmem, hpos⟩ := hh.mem_placed_iff.mp huid
  have hclose : h.s.space.Close h.s.space.ids (h.s.space.object uid).position := by
    intro c hc axis
    by_cases heq : c = uid
    · simp [coord, heq]
    · exact hh.close c _ uid _ (hh.mem_placed_iff.mpr ⟨hc, rfl⟩)
        (hh.mem_placed_iff.mpr ⟨hmem, rfl⟩) heq axis
  obtain ⟨hnodup, hrange⟩ := mem_getRangeList (hh.linked.laid hh.sorted) hh.radius hmem hclose
    (hh.linked.posIter uid hmem)
  refine ⟨hnodup, fun c => ?_⟩
  rw [hrange, hpos]
  constructor
  · rintro ⟨⟨hc, hne⟩, hdist⟩
    exact ⟨hne, _, hh.mem_placed_iff.mpr ⟨hc, rfl⟩, hdist⟩
  · rintro ⟨hne, q, hq, hdist⟩
    obtain ⟨hc, rfl⟩ := hh.mem_placed_iff.mp hq
    exact ⟨⟨hc, hne⟩, hdist⟩

theorem Tracked.closeIds (hh : h.Tracked) (hclose : h.CloseTo uid pos)
    (huid : uid ∉ h.s.space.ids) : h.s.space.Close h.s.space.ids pos := by
  intro c hc axis
  have hne : c ≠ uid := fun heq => huid (heq ▸ hc)
  exact hclose (c, (h.s.space.object c).position) (hh.mem_placed_iff.mpr ⟨hc, rfl⟩) hne axis

/-- And so is what `add` finds for a new object. -/
theorem Tracked.mem_add (hh : h.Tracked) (huid : uid ∉ h.s.space.ids)
    (hclose : h.CloseTo uid pos) :
    ((h.s.space.newObject uid pos).addSight pos).Nodup ∧
      ∀ c, c ∈ (h.s.space.newObject uid pos).addSight pos ↔
        c ≠ uid ∧ ∃ q, (c, q) ∈ h.placed ∧
          sqDist q pos ≤ (h.s.space.radius.toNat : ℤ) ^ 2 := by
  have hobject : ∀ c ∈ h.s.space.ids,
      (h.s.space.newObject uid pos).object c = h.s.space.object c := by
    intro c hc
    have hne : c ≠ uid := fun heq => huid (heq ▸ hc)
    exact Function.update_of_ne hne _ _
  have hcloseIds : (h.s.space.newObject uid pos).Close h.s.space.ids pos := by
    intro c hc axis
    rw [coord, hobject c hc]
    exact hh.closeIds hclose huid c hc axis
  have hradius : 3 * (h.s.space.newObject uid pos).radius.toNat ^ 2 < 2 ^ 32 := hh.radius
  obtain ⟨hnodup, hadd⟩ :=
    mem_addSight ((hh.linked.laid hh.sorted).newObject huid pos) hradius hcloseIds
  refine ⟨hnodup, fun c => ?_⟩
  rw [hadd]
  constructor
  · rintro ⟨hc, hdist⟩
    have hne : c ≠ uid := fun heq => huid (heq ▸ hc)
    rw [hobject c hc] at hdist
    exact ⟨hne, _, hh.mem_placed_iff.mpr ⟨hc, rfl⟩, hdist⟩
  · rintro ⟨-, q, hq, hdist⟩
    obtain ⟨hc, rfl⟩ := hh.mem_placed_iff.mp hq
    exact ⟨hc, by rw [hobject c hc]; exact hdist⟩

/-- An answer with the right objects has the right pairs. -/
theorem right_of_sight {s : SightSpace} {placed : List (Uid × Position)} {sight : List Uid}
    (hnodup : sight.Nodup)
    (hmem : ∀ c, c ∈ sight ↔ c ≠ uid ∧ ∃ q, (c, q) ∈ placed ∧
      sqDist q pos ≤ (s.space.radius.toNat : ℤ) ^ 2) :
    Right ⟨s, placed, some ⟨uid, some pos, pushPairs (some uid) sight⟩⟩ := by
  intro answer hanswer
  cases hanswer
  constructor
  · refine hnodup.map fun a b hab => ?_
    exact congrArg Prod.snd hab
  · intro who o
    simp only [pushPairs, List.mem_map, Prod.mk.injEq, Option.some.injEq]
    constructor
    · rintro ⟨c, hc, rfl, rfl⟩
      obtain ⟨hne, q, hq, hdist⟩ := (hmem c).mp hc
      exact ⟨rfl, hne, pos, q, rfl, hq, hdist⟩
    · rintro ⟨rfl, hne, p, q, rfl, hq, hdist⟩
      exact ⟨o, (hmem o).mpr ⟨hne, q, hq, hdist⟩, rfl, rfl⟩

/-- The object is now where it was put, and the others are where they were. -/
theorem Tracked.put (hh : h.Tracked) (hclose : h.CloseTo uid pos) (s : SightSpace)
    (answer : Option AoiAnswer) (hlinked : s.space.Linked) (hsorted : ∀ axis, s.space.Sorted axis)
    (hindexed : s.Indexed)
    (hwhere : s.space.whereIs = Function.update h.s.space.whereIs uid (some pos))
    (hradius : s.space.radius = h.s.space.radius) :
    Tracked ⟨s, (uid, pos) :: without h.placed uid, answer⟩ where
  linked := hlinked
  sorted := hsorted
  indexed := hindexed
  placed := by
    intro o q
    dsimp only
    rw [List.mem_cons, mem_without, hwhere, hh.placed]
    by_cases heq : o = uid
    · simp [heq, eq_comm]
    · simp [heq]
  close := by
    intro o q o' q' hmem hmem' hne axis
    dsimp only at hmem hmem'
    rw [List.mem_cons, mem_without] at hmem hmem'
    -- two entries: each is the new one or an old one
    rcases hmem with heq | ⟨hmem, hnotUid⟩ <;> rcases hmem' with heq' | ⟨hmem', hnotUid'⟩
    · cases heq
      cases heq'
      exact absurd rfl hne
    · cases heq
      rw [abs_sub_comm]
      exact hclose (o', q') hmem' hnotUid' axis
    · cases heq'
      exact hclose (o, q) hmem hnotUid axis
    · exact hh.close o q o' q' hmem hmem' hne axis
  radius := by
    dsimp only
    rw [hradius]
    exact hh.radius

/-- A move of an entered object. -/
theorem Tracked.move (hh : h.Tracked) (hclose : h.CloseTo uid pos)
    (huid : uid ∈ h.s.space.ids) :
    ∃ s pairs, h.s.move uid pos = some (s, pairs) ∧
      Tracked ⟨s, (uid, pos) :: without h.placed uid, some ⟨uid, some pos, pairs⟩⟩ ∧
      Right ⟨s, (uid, pos) :: without h.placed uid, some ⟨uid, some pos, pairs⟩⟩ := by
  have hwhere : (h.s.space.lmove uid pos).whereIs =
      Function.update h.s.space.whereIs uid (some pos) := by
    rw [whereIs_lmove hh.linked, if_pos (AoiSpace.mem_ids_iff.mp huid)]
  refine ⟨_, _, SightSpace.move_of_mem hh.indexed huid pos, ?_⟩
  have hnext := hh.put hclose
    ⟨⟨h.s.objectMap, h.s.space.lmove uid pos⟩,
      SightSpace.see h.s.sighted ((h.s.space.lmove uid pos).getRangeList uid)⟩
    (some ⟨uid, some pos, pushPairs (some uid) ((h.s.space.lmove uid pos).getRangeList uid)⟩)
    hh.linked.lmove (fun axis => (hh.sorted axis).lmove hh.linked)
    (hh.indexed.lmove hh.linked huid) hwhere (radius_lmove hh.linked huid)
  -- the answer is what the walk sees after the move
  obtain ⟨hnodup, hmem⟩ := hnext.mem_range List.mem_cons_self
  exact ⟨hnext, right_of_sight hnodup hmem⟩

/-- Every new object that has its place is put there. -/
theorem Tracked.sorted_lenter (hh : h.Tracked) (hclose : h.CloseTo uid pos)
    (huid : uid ∉ h.s.space.ids) (hplace : h.HasPlace pos axis) :
    (h.s.space.lenter uid pos).Sorted axis := by
  have hradius : h.s.space.radius.toNat < 2 ^ 31 := by
    have hsmall := hh.radius
    nlinarith
  rw [sorted_lenter_new_iff pos hh.linked (hh.sorted axis) huid,
    clear_iff hradius fun c hc => hh.closeIds hclose huid c hc axis]
  refine hplace.imp (fun hall c hc => ?_) fun ⟨entry, hentry, hlt⟩ => ?_
  · exact hall (c, (h.s.space.object c).position) (hh.mem_placed_iff.mpr ⟨hc, rfl⟩)
  · obtain ⟨hc, hpos⟩ := hh.mem_placed_iff.mp hentry
    exact ⟨entry.1, hc, by rw [coord, hpos]; exact hlt⟩

/-- A new object comes in. -/
theorem Tracked.enter (hh : h.Tracked) (hid : uid ≠ []) (hlen : uid.length ≤ maxUidLen)
    (hclose : h.CloseTo uid pos) (hnew : ¬ h.s.objectMap.Slotted uid)
    (hplace : ∀ axis, h.HasPlace pos axis) (depth : ℕ) :
    ∃ s pairs, h.s.enter (depth + 4) uid pos = some (s, pairs) ∧
      Tracked ⟨s, (uid, pos) :: without h.placed uid, some ⟨uid, some pos, pairs⟩⟩ ∧
      Right ⟨s, (uid, pos) :: without h.placed uid, some ⟨uid, some pos, pairs⟩⟩ := by
  have huid : uid ∉ h.s.space.ids := by
    intro hmem
    -- an entered object would have a slot
    obtain ⟨i, hi, hobj⟩ := hh.indexed.held uid hmem
    exact hnew ⟨i, hh.indexed.wellFormed.lt_size (by rw [hi]; exact hid), hi⟩
  obtain ⟨objectMap, henter, hindexed⟩ :=
    SightSpace.enter_new hh.indexed hid hlen hnew depth pos
  obtain ⟨-, hradius, -⟩ := lenter_new pos huid
  have hsorted : ∀ axis, (h.s.space.lenter uid pos).Sorted axis :=
    fun axis => hh.sorted_lenter hclose huid (hplace axis)
  have hlinked : (h.s.space.lenter uid pos).Linked := hh.linked.lenter
  have hwhere : (h.s.space.lenter uid pos).whereIs = _ := whereIs_lenter hh.linked
  rw [lenter_of_not_mem huid] at hsorted hlinked hwhere hradius
  -- the walk is made before the object is linked in
  obtain ⟨hnodup, hmem⟩ := hh.mem_add huid hclose
  refine ⟨_, _, henter, hh.put hclose _ _ hlinked hsorted hindexed hwhere hradius,
    right_of_sight hnodup fun c => (hmem c).trans (and_congr_right fun hne => ?_)⟩
  -- the other entries are the old ones
  refine exists_congr fun q => and_congr ?_ ?_
  · rw [List.mem_cons, mem_without]
    simp [hne]
  · rw [hradius]

/-- An object leaves that nobody has seen, with nothing in sight. -/
theorem Tracked.leave (hh : h.Tracked) (huid : uid ∈ h.s.space.ids)
    (hunseen : h.s.sighted uid = false)
    (hfar : ∀ entry ∈ h.placed, entry.1 ≠ uid → ∀ p ∈ AoiReports.whereabouts h.placed uid,
      (h.s.space.radius.toNat : ℤ) ^ 2 < sqDist entry.2 p) :
    ∃ s, h.s.leave uid = some (s, []) ∧
      Tracked ⟨s, without h.placed uid, some ⟨uid, AoiReports.whereabouts h.placed uid, []⟩⟩ ∧
      Right ⟨s, without h.placed uid, some ⟨uid, AoiReports.whereabouts h.placed uid, []⟩⟩ := by
  have hpos : (uid, (h.s.space.object uid).position) ∈ h.placed :=
    hh.mem_placed_iff.mpr ⟨huid, rfl⟩
  have hwhere : AoiReports.whereabouts h.placed uid = some (h.s.space.object uid).position := by
    rw [hh.whereabouts, ← hh.placed]
    exact hpos
  have hsight : h.s.space.getRangeList uid = [] := by
    -- what the walk could report is as near as the radius
    rw [List.eq_nil_iff_forall_not_mem]
    intro c hc
    obtain ⟨hne, q, hq, hdist⟩ := ((hh.mem_range hpos).2 c).mp hc
    have hlt := hfar (c, q) hq hne _ hwhere
    exact absurd hdist (not_le.mpr hlt)
  obtain ⟨objectMap, hleave, hindexed⟩ :=
    SightSpace.leave_of_mem hh.indexed hh.linked huid hunseen hsight
  refine ⟨_, hleave, ?_, ?_⟩
  · constructor
    case linked => exact hh.linked.dropObject huid
    case sorted => exact fun axis => (hh.sorted axis).dropObject hh.linked huid
    case indexed => exact hindexed
    case placed =>
      intro o q
      dsimp only
      rw [mem_without, whereIs_dropObject hh.linked, hh.placed]
      by_cases heq : o = uid <;> simp [heq]
    case close =>
      intro o q o' q' hmem hmem'
      exact hh.close o q o' q' (mem_without.mp hmem).1 (mem_without.mp hmem').1
    case radius => exact hh.radius
  · -- nobody was told of the object, and nobody has it in sight
    intro answer hanswer
    cases hanswer
    refine ⟨List.nodup_nil, fun who o => iff_of_false List.not_mem_nil ?_⟩
    rintro ⟨-, hne, p, q, hp, hq, hdist⟩
    have hlt := hfar (o, q) (mem_without.mp hq).1 hne p hp
    exact absurd hdist (not_le.mpr hlt)

/-- Every careful operation ends, and its answer is right. -/
theorem Tracked.step (hh : h.Tracked) (hdomain : h.InDomain call) (hcareful : h.Careful call)
    (depth : ℕ) : ∃ next, h.step (depth + 4) call = some next ∧ next.Tracked ∧ next.Right := by
  cases call with
  | enter uid pos =>
    obtain ⟨⟨hid, hlen⟩, hclose⟩ := hdomain
    by_cases huid : uid ∈ h.s.space.ids
    · -- an entered id: `add` refuses, and the object is moved
      obtain ⟨s, pairs, hmove, hnext⟩ := hh.move hclose huid
      refine ⟨_, ?_, hnext⟩
      simp [AoiReports.step, SightSpace.enter_of_mem hh.indexed huid, hmove]
    · obtain ⟨hnew, hplace⟩ := hcareful.resolve_left (mt hh.mem_ids_iff.mpr huid)
      obtain ⟨s, pairs, henter, hnext⟩ := hh.enter hid hlen hclose hnew hplace depth
      exact ⟨_, by simp [AoiReports.step, henter], hnext⟩
  | move uid pos =>
    obtain ⟨⟨hid, -⟩, hclose⟩ := hdomain
    by_cases huid : uid ∈ h.s.space.ids
    · obtain ⟨s, pairs, hmove, hnext⟩ := hh.move hclose huid
      obtain ⟨q, hq⟩ := Option.isSome_iff_exists.mp (AoiSpace.mem_ids_iff.mp huid)
      exact ⟨_, by simp [AoiReports.step, hmove, hh.whereabouts, hq], hnext⟩
    · -- nothing is moved, and nothing is reported
      obtain ⟨objectMap, hmove, hindexed⟩ := SightSpace.move_of_not_mem hh.indexed hid huid pos
      have hnone : h.s.space.whereIs uid = none :=
        Option.not_isSome_iff_eq_none.mp (mt AoiSpace.mem_ids_iff.mpr huid)
      refine ⟨⟨⟨⟨objectMap, h.s.space⟩, h.s.sighted⟩, h.placed, some ⟨uid, none, []⟩⟩,
        by simp [AoiReports.step, hmove, hh.whereabouts, hnone],
        ⟨hh.linked, hh.sorted, hindexed, hh.placed, hh.close, hh.radius⟩, ?_⟩
      intro answer hanswer
      cases hanswer
      refine ⟨List.nodup_nil, fun who o => iff_of_false List.not_mem_nil ?_⟩
      rintro ⟨-, -, p, -, hp, -⟩
      cases hp
  | leave uid =>
    obtain ⟨hunseen, hfar⟩ := hcareful
    obtain ⟨s, hleave, hnext⟩ := hh.leave (hh.mem_ids_iff.mpr hdomain) hunseen hfar
    exact ⟨_, by simp [AoiReports.step, hleave], hnext⟩
  | setRadius radius =>
    obtain ⟨hwell, hdistinct, hown, hheld, hapart⟩ := hh.indexed
    refine ⟨_, rfl, ⟨hh.linked.lsetRadius radius, hh.sorted, ⟨hwell, hdistinct, hown, hheld, hapart⟩,
      hh.placed, hh.close, hdomain⟩, ?_⟩
    intro answer hanswer
    cases hanswer

end

/-- In every run whose operations are careful, each answer has exactly the pairs with the
other entered objects within the radius, once each; and the next careful operation ends. -/
theorem reports_of_run (depth : ℕ) {calls : List AoiCall} {h : AoiReports}
    (hrun : Run (step (depth + 4)) (fun h call => h.InDomain call ∧ h.Careful call) init calls h) :
    h.Right ∧ ∀ call, h.InDomain call → h.Careful call → (h.step (depth + 4) call).isSome := by
  have hkeep : ∀ (state : AoiReports) (call : AoiCall) (next : AoiReports), state.Tracked ∧ state.Right →
      state.InDomain call ∧ state.Careful call → state.step (depth + 4) call = some next →
        next.Tracked ∧ next.Right := by
    rintro state call next ⟨htracked, -⟩ ⟨hdomain, hcareful⟩ hstep
    obtain ⟨next', hstep', hnext⟩ := htracked.step hdomain hcareful depth
    rw [hstep] at hstep'
    cases hstep'
    exact hnext
  have hstart : init.Right := fun answer hanswer => by cases hanswer
  have hh := hrun.invariant ⟨tracked_init, hstart⟩ hkeep
  refine ⟨hh.2, fun call hdomain hcareful => ?_⟩
  obtain ⟨next, hstep, -⟩ := hh.1.step hdomain hcareful depth
  rw [hstep]
  rfl

/-- A position on the first axis. -/
def along (x : BitVec 32) : Position
  | .x => x
  | _ => 0

/-- The first object leaves before the others come in. -/
def oneLeaves : List AoiCall :=
  [.enter [97#8] (along 400), .leave [97#8], .enter [98#8] (along 500),
    .enter [99#8] (along 600), .move [98#8] (along 550), .setRadius 10, .move [99#8] (along 560)]

theorem reports_oneLeaves :
    ∃ h, Run (step 4) (fun h call => h.InDomain call ∧ h.Careful call) init oneLeaves h ∧
      h.Right ∧ ∀ call, h.InDomain call → h.Careful call → (h.step 4 call).isSome := by
  have hrun : Run (step 4) (fun h call => h.InDomain call ∧ h.Careful call) init oneLeaves _ :=
    run_exec_getD init (by decide +kernel)
  exact ⟨_, hrun, reports_of_run 0 hrun⟩

/-- The second object is put behind the first, and the third does not find it. -/
def threeEnter : List AoiCall :=
  [.enter [97#8] (along 400), .enter [98#8] (along 240), .enter [99#8] (along 100)]

theorem not_right_threeEnter :
    ¬ ∀ (calls : List AoiCall) (h : AoiReports), Run (step 4) InDomain init calls h → h.Right := by
  intro hall
  have hright := hall threeEnter _ (run_exec_getD init (by decide +kernel))
  have hmissed : ∃ answer ∈ ((exec (step 4) InDomain init threeEnter).getD init).answer,
      answer.pairs = [] ∧ ∃ p ∈ answer.center,
        ∃ entry ∈ ((exec (step 4) InDomain init threeEnter).getD init).placed,
          entry.1 ≠ answer.uid ∧ sqDist entry.2 p ≤
            (((exec (step 4) InDomain init threeEnter).getD init).s.space.radius.toNat : ℤ) ^ 2 := by
    decide +kernel
  obtain ⟨answer, hanswer, hpairs, p, hp, ⟨o, q⟩, hq, hne, hdist⟩ := hmissed
  have hmem := ((hright answer hanswer).2 (some answer.uid) o).mpr ⟨rfl, hne, p, q, hp, hq, hdist⟩
  rw [hpairs] at hmem
  cases hmem

end AoiReports

end Aoi
end ArmyRs
