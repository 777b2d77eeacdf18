import ArmyRs.Aoi.ListOrder
import ArmyRs.Foundation.Transition

/-!
# The lists over a whole run

`AoiHistory` follows a space and remembers where each object was put last.  In every run
the three lists are consistent in both directions and hold exactly the entered objects,
once each (`tracks_of_run`).  They are sorted only as long as every new object finds its
place (`run_inOrder_iff`): when the loop of `add` comes to the tail, it puts the object
there, also when it has seen objects ahead of it.
-/

namespace ArmyRs
namespace Aoi

open Foundation

variable {Uid : Type*} [DecidableEq Uid]

namespace AoiSpace

/-- What holds of a space between two operations. -/
structure Linked (space : AoiSpace Uid) : Prop where
  nodup : space.ids.Nodup
  posIter : ∀ uid ∈ space.ids, ∀ axis, (space.object uid).posIter axis = some (.node uid)
  lists : ∀ axis, ∃ xs, Represents (space.lists axis) xs ∧ ∀ uid, uid ∈ xs ↔ uid ∈ space.ids

/-- Where the map finds an object. -/
def whereIs (space : AoiSpace Uid) (uid : Uid) : Option Position :=
  (space.mapFind uid).map Object.position

/-- The list of an axis is sorted. -/
def Sorted (space : AoiSpace Uid) (axis : Axis) : Prop :=
  ∃ xs, Represents (space.lists axis) xs ∧ SortedBy (space.coord axis) xs

section

variable {space : AoiSpace Uid} {xs : List Uid} {uid c : Uid} {pos : Position} {axis : Axis}

theorem linked_init : (init : AoiSpace Uid).Linked where
  nodup := List.nodup_nil
  posIter := fun _ huid => absurd huid List.not_mem_nil
  lists := fun _ => ⟨[], represents_listNew, fun _ => Iff.rfl⟩

theorem sorted_init (axis : Axis) : (init : AoiSpace Uid).Sorted axis :=
  ⟨[], represents_listNew, List.Pairwise.nil⟩

theorem length_le_ids (h : Represents (space.lists axis) xs)
    (hmem : ∀ uid, uid ∈ xs ↔ uid ∈ space.ids) : xs.length ≤ space.ids.length :=
  (List.subperm_of_subset h.nodup fun uid huid => (hmem uid).mp huid).length_le

/-- Only the coordinate of the object that is written changes. -/
theorem coord_of_update {next : AoiSpace Uid} (obj : Object Uid)
    (hobject : next.object = Function.update space.object uid obj) :
    next.coord axis = Function.update (space.coord axis) uid (obj.position axis).toNat := by
  funext c
  unfold coord
  rw [hobject]
  by_cases heq : c = uid
  · rw [heq, Function.update_self, Function.update_self]
  · rw [Function.update_of_ne heq, Function.update_of_ne heq]

/-! ## Entering a new object -/

theorem lenter_of_not_mem (huid : uid ∉ space.ids) :
    space.lenter uid pos = space.addObject uid pos := by
  have hnone : space.mapFind uid = none := if_neg huid
  unfold lenter add
  rw [hnone]

/-- What `lenter` does with a new object, the lists apart. -/
theorem lenter_new (pos : Position) (huid : uid ∉ space.ids) :
    (space.lenter uid pos).ids = space.ids ++ [uid] ∧
    (space.lenter uid pos).radius = space.radius ∧
    (space.lenter uid pos).object =
      Function.update space.object uid ⟨pos, fun _ => some (.node uid)⟩ := by
  rw [lenter_of_not_mem huid]
  refine ⟨rfl, rfl, ?_⟩
  simp [addObject, newObject, listInsert_snd]

/-- It is put into each list at the place that the loop has found. -/
theorem lists_lenter_new (pos : Position) (huid : uid ∉ space.ids)
    (h : Represents (space.lists axis) xs)
    (hmem : ∀ c, c ∈ xs ↔ c ∈ space.ids) :
    ∃ front back, xs = front ++ back ∧
      Placed ((space.newObject uid pos).diff axis pos) space.radius.toInt front back ∧
      Represents ((space.lenter uid pos).lists axis) (front ++ uid :: back) := by
  have hfuel : xs.length < (space.ids ++ [uid]).length + 1 := by
    have hle := length_le_ids h hmem
    rw [List.length_append]
    omega
  obtain ⟨front, back, rfl, hscan, hplaced⟩ := scan_placed
    ((space.newObject uid pos).diff axis pos) space.radius.toInt h hfuel
  refine ⟨front, back, rfl, hplaced, ?_⟩
  have haddPos : (space.newObject uid pos).addPos axis pos = some (firstNode back) := by
    rw [← hscan]
    show scan _ _ _ _ ((space.lists axis).next .head) ((space.lists axis).next .head) _ = _
    rw [h.next_head]
    rfl
  have hlists : (space.lenter uid pos).lists axis =
      (listInsert (space.lists axis) uid ((space.newObject uid pos).addPos axis pos) none).1 := by
    rw [lenter_of_not_mem huid]
    simp [addObject, newObject]
  rw [hlists, haddPos]
  exact h.insert (mt (hmem uid).mp huid)

theorem coord_newObject (space : AoiSpace Uid) (uid : Uid) (pos : Position) (axis : Axis) :
    (space.newObject uid pos).coord axis =
      Function.update (space.coord axis) uid (pos axis).toNat :=
  coord_of_update ⟨pos, fun _ => none⟩ rfl

theorem coord_lenter_new (huid : uid ∉ space.ids) :
    (space.lenter uid pos).coord axis = (space.newObject uid pos).coord axis := by
  obtain ⟨-, -, hobject⟩ := lenter_new pos huid
  rw [coord_newObject, coord_of_update _ hobject]

/-- A new object keeps a list sorted exactly when its way to its place is clear. -/
theorem sorted_lenter_new_iff (pos : Position) (h : space.Linked) (hsorted : space.Sorted axis)
    (huid : uid ∉ space.ids) :
    (space.lenter uid pos).Sorted axis ↔
      Clear space.ids (space.coord axis) (space.diff axis pos) space.radius.toInt
        (pos axis).toNat := by
  obtain ⟨xs, hxs, hmem⟩ := h.lists axis
  obtain ⟨others, hothers, hxsSorted⟩ := hsorted
  rw [hothers.eq hxs] at hxsSorted
  obtain ⟨front, back, rfl, hplaced, hnext⟩ := lists_lenter_new pos huid hxs hmem
  have hne : ∀ c ∈ space.ids, c ≠ uid := fun c hc heq => huid (heq ▸ hc)
  have hcoord : ∀ c ∈ space.ids, (space.newObject uid pos).coord axis c = space.coord axis c := by
    intro c hc
    rw [coord_newObject, Function.update_of_ne (hne c hc)]
  have hdiff : ∀ c ∈ space.ids,
      (space.newObject uid pos).diff axis pos c = space.diff axis pos c := by
    intro c hc
    simp [diff, newObject, hne c hc]
  have hnew : (space.newObject uid pos).coord axis uid = (pos axis).toNat := by
    rw [coord_newObject, Function.update_self]
  have hfrontBack : SortedBy ((space.newObject uid pos).coord axis) (front ++ back) :=
    hxsSorted.congr fun c hc => hcoord c ((hmem c).mp hc)
  constructor
  · -- the links after the insertion are those of one list only
    rintro ⟨ys, hys, hysSorted⟩
    rw [hys.eq hnext, coord_lenter_new huid] at hysSorted
    obtain ⟨-, hfront, hback⟩ := sortedBy_middle.mp hysSorted
    rw [hnew] at hfront hback
    refine (hplaced.clear hfrontBack ?_ hfront hback).congr (fun c => (hmem c).symm) ?_ ?_
    · intro c hc
      have heq : ((space.newObject uid pos).object c).position axis = pos axis :=
        BitVec.eq_of_toNat_eq hc
      simp [diff, heq]
    · exact fun c hc => (hcoord c ((hmem c).mp hc)).symm
    · exact fun c hc => (hdiff c ((hmem c).mp hc)).symm
  · -- a clear coordinate makes the place of the walk the right one
    intro hclear
    have hplace := (hclear.congr hmem hcoord hdiff).placed hplaced hfrontBack ?_
    · refine ⟨front ++ uid :: back, hnext, ?_⟩
      rw [coord_lenter_new huid]
      refine sortedBy_middle.mpr ⟨hfrontBack, ?_⟩
      rwa [hnew]
    · intro a b hab
      have heq : ((space.newObject uid pos).object a).position axis =
          ((space.newObject uid pos).object b).position axis := BitVec.eq_of_toNat_eq hab
      simp [diff, heq]

omit [DecidableEq Uid] in
/-- The difference is that of the coordinates when they are not too far apart. -/
theorem diff_eq (hclose : |(space.coord axis c : ℤ) - (pos axis).toNat| < 2 ^ 31) :
    space.diff axis pos c = space.coord axis c - (pos axis).toNat := by
  have hlt := abs_lt.mp hclose
  have hold := ((space.object c).position axis).isLt
  have hp := (pos axis).isLt
  rw [coord] at hlt ⊢
  rw [diff, BitVec.toInt_eq_toNat_cond, BitVec.toNat_sub]
  split <;> omega

omit [DecidableEq Uid] in
/-- Where coordinates and the radius are small, that means that none is greater or one is
beyond the radius. -/
theorem clear_iff (hradius : space.radius.toNat < 2 ^ 31)
    (hnear : ∀ c ∈ space.ids, |(space.coord axis c : ℤ) - (pos axis).toNat| < 2 ^ 31) :
    Clear space.ids (space.coord axis) (space.diff axis pos) space.radius.toInt
        (pos axis).toNat ↔
      (∀ c ∈ space.ids, space.coord axis c ≤ (pos axis).toNat) ∨
        ∃ c ∈ space.ids, (pos axis).toNat + space.radius.toNat < space.coord axis c := by
  have htoInt : space.radius.toInt = space.radius.toNat :=
    BitVec.toInt_eq_toNat_of_lt (by omega)
  rw [htoInt, clear_iff_of_diff (Int.natCast_nonneg _)]
  · norm_cast
  · exact fun c hc => diff_eq (hnear c hc)

/-! ## Moving an object -/

/-- The object has its new position, and nothing is moved yet. -/
def withPosition (space : AoiSpace Uid) (uid : Uid) (pos : Position) : AoiSpace Uid :=
  { space with
    object := Function.update space.object uid { space.object uid with position := pos } }

theorem coord_withPosition (space : AoiSpace Uid) (uid : Uid) (pos : Position) (axis : Axis) :
    (space.withPosition uid pos).coord axis =
      Function.update (space.coord axis) uid (pos axis).toNat :=
  coord_of_update { space.object uid with position := pos } rfl

/-- What `move` does with an object that is in the lists. -/
theorem move_of_mem (h : space.Linked) (huid : uid ∈ space.ids) :
    space.move uid pos = some
      { space.withPosition uid pos with
        lists := fun axis =>
          (space.withPosition uid pos).updateAxis axis ((space.object uid).position axis)
            (pos axis) (.node uid) } := by
  have hsome : space.mapFind uid = some (space.object uid) := if_pos huid
  have hiter := h.posIter uid huid
  unfold move
  rw [hsome]
  dsimp only
  unfold updateObjPos
  rw [if_neg (by simp [hiter])]
  simp only [hiter]
  rfl

/-- On each axis the object is taken to its place. -/
theorem updateAxis_withPosition (pos : Position) (h : Represents (space.lists axis) xs)
    (hmem : ∀ c, c ∈ xs ↔ c ∈ space.ids) (huid : uid ∈ space.ids) :
    ∃ ys, ys.Perm xs ∧
      Represents ((space.withPosition uid pos).updateAxis axis
        ((space.object uid).position axis) (pos axis) (.node uid)) ys ∧
      (SortedBy (space.coord axis) xs → SortedBy ((space.withPosition uid pos).coord axis) ys) := by
  have hfuel := length_le_ids h hmem
  obtain ⟨front, back, rfl⟩ := List.append_of_mem ((hmem uid).mpr huid)
  have hnot : uid ∉ front ++ back := (List.nodup_cons.mp (List.nodup_middle.mp h.nodup)).1
  have hkey : (space.withPosition uid pos).coord axis uid = (pos axis).toNat := by
    rw [coord_withPosition, Function.update_self]
  -- the other objects stay where they are
  have hothers : SortedBy (space.coord axis) (front ++ back) →
      SortedBy ((space.withPosition uid pos).coord axis) (front ++ back) := by
    refine fun hsorted => hsorted.congr fun c hc => ?_
    have hne : c ≠ uid := fun heq => hnot (heq ▸ hc)
    rw [coord_withPosition, Function.update_of_ne hne]
  have hold : space.coord axis uid = ((space.object uid).position axis).toNat := rfl
  rcases lt_trichotomy ((space.object uid).position axis).toNat (pos axis).toNat with
    hlt | heq | hgt
  · -- what is in front stays below the object, and the loop looks behind it
    refine ⟨_, ?_, updateAxis_of_lt (space.withPosition uid pos) h hfuel hlt, ?_⟩
    · refine List.perm_middle.trans (List.Perm.trans ?_ List.perm_middle.symm)
      rw [List.append_assoc, List.takeWhile_append_dropWhile]
    · intro hsorted
      obtain ⟨hsorted, hfront, -⟩ := sortedBy_middle.mp hsorted
      have hplace := (hothers hsorted).insert_forward (u := uid) fun a ha => ?_
      · rwa [hkey] at hplace
      · have hne : a ≠ uid := fun heq => hnot (heq ▸ List.mem_append_left back ha)
        rw [hkey, coord_withPosition, Function.update_of_ne hne]
        exact le_trans (hfront a ha) (le_of_lt hlt)
  · refine ⟨front ++ uid :: back, List.Perm.refl _, ?_, fun hsorted => ?_⟩
    · rwa [updateAxis_of_eq heq.symm]
    · refine hsorted.congr fun c hc => ?_
      rw [coord_withPosition, ← heq]
      exact congrFun (Function.update_eq_self uid (space.coord axis)) c
  · -- what is behind stays above the object, and the loop looks in front of it
    refine ⟨_, ?_, updateAxis_of_gt (space.withPosition uid pos) h hfuel hgt, ?_⟩
    · refine List.perm_middle.trans (List.Perm.trans ?_ List.perm_middle.symm)
      rw [← List.append_assoc, List.rdropWhile_append_rtakeWhile]
    · intro hsorted
      obtain ⟨hsorted, -, hback⟩ := sortedBy_middle.mp hsorted
      have hplace := (hothers hsorted).insert_backward (u := uid) fun b hb => ?_
      · rwa [hkey] at hplace
      · have hne : b ≠ uid := fun heq => hnot (heq ▸ List.mem_append_right front hb)
        rw [hkey, coord_withPosition, Function.update_of_ne hne]
        exact le_trans (le_of_lt hgt) (hback b hb)

theorem lmove_of_not_mem (huid : uid ∉ space.ids) : space.lmove uid pos = space := by
  have hnone : space.mapFind uid = none := if_neg huid
  unfold lmove move
  rw [hnone]
  rfl

theorem lenter_of_mem (huid : uid ∈ space.ids) : space.lenter uid pos = space.lmove uid pos := by
  have hsome : space.mapFind uid = some (space.object uid) := if_pos huid
  unfold lenter add
  rw [hsome]
  rfl

theorem lmove_of_mem (pos : Position) (h : space.Linked) (huid : uid ∈ space.ids) :
    (space.lmove uid pos).ids = space.ids ∧
    (space.lmove uid pos).object = (space.withPosition uid pos).object := by
  unfold lmove
  rw [move_of_mem h huid]
  exact ⟨rfl, rfl⟩

/-- A move keeps a sorted list sorted. -/
theorem Sorted.lmove (hsorted : space.Sorted axis) (h : space.Linked) :
    (space.lmove uid pos).Sorted axis := by
  by_cases huid : uid ∈ space.ids
  · obtain ⟨xs, hxs, hmem⟩ := h.lists axis
    obtain ⟨others, hothers, hxsSorted⟩ := hsorted
    rw [hothers.eq hxs] at hxsSorted
    obtain ⟨ys, -, hys, hkeeps⟩ := updateAxis_withPosition pos hxs hmem huid
    unfold AoiSpace.lmove
    rw [move_of_mem h huid]
    exact ⟨ys, hys, hkeeps hxsSorted⟩
  · rwa [lmove_of_not_mem huid]

/-! ## The links -/

theorem Linked.lmove (h : space.Linked) : (space.lmove uid pos).Linked := by
  by_cases huid : uid ∈ space.ids
  · obtain ⟨hids, hobject⟩ := lmove_of_mem pos h huid
    refine ⟨?_, ?_, fun axis => ?_⟩
    · rw [hids]
      exact h.nodup
    · rw [hids, hobject]
      intro c hc axis
      by_cases heq : c = uid
      · subst heq
        simp [withPosition, h.posIter c hc]
      · simp [withPosition, heq, h.posIter c hc]
    · obtain ⟨xs, hxs, hmem⟩ := h.lists axis
      obtain ⟨ys, hperm, hys, -⟩ := updateAxis_withPosition pos hxs hmem huid
      rw [hids]
      refine ⟨ys, ?_, fun c => hperm.mem_iff.trans (hmem c)⟩
      unfold AoiSpace.lmove
      rw [move_of_mem h huid]
      exact hys
  · rwa [lmove_of_not_mem huid]

theorem Linked.lenter (h : space.Linked) : (space.lenter uid pos).Linked := by
  by_cases huid : uid ∈ space.ids
  · rw [lenter_of_mem huid]
    exact h.lmove
  · obtain ⟨hids, -, hobject⟩ := lenter_new pos huid
    refine ⟨?_, ?_, fun axis => ?_⟩
    · rw [hids, ← List.concat_eq_append, List.nodup_concat]
      exact ⟨huid, h.nodup⟩
    · rw [hids, hobject]
      intro c hc axis
      by_cases heq : c = uid
      · rw [heq, Function.update_self]
      · rw [Function.update_of_ne heq]
        have hold : c ∈ space.ids := by simpa [heq] using hc
        exact h.posIter c hold axis
    · obtain ⟨xs, hxs, hmem⟩ := h.lists axis
      obtain ⟨front, back, rfl, -, hnext⟩ := lists_lenter_new pos huid hxs hmem
      rw [hids]
      refine ⟨front ++ uid :: back, hnext, fun c => ?_⟩
      have hc := hmem c
      rw [List.mem_append] at hc
      rw [List.mem_append, List.mem_cons, List.mem_append, List.mem_singleton]
      tauto

theorem Linked.lsetRadius (h : space.Linked) (radius : BitVec 32) :
    (space.lsetRadius radius).Linked where
  nodup := h.nodup
  posIter := h.posIter
  lists := h.lists

/-! ## The objects -/

theorem whereIs_eq (space : AoiSpace Uid) (c : Uid) :
    space.whereIs c = if c ∈ space.ids then some (space.object c).position else none := by
  unfold whereIs mapFind
  split <;> rfl

theorem mem_ids_iff : uid ∈ space.ids ↔ (space.whereIs uid).isSome := by
  rw [whereIs_eq]
  by_cases huid : uid ∈ space.ids <;> simp [huid]

theorem whereIs_lmove (h : space.Linked) :
    (space.lmove uid pos).whereIs =
      if (space.whereIs uid).isSome then Function.update space.whereIs uid (some pos)
      else space.whereIs := by
  by_cases huid : uid ∈ space.ids
  · obtain ⟨hids, hobject⟩ := lmove_of_mem pos h huid
    rw [if_pos (mem_ids_iff.mp huid)]
    funext c
    rw [whereIs_eq, hids, hobject]
    by_cases heq : c = uid
    · subst heq
      simp [withPosition, huid]
    · simp [withPosition, heq, whereIs_eq]
  · rw [lmove_of_not_mem huid, if_neg (mt mem_ids_iff.mpr huid)]

theorem whereIs_lenter (h : space.Linked) :
    (space.lenter uid pos).whereIs = Function.update space.whereIs uid (some pos) := by
  by_cases huid : uid ∈ space.ids
  · rw [lenter_of_mem huid, whereIs_lmove h, if_pos (mem_ids_iff.mp huid)]
  · obtain ⟨hids, -, hobject⟩ := lenter_new pos huid
    funext c
    rw [whereIs_eq, hids, hobject]
    by_cases heq : c = uid
    · simp [heq]
    · simp [heq, whereIs_eq]

end

end AoiSpace

/-! ## Runs -/

inductive AoiEvent (Uid : Type*)
  | enter (uid : Uid) (pos : Position)
  | move (uid : Uid) (pos : Position)
  | setRadius (radius : BitVec 32)

/-- A space, with where each entered object was put last. -/
structure AoiHistory (Uid : Type*) where
  space : AoiSpace Uid
  placed : Uid → Option Position

namespace AoiHistory

open AoiSpace

def init : AoiHistory Uid where
  space := .init
  placed := fun _ => none

def step (h : AoiHistory Uid) : AoiEvent Uid → Option (AoiHistory Uid)
  | .enter uid pos =>
      some ⟨h.space.lenter uid pos, Function.update h.placed uid (some pos)⟩
  | .move uid pos =>
      some ⟨h.space.lmove uid pos,
        if (h.placed uid).isSome then Function.update h.placed uid (some pos) else h.placed⟩
  | .setRadius radius => some { h with space := h.space.lsetRadius radius }

/-- The three lists are sorted by the coordinates that the objects have now, are the same
in both directions, and hold exactly the entered objects, once each. -/
structure InOrder (h : AoiHistory Uid) : Prop where
  placed : h.space.whereIs = h.placed
  lists : ∀ axis, ∃ xs, Represents (h.space.lists axis) xs ∧
    SortedBy (h.space.coord axis) xs ∧ ∀ uid, uid ∈ xs ↔ (h.placed uid).isSome

/-- A step after which the lists are in order. -/
def Keeps (h : AoiHistory Uid) (event : AoiEvent Uid) : Prop :=
  ∀ next, h.step event = some next → next.InOrder

/-- A new object finds its place on every axis. -/
def Careful (h : AoiHistory Uid) : AoiEvent Uid → Prop
  | .enter uid pos =>
      h.placed uid = none → ∀ axis,
        Clear h.space.ids (h.space.coord axis) (h.space.diff axis pos) h.space.radius.toInt
          (pos axis).toNat
  | _ => True

/-- What holds in every run: the space is linked, and its objects are where they were
put. -/
structure Tracks (h : AoiHistory Uid) : Prop where
  linked : h.space.Linked
  placed : h.space.whereIs = h.placed

/-- What holds in careful runs. -/
structure Ordered (h : AoiHistory Uid) : Prop extends h.Tracks where
  sorted : ∀ axis, h.space.Sorted axis

section

variable {h next : AoiHistory Uid} {event : AoiEvent Uid}

theorem tracks_init : (init : AoiHistory Uid).Tracks where
  linked := linked_init
  placed := rfl

/-- In every run the lists can only be wrong about the order. -/
theorem Tracks.inOrder_iff (hh : h.Tracks) : h.InOrder ↔ ∀ axis, h.space.Sorted axis := by
  constructor
  · intro hinOrder axis
    obtain ⟨xs, hxs, hsorted, -⟩ := hinOrder.lists axis
    exact ⟨xs, hxs, hsorted⟩
  · intro hsorted
    refine ⟨hh.placed, fun axis => ?_⟩
    obtain ⟨xs, hxs, hxsSorted⟩ := hsorted axis
    obtain ⟨others, hothers, hmem⟩ := hh.linked.lists axis
    rw [hothers.eq hxs] at hmem
    refine ⟨xs, hxs, hxsSorted, fun uid => ?_⟩
    rw [hmem, mem_ids_iff, hh.placed]

theorem ordered_init : (init : AoiHistory Uid).Ordered := ⟨tracks_init, sorted_init⟩

theorem Tracks.step (hh : h.Tracks) (hstep : h.step event = some next) : next.Tracks := by
  cases event with
  | enter uid pos =>
      cases hstep
      refine ⟨hh.linked.lenter, ?_⟩
      dsimp only
      rw [whereIs_lenter hh.linked, hh.placed]
  | move uid pos =>
      cases hstep
      refine ⟨hh.linked.lmove, ?_⟩
      dsimp only
      rw [whereIs_lmove hh.linked, hh.placed]
  | setRadius radius =>
      cases hstep
      exact ⟨hh.linked.lsetRadius radius, hh.placed⟩

/-- A step keeps the lists in order exactly when it is careful. -/
theorem Ordered.keeps_iff_careful (hh : h.Ordered) (event : AoiEvent Uid) :
    h.Keeps event ↔ h.Careful event := by
  have hkeeps : h.Keeps event ↔
      ∀ next, h.step event = some next → ∀ axis, next.space.Sorted axis :=
    forall₂_congr fun next hstep => (hh.toTracks.step hstep).inOrder_iff
  rw [hkeeps]
  cases event with
  | enter uid pos =>
      have hnext : (∀ next, h.step (.enter uid pos) = some next →
          ∀ axis, next.space.Sorted axis) ↔ ∀ axis, (h.space.lenter uid pos).Sorted axis := by
        constructor
        · exact fun hall axis => hall _ rfl axis
        · rintro hall next hstep
          cases hstep
          exact hall
      rw [hnext]
      by_cases huid : uid ∈ h.space.ids
      · -- `add` refuses the id, and the object is moved
        have hplaced : h.placed uid ≠ none := by
          rw [← hh.placed]
          exact Option.isSome_iff_ne_none.mp (mem_ids_iff.mp huid)
        rw [lenter_of_mem huid]
        constructor
        · exact fun _ hnone => absurd hnone hplaced
        · exact fun _ axis => (hh.sorted axis).lmove hh.linked
      · have hplaced : h.placed uid = none := by
          rw [← hh.placed]
          exact Option.not_isSome_iff_eq_none.mp (mt mem_ids_iff.mpr huid)
        have haxes := forall_congr' fun axis =>
          sorted_lenter_new_iff pos hh.linked (hh.sorted axis) huid
        rw [haxes]
        exact ⟨fun hclear _ => hclear, fun hclear => hclear hplaced⟩
  -- a move walks on from the old place, in the direction of its own difference
  | move uid pos =>
      refine iff_of_true ?_ trivial
      intro next hstep axis
      cases hstep
      exact (hh.sorted axis).lmove hh.linked
  | setRadius radius =>
      refine iff_of_true ?_ trivial
      intro next hstep axis
      cases hstep
      exact hh.sorted axis

theorem Ordered.step (hh : h.Ordered) (hkeeps : h.Keeps event) (hstep : h.step event = some next) :
    next.Ordered :=
  ⟨hh.toTracks.step hstep, (hh.toTracks.step hstep).inOrder_iff.mp (hkeeps next hstep)⟩

end

/-- In every run the lists are the same in both directions and hold exactly the entered
objects, once each. -/
theorem tracks_of_run {events : List (AoiEvent Uid)} {h : AoiHistory Uid}
    (hrun : Run step free init events h) : h.Tracks :=
  hrun.invariant tracks_init fun _ _ _ hh _ hstep => hh.step hstep

/-- Over any sequence of operations: the lists are in order as long as every new object
finds its place, and no longer. -/
theorem run_inOrder_iff (events : List (AoiEvent Uid)) (h : AoiHistory Uid) :
    Run step Keeps init events h ↔ Run step Careful init events h := by
  constructor
  · refine Run.mono_of_invariant ordered_init ?_ ?_
    · intro state event hh hkeeps
      exact (hh.keeps_iff_careful event).mp hkeeps
    · intro state event next hh hkeeps hstep
      exact hh.step hkeeps hstep
  · refine Run.mono_of_invariant ordered_init ?_ ?_
    · intro state event hh hcareful
      exact (hh.keeps_iff_careful event).mpr hcareful
    · intro state event next hh hcareful hstep
      exact hh.step ((hh.keeps_iff_careful event).mpr hcareful) hstep

/-- An object comes in behind the first one, within the radius. -/
def enterTwice : List (AoiEvent Nat) := [.enter 1 fun _ => 20, .enter 2 fun _ => 12]

/-- It is put at the end. -/
theorem not_inOrder_enterTwice :
    ¬ ∀ (events : List (AoiEvent Nat)) (h : AoiHistory Nat),
      Run step free init events h → h.InOrder := by
  intro hall
  have hinOrder := hall enterTwice _ (run_exec_getD init (by decide))
  obtain ⟨xs, hxs, hsorted, -⟩ := hinOrder.lists .x
  have hfirst := hxs.next_head
  cases xs with
  | nil =>
      revert hfirst
      decide
  | cons u rest =>
      have hu : u = 1 := by
        rw [firstNode_cons] at hfirst
        exact (Node.node.inj (Option.some.inj hfirst)).symm
      subst hu
      have hwhole : Represents _ ([] ++ 1 :: rest) := hxs
      have hsecond := hwhole.next
      cases rest with
      | nil =>
          revert hsecond
          decide
      | cons v rest =>
          have hv : v = 2 := by
            rw [firstNode_cons] at hsecond
            exact (Node.node.inj (Option.some.inj hsecond)).symm
          subst hv
          have hle := (List.pairwise_cons.mp hsorted).1 2 List.mem_cons_self
          revert hle
          decide

end AoiHistory

end Aoi
end ArmyRs
