import ArmyRs.Aoi.AoiHistory

/-!
# The objects in sight

`add` and `get_range_list` walk along the lists and collect what is within the radius on
every axis; those whose distance is at most the radius too come into `in_sight_list`.  A
walk breaks at the first object beyond the radius.  In a sorted list it passes nothing over
by that (`filter_visited`), so that `in_sight_list` has exactly the objects within the
radius, once each (`mem_addSight`, `mem_getRangeList`).

The maps `x_m`, `y_m` and `m` that the code collects in are lists of objects here: they
hold each object under its own id, and are not used after the call.
-/

namespace ArmyRs
namespace Aoi

open Foundation

variable {Uid : Type*}

/-- The objects that a loop over a list looks at.  It breaks after the first one at which it
`stops`, or ends at a node without an object. -/
def visited (link : Node Uid → Option (Node Uid)) (stops : Uid → Bool) :
    ℕ → Option (Node Uid) → List Uid
  | fuel + 1, some (.node ob) =>
      ob :: if stops ob then [] else visited link stops fuel (link (.node ob))
  | _, _ => []

/-- `DIST2`. -/
def dist2 (p1 p2 : Position) : BitVec 32 :=
  (p1 .x - p2 .x) * (p1 .x - p2 .x) + (p1 .y - p2 .y) * (p1 .y - p2 .y) +
    (p1 .z - p2 .z) * (p1 .z - p2 .z)

/-- The square of the distance. -/
def sqDist (p q : Position) : ℤ :=
  (((p .x).toNat : ℤ) - (q .x).toNat) ^ 2 + (((p .y).toNat : ℤ) - (q .y).toNat) ^ 2 +
    (((p .z).toNat : ℤ) - (q .z).toNat) ^ 2

section

variable [DecidableEq Uid]

/-- `list_push_head` of `in_sight_list`; a node that the object has there is taken out. -/
def pushHead (sight : List Uid) (ob : Uid) : List Uid := ob :: sight.erase ob

/-- The end of `add` and of `get_range_list`: `in_sight_list`, when these objects are found
within the radius in the lists. -/
def collect (found : Axis → List Uid) (inRange : Uid → Bool) : List Uid :=
  let m0 := found .x
  let m1 := (found .y).filter fun ob => ob ∈ m0
  ((found .z).filter fun ob => decide (ob ∈ m1) && inRange ob).foldl pushHead []

namespace AoiSpace

/-- `radius2`; `aoi_init` and `lset_radius` write it together with `radius`. -/
def radius2 (space : AoiSpace Uid) : BitVec 32 := space.radius * space.radius

/-- `(uint32_t)abs(diff) <= radius`. -/
def near (space : AoiSpace Uid) (axis : Axis) (pos : Position) (ob : Uid) : Bool :=
  (space.diff axis pos ob).natAbs ≤ space.radius.toNat

/-- What the loop of `add` over the list of an axis finds near. -/
def addFound (space : AoiSpace Uid) (pos : Position) (axis : Axis) : List Uid :=
  let l := space.lists axis
  let stops ob := decide (space.radius.toInt < space.diff axis pos ob)
  (visited l.next stops (space.ids.length + 1) (l.next .head)).filter (space.near axis pos)

/-- `in_sight_list` after the loops of `add`. -/
def addSight (space : AoiSpace Uid) (pos : Position) : List Uid :=
  collect (space.addFound pos) fun ob => dist2 (space.object ob).position pos ≤ space.radius2

/-- The difference of the coordinates, the other way around. -/
def diffBack (space : AoiSpace Uid) (axis : Axis) (pos : Position) (ob : Uid) : ℤ :=
  (pos axis - (space.object ob).position axis).toInt

/-- What the two loops of `get_range_list` over the list of an axis find: ahead of the node,
and then behind it.  They break at the first object that is not within the radius. -/
def rangeFound (space : AoiSpace Uid) (pos : Position) (axis : Axis) (node : Node Uid) : List Uid :=
  let ahead ob := decide (space.diff axis pos ob ≤ space.radius.toInt)
  let behind ob := decide (space.diffBack axis pos ob ≤ space.radius.toInt)
  let l := space.lists axis
  (visited l.next (fun ob => !ahead ob) (space.ids.length + 1) (l.next node)).filter ahead ++
    (visited l.prev (fun ob => !behind ob) (space.ids.length + 1) (l.prev node)).filter behind

/-- `in_sight_list` after `get_range_list`; an object that is not in all lists sees
nothing. -/
def getRangeList (space : AoiSpace Uid) (uid : Uid) : List Uid :=
  let obj := space.object uid
  if obj.posIter .x = none ∨ obj.posIter .y = none ∨ obj.posIter .z = none then []
  else
    let found axis :=
      match obj.posIter axis with
      | some node => space.rangeFound obj.position axis node
      | none => []
    collect found fun ob => dist2 (space.object ob).position obj.position ≤ space.radius2

end AoiSpace

end

/-! ## A walk along a list -/

/-- From `start` the links lead along these objects, to a node without an object. -/
def Leads (link : Node Uid → Option (Node Uid)) : Option (Node Uid) → List Uid → Prop
  | start, [] => ∀ u, start ≠ some (.node u)
  | start, u :: ys => start = some (.node u) ∧ Leads link (link (.node u)) ys

section

variable {link : Node Uid → Option (Node Uid)} {stops keep : Uid → Bool} {xs ys : List Uid}
  {start : Option (Node Uid)} {fuel : ℕ}

/-- A walk misses nothing that matters when nothing does behind the object where it
stops. -/
theorem filter_visited (h : Leads link start ys) (hfuel : ys.length < fuel)
    (hstops : ys.Pairwise fun a b => stops a = true → keep b = false) :
    (visited link stops fuel start).filter keep = ys.filter keep := by
  induction ys generalizing start fuel with
  | nil =>
      cases fuel with
      | zero => cases hfuel
      | succ fuel =>
          cases start with
          | none => rfl
          | some n =>
              cases n with
              | node u => exact absurd rfl (h u)
              | head => rfl
              | tail => rfl
  | cons u ys ih =>
      obtain ⟨rfl, hrest⟩ := h
      obtain ⟨hu, hys⟩ := List.pairwise_cons.mp hstops
      cases fuel with
      | zero => cases hfuel
      | succ fuel =>
          rw [visited, List.filter_cons, List.filter_cons]
          cases hstop : stops u with
          -- the walk stops here, and behind it nothing is kept
          | true =>
              have hnone : ys.filter keep = [] := by
                rw [List.filter_eq_nil_iff]
                intro b hb
                simp [hu b hb hstop]
              rw [hnone]
              rfl
          | false =>
              have hlen : ys.length < fuel := Nat.lt_of_succ_lt_succ hfuel
              have hwalk := ih hrest hlen hys
              simp [hwalk]

variable [DecidableEq Uid] {l : ObjectList Uid}

theorem Represents.leads_next (h : Represents l (xs ++ ys)) :
    Leads l.next (some (firstNode ys)) ys := by
  induction ys generalizing xs with
  | nil =>
      intro u heq
      cases heq
  | cons u ys ih =>
      refine ⟨rfl, ?_⟩
      have hassoc : xs ++ u :: ys = (xs ++ [u]) ++ ys := by simp
      have hnext := h.next
      rw [hassoc] at h
      rw [hnext]
      exact ih h

theorem Represents.leads_prev (h : Represents l (xs ++ ys)) :
    Leads l.prev (some (lastNode xs)) xs.reverse := by
  induction xs using List.reverseRecOn generalizing ys with
  | nil =>
      intro u heq
      cases heq
  | append_singleton xs u ih =>
      have hassoc : xs ++ [u] ++ ys = xs ++ u :: ys := by simp
      rw [hassoc] at h
      rw [List.reverse_append]
      refine ⟨by simp [lastNode], ?_⟩
      rw [h.prev]
      exact ih h

/-- Different objects that are pushed to the head one after the other are all there. -/
theorem foldl_pushHead (hnodup : ys.Nodup) : ys.foldl pushHead [] = ys.reverse := by
  induction ys using List.reverseRecOn with
  | nil => rfl
  | append_singleton ys u ih =>
      rw [← List.concat_eq_append, List.nodup_concat] at hnodup
      rw [List.foldl_append, ih hnodup.2, List.reverse_append]
      have hnot : u ∉ ys.reverse := mt List.mem_reverse.mp hnodup.1
      simp [pushHead, List.erase_of_not_mem hnot]

/-- What is found in all three lists and in range is in sight, once. -/
theorem mem_collect {found : Axis → List Uid} {inRange : Uid → Bool}
    (hnodup : ∀ axis, (found axis).Nodup) :
    (collect found inRange).Nodup ∧
      ∀ c, c ∈ collect found inRange ↔ (∀ axis, c ∈ found axis) ∧ inRange c = true := by
  unfold collect
  dsimp only
  have hsight := (hnodup .z).filter fun ob =>
    decide (ob ∈ (found .y).filter fun ob => ob ∈ found .x) && inRange ob
  rw [foldl_pushHead hsight]
  refine ⟨List.nodup_reverse.mpr hsight, fun c => ?_⟩
  have haxes : (∀ axis, c ∈ found axis) ↔ c ∈ found .x ∧ c ∈ found .y ∧ c ∈ found .z := by
    constructor
    · exact fun h => ⟨h .x, h .y, h .z⟩
    · rintro ⟨hx, hy, hz⟩ axis
      cases axis <;> assumption
  rw [haxes]
  simp only [List.mem_reverse, List.mem_filter, Bool.and_eq_true, decide_eq_true_eq]
  tauto

end

/-! ## The distance -/

section

variable {p q : Position} {r a b : BitVec 32}

theorem sub_of_le (h : b.toNat ≤ a.toNat) : a - b = BitVec.ofNat 32 (a.toNat - b.toNat) := by
  rw [← BitVec.ofNat_sub_ofNat_of_le a.toNat b.toNat b.isLt h, BitVec.ofNat_toNat,
    BitVec.ofNat_toNat, BitVec.setWidth_eq, BitVec.setWidth_eq]

/-- The square of a difference does not depend on its sign. -/
theorem sub_mul_sub (a b : BitVec 32) :
    (a - b) * (a - b) = BitVec.ofNat 32 (((a.toNat : ℤ) - b.toNat).natAbs ^ 2) := by
  rcases le_total b.toNat a.toNat with hle | hle
  · have habs : ((a.toNat : ℤ) - b.toNat).natAbs = a.toNat - b.toNat := by omega
    rw [habs, sub_of_le hle, sq, BitVec.ofNat_mul]
  · have habs : ((a.toNat : ℤ) - b.toNat).natAbs = b.toNat - a.toNat := by omega
    have hneg : -(a - b) = b - a := by
      rw [BitVec.neg_sub, BitVec.add_comm, ← BitVec.sub_eq_add_neg]
    rw [habs, ← BitVec.neg_mul_neg, hneg, sub_of_le hle, sq, BitVec.ofNat_mul]

/-- Nothing overflows when the coordinates are within the radius. -/
theorem dist2_le_iff (hnear : ∀ axis, |((p axis).toNat : ℤ) - (q axis).toNat| ≤ r.toNat)
    (hr : 3 * r.toNat ^ 2 < 2 ^ 32) : dist2 p q ≤ r * r ↔ sqDist p q ≤ (r.toNat : ℤ) ^ 2 := by
  have hle : ∀ axis, (((p axis).toNat : ℤ) - (q axis).toNat).natAbs ^ 2 ≤ r.toNat ^ 2 := by
    intro axis
    have h := abs_le.mp (hnear axis)
    exact Nat.pow_le_pow_left (by omega) 2
  have hx := hle .x
  have hy := hle .y
  have hz := hle .z
  have hsum : (dist2 p q).toNat = (((p .x).toNat : ℤ) - (q .x).toNat).natAbs ^ 2 +
      (((p .y).toNat : ℤ) - (q .y).toNat).natAbs ^ 2 +
      (((p .z).toNat : ℤ) - (q .z).toNat).natAbs ^ 2 := by
    rw [dist2, sub_mul_sub, sub_mul_sub, sub_mul_sub, ← BitVec.ofNat_add, ← BitVec.ofNat_add,
      BitVec.toNat_ofNat]
    exact Nat.mod_eq_of_lt (by omega)
  have hsquare : (r * r).toNat = r.toNat ^ 2 := by
    rw [BitVec.toNat_mul, ← sq]
    exact Nat.mod_eq_of_lt (by omega)
  rw [BitVec.le_def, hsum, hsquare, sqDist, ← Int.natAbs_sq,
    ← Int.natAbs_sq (_ - ((q .y).toNat : ℤ)), ← Int.natAbs_sq (_ - ((q .z).toNat : ℤ))]
  norm_cast

/-- No coordinate differs by more than the distance. -/
theorem abs_sub_le_of_sqDist {n : ℕ} (h : sqDist p q ≤ (n : ℤ) ^ 2) (axis : Axis) :
    |((p axis).toNat : ℤ) - (q axis).toNat| ≤ n := by
  have hx := sq_nonneg (((p .x).toNat : ℤ) - (q .x).toNat)
  have hy := sq_nonneg (((p .y).toNat : ℤ) - (q .y).toNat)
  have hz := sq_nonneg (((p .z).toNat : ℤ) - (q .z).toNat)
  unfold sqDist at h
  refine abs_le_of_sq_le_sq ?_ (Int.natCast_nonneg n)
  cases axis <;> linarith

end

/-! ## What comes into sight -/

namespace AoiSpace

/-- Every list is sorted and holds these objects, which the map knows. -/
structure Laid [DecidableEq Uid] (space : AoiSpace Uid) (objs : List Uid) : Prop where
  lists : ∀ axis, ∃ xs, Represents (space.lists axis) xs ∧ SortedBy (space.coord axis) xs ∧
    ∀ c, c ∈ xs ↔ c ∈ objs
  known : ∀ c ∈ objs, c ∈ space.ids

/-- The coordinate of an object is at most the radius away. -/
def Within (space : AoiSpace Uid) (axis : Axis) (pos : Position) (c : Uid) : Prop :=
  |(space.coord axis c : ℤ) - (pos axis).toNat| ≤ space.radius.toNat

/-- The coordinates of the objects differ from those of a position by less than 2^31. -/
def Close (space : AoiSpace Uid) (objs : List Uid) (pos : Position) : Prop :=
  ∀ c ∈ objs, ∀ axis, |(space.coord axis c : ℤ) - (pos axis).toNat| < 2 ^ 31

section

variable {space : AoiSpace Uid} {objs : List Uid} {axis : Axis} {pos : Position} {c u : Uid}

theorem toInt_radius (hradius : 3 * space.radius.toNat ^ 2 < 2 ^ 32) :
    space.radius.toInt = space.radius.toNat := by
  have hsmall : space.radius.toNat < 2 ^ 31 := by nlinarith
  exact BitVec.toInt_eq_toNat_of_lt (by omega)

theorem diffBack_eq (hclose : |(space.coord axis c : ℤ) - (pos axis).toNat| < 2 ^ 31) :
    space.diffBack axis pos c = (pos axis).toNat - space.coord axis c := by
  have hlt := abs_lt.mp hclose
  have hold := ((space.object c).position axis).isLt
  have hp := (pos axis).isLt
  rw [coord] at hlt ⊢
  rw [diffBack, BitVec.toInt_eq_toNat_cond, BitVec.toNat_sub]
  split <;> omega

theorem near_iff (hclose : |(space.coord axis c : ℤ) - (pos axis).toNat| < 2 ^ 31) :
    space.near axis pos c = true ↔ space.Within axis pos c := by
  rw [near, decide_eq_true_eq, diff_eq hclose, Within, abs_le]
  omega

/-- The distance of an object is compared rightly when it is found in all lists. -/
theorem within_and_dist2_iff (hradius : 3 * space.radius.toNat ^ 2 < 2 ^ 32) :
    (∀ axis, space.Within axis pos c) ∧ dist2 (space.object c).position pos ≤ space.radius2 ↔
      sqDist (space.object c).position pos ≤ (space.radius.toNat : ℤ) ^ 2 := by
  constructor
  · rintro ⟨hwithin, hdist⟩
    exact (dist2_le_iff hwithin hradius).mp hdist
  · intro hdist
    have hwithin := abs_sub_le_of_sqDist hdist
    exact ⟨hwithin, (dist2_le_iff hwithin hradius).mpr hdist⟩

end

section

variable [DecidableEq Uid] {space : AoiSpace Uid} {objs : List Uid} {axis : Axis}
  {pos : Position} {c u : Uid}

/-- When the lists find those of the objects that are within the radius, `in_sight_list` has
those whose distance is. -/
theorem mem_collect_iff {found : Axis → List Uid} (seen : Uid → Prop)
    (hradius : 3 * space.radius.toNat ^ 2 < 2 ^ 32) (hnodup : ∀ axis, (found axis).Nodup)
    (hfound : ∀ axis c, c ∈ found axis ↔ seen c ∧ space.Within axis pos c) :
    let sight := collect found fun ob => dist2 (space.object ob).position pos ≤ space.radius2
    sight.Nodup ∧ ∀ c, c ∈ sight ↔
      seen c ∧ sqDist (space.object c).position pos ≤ (space.radius.toNat : ℤ) ^ 2 := by
  obtain ⟨hsight, hmem⟩ := @mem_collect Uid _ found
    (fun ob => dist2 (space.object ob).position pos ≤ space.radius2) hnodup
  refine ⟨hsight, fun c => (hmem c).trans ?_⟩
  rw [← within_and_dist2_iff hradius, decide_eq_true_eq]
  constructor
  · rintro ⟨hall, hdist⟩
    have hin := fun axis => (hfound axis c).mp (hall axis)
    exact ⟨(hin .x).1, fun axis => (hin axis).2, hdist⟩
  · rintro ⟨hc, hall, hdist⟩
    exact ⟨fun axis => (hfound axis c).mpr ⟨hc, hall axis⟩, hdist⟩

theorem Laid.length_le (h : space.Laid objs) {xs : List Uid} (hxs : Represents (space.lists axis) xs)
    (hmem : ∀ c, c ∈ xs ↔ c ∈ objs) : xs.length ≤ space.ids.length :=
  (List.subperm_of_subset hxs.nodup fun c hc => h.known c ((hmem c).mp hc)).length_le

/-- The loop of `add` passes over nothing that is near. -/
theorem mem_addFound (h : space.Laid objs) (hradius : 3 * space.radius.toNat ^ 2 < 2 ^ 32)
    (hclose : space.Close objs pos) (axis : Axis) :
    (space.addFound pos axis).Nodup ∧
      ∀ c, c ∈ space.addFound pos axis ↔ c ∈ objs ∧ space.Within axis pos c := by
  obtain ⟨xs, hxs, hsorted, hmem⟩ := h.lists axis
  have hlen := h.length_le hxs hmem
  have hwhole : Represents (space.lists axis) ([] ++ xs) := hxs
  have hfound : space.addFound pos axis = xs.filter (space.near axis pos) := by
    unfold addFound
    dsimp only
    rw [hxs.next_head]
    refine filter_visited hwhole.leads_next (by omega) (hsorted.imp_of_mem fun {a b} ha hb hle hstop => ?_)
    -- what is behind an object beyond the radius is beyond it too
    have hcloseA := hclose a ((hmem a).mp ha) axis
    have hcloseB := hclose b ((hmem b).mp hb) axis
    rw [decide_eq_true_eq, toInt_radius hradius, diff_eq hcloseA] at hstop
    rw [← Bool.not_eq_true, near_iff hcloseB, Within, abs_le]
    omega
  rw [hfound]
  refine ⟨hxs.nodup.filter _, fun c => ?_⟩
  rw [List.mem_filter, hmem]
  exact and_congr_right fun hc => near_iff (hclose c hc axis)

/-- `add` finds what is within the radius, once each. -/
theorem mem_addSight (h : space.Laid objs) (hradius : 3 * space.radius.toNat ^ 2 < 2 ^ 32)
    (hclose : space.Close objs pos) :
    (space.addSight pos).Nodup ∧ ∀ c, c ∈ space.addSight pos ↔
      c ∈ objs ∧ sqDist (space.object c).position pos ≤ (space.radius.toNat : ℤ) ^ 2 := by
  have hfound := mem_addFound h hradius hclose
  exact mem_collect_iff (· ∈ objs) hradius (fun axis => (hfound axis).1)
    fun axis => (hfound axis).2

/-- The loops of `get_range_list` pass over nothing where the differences do not get less on
the way from the node. -/
theorem rangeFound_eq {xs ys : List Uid} (h : Represents (space.lists axis) (xs ++ u :: ys))
    (hlen : (xs ++ u :: ys).length ≤ space.ids.length)
    (hback : ys.Pairwise fun a b => space.diff axis pos a ≤ space.diff axis pos b)
    (hfront : xs.Pairwise fun a b => space.diffBack axis pos b ≤ space.diffBack axis pos a) :
    space.rangeFound pos axis (.node u) =
      ys.filter (fun ob => space.diff axis pos ob ≤ space.radius.toInt) ++
        xs.reverse.filter fun ob => space.diffBack axis pos ob ≤ space.radius.toInt := by
  have hassoc : xs ++ u :: ys = (xs ++ [u]) ++ ys := by simp
  have hbehind : Represents (space.lists axis) ((xs ++ [u]) ++ ys) := hassoc ▸ h
  rw [List.length_append, List.length_cons] at hlen
  unfold rangeFound
  dsimp only
  rw [h.next, h.prev]
  congr 1
  · refine filter_visited hbehind.leads_next (by omega) (hback.imp fun {a b} hle hstop => ?_)
    rw [Bool.not_eq_true', decide_eq_false_iff_not] at hstop
    rw [decide_eq_false_iff_not]
    omega
  · refine filter_visited h.leads_prev (by rw [List.length_reverse]; omega)
      (List.pairwise_reverse.mpr (hfront.imp fun {a b} hle hstop => ?_))
    rw [Bool.not_eq_true', decide_eq_false_iff_not] at hstop
    rw [decide_eq_false_iff_not]
    omega

/-- They find what is within the radius on both sides of the node. -/
theorem mem_rangeFound (h : space.Laid objs) (hradius : 3 * space.radius.toNat ^ 2 < 2 ^ 32)
    (hu : u ∈ objs) (hclose : space.Close objs (space.object u).position) (axis : Axis) :
    (space.rangeFound (space.object u).position axis (.node u)).Nodup ∧
      ∀ c, c ∈ space.rangeFound (space.object u).position axis (.node u) ↔
        (c ∈ objs ∧ c ≠ u) ∧ space.Within axis (space.object u).position c := by
  obtain ⟨zs, hzs, hsorted, hmem⟩ := h.lists axis
  have hlen := h.length_le hzs hmem
  obtain ⟨xs, ys, rfl⟩ := List.append_of_mem ((hmem u).mpr hu)
  obtain ⟨hothers, hfront, hback⟩ := sortedBy_middle.mp hsorted
  obtain ⟨hxs, hys, -⟩ := List.pairwise_append.mp hothers
  have hcoord : space.coord axis u = ((space.object u).position axis).toNat := rfl
  -- the differences are those of the coordinates
  have hmemFront : ∀ c ∈ xs, c ∈ objs := fun c hc => (hmem c).mp (List.mem_append_left _ hc)
  have hmemBack : ∀ c ∈ ys, c ∈ objs := fun c hc => (hmem c).mp (by simp [hc])
  have hahead : ∀ c ∈ ys,
      space.diff axis (space.object u).position c = space.coord axis c - space.coord axis u :=
    fun c hc => diff_eq (hclose c (hmemBack c hc) axis)
  have hbehind : ∀ c ∈ xs,
      space.diffBack axis (space.object u).position c = space.coord axis u - space.coord axis c :=
    fun c hc => diffBack_eq (hclose c (hmemFront c hc) axis)
  have hsortedBack : ys.Pairwise fun a b =>
      space.diff axis (space.object u).position a ≤ space.diff axis (space.object u).position b :=
    hys.imp_of_mem fun ha hb hle => by
      rw [hahead _ ha, hahead _ hb]
      omega
  have hsortedFront : xs.Pairwise fun a b =>
      space.diffBack axis (space.object u).position b ≤
        space.diffBack axis (space.object u).position a :=
    hxs.imp_of_mem fun ha hb hle => by
      rw [hbehind _ ha, hbehind _ hb]
      omega
  rw [rangeFound_eq hzs hlen hsortedBack hsortedFront, toInt_radius hradius]
  obtain ⟨hnot, hnodup⟩ := List.nodup_cons.mp (List.nodup_middle.mp hzs.nodup)
  constructor
  · have hboth : (ys ++ xs.reverse).Nodup := by
      rw [List.nodup_append_comm]
      exact ((List.reverse_perm xs).append_right ys).nodup_iff.mpr hnodup
    exact hboth.sublist (List.filter_sublist.append List.filter_sublist)
  · intro c
    rw [List.mem_append, List.mem_filter, List.mem_filter, List.mem_reverse, ← hmem c,
      decide_eq_true_eq, decide_eq_true_eq, Within, ← hcoord, abs_le]
    constructor
    · rintro (⟨hc, hle⟩ | ⟨hc, hle⟩)
      · have hge := hback c hc
        rw [hahead c hc] at hle
        refine ⟨⟨by simp [hc], ?_⟩, by omega⟩
        rintro rfl
        exact hnot (List.mem_append_right xs hc)
      · have hge := hfront c hc
        rw [hbehind c hc] at hle
        refine ⟨⟨by simp [hc], ?_⟩, by omega⟩
        rintro rfl
        exact hnot (List.mem_append_left ys hc)
    · rintro ⟨⟨hc, hne⟩, hwithin⟩
      rcases List.mem_append.mp hc with hc | hc
      · refine .inr ⟨hc, ?_⟩
        rw [hbehind c hc]
        omega
      · refine .inl ⟨List.mem_of_ne_of_mem hne hc, ?_⟩
        rw [hahead c (List.mem_of_ne_of_mem hne hc)]
        omega

/-- `get_range_list` finds what is within the radius of an object, once each. -/
theorem mem_getRangeList (h : space.Laid objs) (hradius : 3 * space.radius.toNat ^ 2 < 2 ^ 32)
    (hu : u ∈ objs) (hclose : space.Close objs (space.object u).position)
    (hiter : ∀ axis, (space.object u).posIter axis = some (.node u)) :
    (space.getRangeList u).Nodup ∧ ∀ c, c ∈ space.getRangeList u ↔ (c ∈ objs ∧ c ≠ u) ∧
      sqDist (space.object c).position (space.object u).position ≤
        (space.radius.toNat : ℤ) ^ 2 := by
  have hfound := mem_rangeFound h hradius hu hclose
  have heq : space.getRangeList u =
      collect (fun axis => space.rangeFound (space.object u).position axis (.node u))
        fun ob => dist2 (space.object ob).position (space.object u).position ≤ space.radius2 := by
    unfold getRangeList
    simp [hiter]
  rw [heq]
  exact mem_collect_iff (fun c => c ∈ objs ∧ c ≠ u) hradius (fun axis => (hfound axis).1)
    fun axis => (hfound axis).2

/-- An object that is in no list sees nothing. -/
theorem getRangeList_of_apart (hapart : ∀ axis, (space.object u).posIter axis = none) :
    space.getRangeList u = [] := by
  unfold getRangeList
  exact if_pos (.inl (hapart .x))

theorem Linked.laid (h : space.Linked) (hsorted : ∀ axis, space.Sorted axis) :
    space.Laid space.ids where
  lists := by
    intro axis
    obtain ⟨xs, hxs, hxsSorted⟩ := hsorted axis
    obtain ⟨others, hothers, hmem⟩ := h.lists axis
    exact ⟨xs, hxs, hxsSorted, hxs.eq hothers ▸ hmem⟩
  known := fun _ hc => hc

/-- A new object is in no list before it is inserted. -/
theorem Laid.newObject (h : space.Laid space.ids) (hu : u ∉ space.ids) (pos : Position) :
    (space.newObject u pos).Laid space.ids where
  lists := by
    intro axis
    obtain ⟨xs, hxs, hsorted, hmem⟩ := h.lists axis
    refine ⟨xs, hxs, hsorted.congr fun c hc => ?_, hmem⟩
    have hne : c ≠ u := fun heq => hu (heq ▸ (hmem c).mp hc)
    rw [coord_newObject, Function.update_of_ne hne]
  known := fun c hc => List.mem_append_left [u] hc

end

end AoiSpace

end Aoi
end ArmyRs
