import ArmyRs.Aoi.AoiSpace
import ArmyRs.Foundation.SortedLists

/-!
# The order of the lists

`Placed` says where the loop of `add` puts a new object into a list, and `Clear` when that
is its place (`Placed.clear`, `Clear.placed`).  The loops of `update_obj_pos` always find
the place of the object (`updateAxis_of_lt`, `updateAxis_of_gt`).
-/

namespace ArmyRs
namespace Aoi

open Foundation

variable {Uid : Type*}

namespace AoiSpace

section

variable {link : Node Uid → Option (Node Uid)} {diff : Uid → ℤ} {radius : ℤ} {fuel : ℕ}
  {pos : Option (Node Uid)} {flag : Bool} {ob : Uid}

/-! One round of the loop of `add` -/

theorem scan_tail :
    scan link diff radius (fuel + 1) (some .tail) pos flag = some .tail := rfl

theorem scan_of_beyond (hbeyond : radius < diff ob) :
    scan link diff radius (fuel + 1) (some (.node ob)) pos flag =
      if !flag && 0 < diff ob then some (.node ob) else pos := by
  rw [scan]
  exact if_pos hbeyond

theorem scan_of_le (hwithin : diff ob ≤ radius) :
    scan link diff radius (fuel + 1) (some (.node ob)) pos flag =
      scan link diff radius fuel (link (.node ob))
        (if !flag && 0 < diff ob then some (.node ob) else pos) (flag || 0 < diff ob) := by
  rw [scan]
  exact if_neg (not_lt.mpr hwithin)

end

/-- How `scan` can split a list at the place that it answers with. -/
inductive Placed (diff : Uid → ℤ) (radius : ℤ) : List Uid → List Uid → Prop
  /-- The loop has come to the tail. -/
  | atTail {front : List Uid} (hwithin : ∀ c ∈ front, diff c ≤ radius) : Placed diff radius front []
  /-- It has seen an object ahead, and stopped. -/
  | ahead {front back : List Uid} {u : Uid} (hu : 0 < diff u)
      (hcalm : ∀ c ∈ front, diff c ≤ 0 ∧ diff c ≤ radius)
      (hbeyond : ∃ c ∈ u :: back, radius < diff c) : Placed diff radius front (u :: back)
  /-- It has stopped at an object that is not ahead. -/
  | atHead {calm back : List Uid} {u : Uid} (hu : diff u ≤ 0)
      (hcalm : ∀ c ∈ calm, diff c ≤ 0 ∧ diff c ≤ radius) (hbeyond : radius < diff u) :
      Placed diff radius [] (calm ++ u :: back)

/-- What the coordinates of the objects must be for a new one with coordinate `p` to be
put in its place: none is greater and the loop comes to the tail, or the least greater one
is the first to be seen ahead and the loop stops before the tail, or none is less and the
loop stops with nothing ahead. -/
def Clear (objs : List Uid) (key : Uid → ℕ) (diff : Uid → ℤ) (radius : ℤ) (p : ℕ) : Prop :=
  (∀ c ∈ objs, key c ≤ p ∧ diff c ≤ radius) ∨
  (∃ f ∈ objs, p < key f ∧ 0 < diff f ∧
    (∀ c ∈ objs, key c < key f → key c ≤ p ∧ diff c ≤ 0 ∧ diff c ≤ radius) ∧
    ∃ c ∈ objs, radius < diff c) ∨
  ((∀ c ∈ objs, p ≤ key c) ∧
    ∃ e ∈ objs, radius < diff e ∧ diff e ≤ 0 ∧
      ∀ c ∈ objs, key c < key e → diff c ≤ 0 ∧ diff c ≤ radius)

section

variable {key : Uid → ℕ} {diff : Uid → ℤ} {radius : ℤ} {front back : List Uid} {p : ℕ}

/-- Only the objects themselves matter. -/
theorem Clear.congr {objs others : List Uid} {otherKey : Uid → ℕ} {otherDiff : Uid → ℤ}
    (h : Clear objs key diff radius p) (hmem : ∀ c, c ∈ others ↔ c ∈ objs)
    (hkey : ∀ c ∈ objs, otherKey c = key c) (hdiff : ∀ c ∈ objs, otherDiff c = diff c) :
    Clear others otherKey otherDiff radius p := by
  unfold Clear at h ⊢
  simp only [hmem]
  rcases h with hnone | ⟨f, hf, hp, hahead, hbefore, hbeyond⟩ | ⟨hall, e, he, hlt, hle, hbefore⟩
  · exact .inl fun c hc => by rw [hkey c hc, hdiff c hc]; exact hnone c hc
  · refine .inr (.inl ⟨f, hf, ?_⟩)
    rw [hkey f hf, hdiff f hf]
    refine ⟨hp, hahead, fun c hc => ?_, ?_⟩
    · rw [hkey c hc, hdiff c hc]
      exact hbefore c hc
    · obtain ⟨c, hc, hlt⟩ := hbeyond
      exact ⟨c, hc, by rwa [hdiff c hc]⟩
  · refine .inr (.inr ⟨fun c hc => by rw [hkey c hc]; exact hall c hc, e, he, ?_⟩)
    rw [hkey e he, hdiff e he]
    refine ⟨hlt, hle, fun c hc => ?_⟩
    rw [hkey c hc, hdiff c hc]
    exact hbefore c hc

/-- The place that `scan` finds is right in no other case. -/
theorem Placed.clear (hplaced : Placed diff radius front back) (h : SortedBy key (front ++ back))
    (hzero : ∀ c, key c = p → diff c = 0) (hfront : ∀ a ∈ front, key a ≤ p)
    (hback : ∀ b ∈ back, p ≤ key b) : Clear (front ++ back) key diff radius p := by
  cases hplaced with
  | atTail hwithin =>
      rw [List.append_nil]
      exact .inl fun c hc => ⟨hfront c hc, hwithin c hc⟩
  | @ahead front back u hu hcalm hbeyond =>
      obtain ⟨c, hc, hlt⟩ := hbeyond
      have hne : p ≠ key u := by
        intro heq
        have hnone := hzero u heq.symm
        omega
      refine .inr (.inl ⟨u, by simp, lt_of_le_of_ne (hback u List.mem_cons_self) hne, hu, ?_,
        c, List.mem_append_right front hc, hlt⟩)
      intro a ha hless
      have ha := h.mem_front ha hless
      exact ⟨hfront a ha, hcalm a ha⟩
  | @atHead calm back u hu hcalm hbeyond =>
      refine .inr (.inr ⟨hback, u, by simp, hbeyond, hu, ?_⟩)
      intro a ha hless
      exact hcalm a (h.mem_front ha hless)

/-- And it is right in these cases. -/
theorem Clear.placed (hclear : Clear (front ++ back) key diff radius p)
    (hplaced : Placed diff radius front back) (h : SortedBy key (front ++ back))
    (hkey : ∀ a b, key a = key b → diff a = diff b) :
    (∀ a ∈ front, key a ≤ p) ∧ ∀ b ∈ back, p ≤ key b := by
  cases hplaced with
  | atTail hwithin =>
      rw [List.append_nil] at hclear
      rcases hclear with hnone | ⟨-, -, -, -, -, c, hc, hlt⟩ | ⟨-, c, hc, hlt, -⟩
      · exact ⟨fun a ha => (hnone a ha).1, by simp⟩
      · exact absurd hlt (not_lt.mpr (hwithin c hc))
      · exact absurd hlt (not_lt.mpr (hwithin c hc))
  | @ahead front back u hu hcalm hbeyond =>
      have hmem : u ∈ front ++ u :: back := by simp
      obtain ⟨-, hless, hmore⟩ := sortedBy_middle.mp h
      rcases hclear with hnone | ⟨f, hf, hp, hahead, hbefore, -⟩ | ⟨-, e, he, hlt, hle, hbefore⟩
      · obtain ⟨c, hc, hlt⟩ := hbeyond
        exact absurd hlt (not_lt.mpr (hnone c (List.mem_append_right front hc)).2)
      · -- both are the first object ahead
        have hsame : key f = key u := by
          refine le_antisymm (not_lt.mp fun hlt => ?_) (not_lt.mp fun hlt => ?_)
          · have := (hbefore u hmem hlt).2.1
            omega
          · have := (hcalm f (h.mem_front hf hlt)).1
            omega
        constructor
        · intro a ha
          have hne : key a ≠ key f := by
            intro heq
            have hdiff := hkey a f heq
            have := (hcalm a ha).1
            omega
          have hlt : key a < key f := lt_of_le_of_ne (hsame ▸ hless a ha) hne
          exact (hbefore a (List.mem_append_left _ ha) hlt).1
        · intro b hb
          rcases List.mem_cons.mp hb with rfl | hb
          · omega
          · have := hmore b hb
            omega
      · -- the loop would have stopped at `e`, with nothing marked
        exfalso
        rcases lt_trichotomy (key e) (key u) with hkeys | hkeys | hkeys
        · have := (hcalm e (h.mem_front he hkeys)).2
          omega
        · have := hkey e u hkeys
          omega
        · have := (hbefore u hmem hkeys).1
          omega
  | @atHead calm back u hu hcalm hbeyond =>
      refine ⟨by simp, ?_⟩
      rw [List.nil_append] at hclear h
      have hmem : u ∈ calm ++ u :: back := by simp
      rcases hclear with hnone | ⟨f, hf, -, hahead, hbefore, -⟩ | ⟨hall, -⟩
      · exact absurd hbeyond (not_lt.mpr (hnone u hmem).2)
      · -- `f` would have been marked before the loop came to `u`
        exfalso
        rcases lt_trichotomy (key f) (key u) with hkeys | hkeys | hkeys
        · have := (hcalm f (h.mem_front hf hkeys)).1
          omega
        · have := hkey f u hkeys
          omega
        · have := (hbefore u hmem hkeys).2.2
          omega
      · exact hall

/-- When the differences are those of the coordinates, no object may have a greater
coordinate unless one is beyond the radius. -/
theorem clear_iff_of_diff {objs : List Uid} (hradius : 0 ≤ radius)
    (hdiff : ∀ c ∈ objs, diff c = (key c : ℤ) - p) :
    Clear objs key diff radius p ↔
      (∀ c ∈ objs, key c ≤ p) ∨ ∃ c ∈ objs, (p : ℤ) + radius < key c := by
  constructor
  · rintro (hnone | ⟨-, -, -, -, -, c, hc, hlt⟩ | ⟨-, e, he, hlt, hle, -⟩)
    · exact .inl fun c hc => (hnone c hc).1
    · have hbeyond := hdiff c hc
      exact .inr ⟨c, hc, by omega⟩
    · exact absurd hlt (not_lt.mpr (le_trans hle hradius))
  · rintro (hnone | ⟨c, hc, hlt⟩)
    · refine .inl fun c hc => ⟨hnone c hc, ?_⟩
      have hle := hnone c hc
      have hbehind := hdiff c hc
      omega
    · have hsome : ∃ f, f ∈ objs ∧ p < key f := ⟨c, hc, by omega⟩
      obtain ⟨f, ⟨hf, hp⟩, hmin⟩ := exists_minimalFor_of_wellFoundedLT _ key hsome
      have hahead := hdiff f hf
      have hbeyond := hdiff c hc
      refine .inr (.inl ⟨f, hf, hp, by omega, fun d hd hless => ?_, c, hc, by omega⟩)
      have hle : key d ≤ p := by
        by_contra hnot
        have hge := hmin ⟨hd, not_le.mp hnot⟩ (le_of_lt hless)
        omega
      have hbehind := hdiff d hd
      omega

end

variable [DecidableEq Uid]

/-! ## The loop of `update_obj_pos` -/

section

variable {space : AoiSpace Uid} {l : ObjectList Uid} {xs ys : List Uid} {u : Uid} {axis : Axis}
  {far : Uid → Bool} {oldPos pos : BitVec 32} {fuel : ℕ}

/-- Forwards, the loop goes to the first object that is far enough. -/
theorem seek_next (h : Represents l (xs ++ ys)) (hfuel : ys.length + 1 < fuel) :
    seek l.next (stopsAt far) fuel (some (firstNode ys)) =
      some (firstNode (ys.dropWhile fun c => !far c)) := by
  have hfind : (ys.map Node.node ++ [Node.tail]).find? (stopsAt far) =
      some (firstNode (ys.dropWhile fun c => !far c)) := by
    clear h hfuel
    induction ys with
    | nil => rfl
    | cons y ys ih =>
        rw [List.map_cons, List.cons_append, List.find?_cons, List.dropWhile_cons]
        cases hfar : far y with
        | true => simp [stopsAt, hfar, firstNode_cons]
        | false => simpa [stopsAt, hfar] using ih
  have hnodup := Links.Chained.nodup h
  rw [Links.Chained.next h]
  rw [nodes_append] at hnodup ⊢
  rw [← head?_firstNode, seek_eq_find hnodup (by simpa using hfuel), hfind]

/-- Backwards, to the last one. -/
theorem seek_prev (h : Represents l (xs ++ ys)) (hfuel : xs.length + 1 < fuel) :
    seek l.prev (stopsAt far) fuel (some (lastNode xs)) =
      some (lastNode (xs.rdropWhile fun c => !far c)) := by
  have hfind : (Node.head :: xs.map Node.node).reverse.find? (stopsAt far) =
      some (lastNode (xs.rdropWhile fun c => !far c)) := by
    clear h hfuel
    induction xs using List.reverseRecOn with
    | nil => rfl
    | append_singleton xs x ih =>
        rw [List.rdropWhile_concat]
        cases hfar : far x with
        | true => simp [stopsAt, hfar, lastNode]
        | false => simpa [stopsAt, hfar] using ih
  have hnodup := List.nodup_reverse.mpr (Links.Chained.nodup h)
  have hlast : (Node.head :: xs.map Node.node).reverse.head? = some (lastNode xs) := by
    rw [List.head?_reverse, getLast?_lastNode]
  rw [Links.Chained.prev h]
  rw [nodes_append, List.reverse_append] at hnodup ⊢
  rw [← hlast, seek_eq_find hnodup (by simpa using hfuel), hfind]

/-- Whether the coordinate of an object is less than the given one. -/
def below (space : AoiSpace Uid) (axis : Axis) (p : BitVec 32) (c : Uid) : Bool :=
  space.coord axis c < p.toNat

/-- An object whose coordinate has grown is moved behind those below it. -/
theorem updateAxis_of_lt (space : AoiSpace Uid) (h : Represents (space.lists axis) (xs ++ u :: ys))
    (hfuel : (xs ++ u :: ys).length ≤ space.ids.length) (hlt : oldPos.toNat < pos.toNat) :
    Represents (space.updateAxis axis oldPos pos (.node u))
      (xs ++ ys.takeWhile (space.below axis pos) ++ u :: ys.dropWhile (space.below axis pos)) := by
  have hremoved := h.remove
  have hu : u ∉ xs ++ ys := (List.nodup_cons.mp (List.nodup_middle.mp h.nodup)).1
  have hassoc : xs ++ u :: ys = (xs ++ [u]) ++ ys := by simp
  have hbelow : (fun c => !decide (pos.toNat ≤ space.coord axis c)) =
      space.below axis pos := by
    funext c
    simp only [below, ← decide_not, not_le]
  have hys : ys.takeWhile (space.below axis pos) ++ ys.dropWhile (space.below axis pos) = ys :=
    List.takeWhile_append_dropWhile
  unfold updateAxis
  rw [if_pos hlt, h.next]
  dsimp only
  rw [hassoc] at h hfuel
  rw [seek_next h (by simp at hfuel; omega), hbelow]
  refine Represents.linkBefore ?_ ?_
  · rwa [List.append_assoc, hys]
  · rwa [List.append_assoc, hys]

/-- An object whose coordinate has become less is moved behind the last one below it. -/
theorem updateAxis_of_gt (space : AoiSpace Uid) (h : Represents (space.lists axis) (xs ++ u :: ys))
    (hfuel : (xs ++ u :: ys).length ≤ space.ids.length) (hgt : pos.toNat < oldPos.toNat) :
    Represents (space.updateAxis axis oldPos pos (.node u))
      (xs.rdropWhile (fun c => !space.below axis pos c) ++
        u :: (xs.rtakeWhile (fun c => !space.below axis pos c) ++ ys)) := by
  have hremoved := h.remove
  have hu : u ∉ xs ++ ys := (List.nodup_cons.mp (List.nodup_middle.mp h.nodup)).1
  have hxs : xs.rdropWhile (fun c => !space.below axis pos c) ++
      xs.rtakeWhile (fun c => !space.below axis pos c) = xs := List.rdropWhile_append_rtakeWhile ..
  unfold updateAxis
  rw [if_neg (Nat.lt_asymm hgt), if_pos hgt, h.prev]
  dsimp only
  have hbelow : (fun c => decide (space.coord axis c < pos.toNat)) = space.below axis pos := rfl
  rw [hbelow, seek_prev h (by simp at hfuel; omega)]
  refine Represents.linkAfter ?_ ?_
  · rwa [← List.append_assoc, hxs]
  · rwa [← List.append_assoc, hxs]

theorem updateAxis_of_eq (heq : pos.toNat = oldPos.toNat) (node : Node Uid) :
    space.updateAxis axis oldPos pos node = space.lists axis := by
  unfold updateAxis
  rw [if_neg (by omega), if_neg (by omega)]

end

/-! ## The loop of `add` -/

section

variable {l : ObjectList Uid} {xs front calm rest : List Uid} {diff : Uid → ℤ} {radius : ℤ}
  {fuel : ℕ} {pos : Option (Node Uid)}

/-- Once an object ahead has been seen, the place is kept unless the loop comes to the
tail. -/
theorem scan_flagged (h : Represents l (front ++ rest)) (hfuel : rest.length < fuel) :
    scan l.next diff radius fuel (some (firstNode rest)) pos true =
      if ∃ c ∈ rest, radius < diff c then pos else some .tail := by
  induction rest generalizing front fuel with
  | nil =>
      cases fuel with
      | zero => cases hfuel
      | succ fuel => simp [firstNode_nil, scan_tail]
  | cons c rest ih =>
      cases fuel with
      | zero => cases hfuel
      | succ fuel =>
          have hnext := h.next
          rw [List.append_cons] at h
          have hrest := ih h (Nat.lt_of_succ_lt_succ hfuel)
          rw [firstNode_cons]
          by_cases hbeyond : radius < diff c
          · rw [scan_of_beyond hbeyond]
            simp [hbeyond]
          · rw [scan_of_le (not_lt.mp hbeyond), hnext]
            simpa [hbeyond] using hrest

/-- The loop goes on past what is neither ahead nor beyond the radius. -/
theorem scan_calm (front : List Uid) (h : Represents l (front ++ (calm ++ rest)))
    (hcalm : ∀ c ∈ calm, diff c ≤ 0 ∧ diff c ≤ radius) :
    scan l.next diff radius (calm.length + fuel) (some (firstNode (calm ++ rest))) pos false =
      scan l.next diff radius fuel (some (firstNode rest)) pos false := by
  induction calm generalizing front with
  | nil => simp
  | cons c calm ih =>
      have hnext : l.next (.node c) = some (firstNode (calm ++ rest)) := h.next
      rw [List.cons_append, List.append_cons] at h
      have hrest := ih (front ++ [c]) h fun d hd => hcalm d (List.mem_cons_of_mem c hd)
      have hc := hcalm c List.mem_cons_self
      have hlength : (c :: calm).length + fuel = calm.length + fuel + 1 := by
        rw [List.length_cons]
        omega
      rw [hlength, List.cons_append, firstNode_cons, scan_of_le hc.2, hnext, ← hrest]
      simp [not_lt.mpr hc.1]

/-- What `scan` answers with. -/
theorem scan_placed (diff : Uid → ℤ) (radius : ℤ) (h : Represents l xs) (hfuel : xs.length < fuel) :
    ∃ front back, xs = front ++ back ∧
      scan l.next diff radius fuel (some (firstNode xs)) (some (firstNode xs)) false =
        some (firstNode back) ∧
      Placed diff radius front back := by
  let stirs : Uid → Bool := fun c => decide (0 < diff c ∨ radius < diff c)
  have hcalm : ∀ c, stirs c = false → diff c ≤ 0 ∧ diff c ≤ radius := by
    intro c hc
    have hnot := of_decide_eq_false hc
    exact ⟨not_lt.mp fun hlt => hnot (.inl hlt), not_lt.mp fun hlt => hnot (.inr hlt)⟩
  cases hfind : xs.find? stirs with
  | none =>
      -- the loop passes all objects and comes to the tail
      have hall : ∀ c ∈ xs, diff c ≤ 0 ∧ diff c ≤ radius := fun c hc =>
        hcalm c (Bool.eq_false_iff.mpr (List.find?_eq_none.mp hfind c hc))
      obtain ⟨left, hleft⟩ := Nat.exists_eq_add_of_lt hfuel
      have hwhole : Represents l ([] ++ (xs ++ [])) := by simpa using h
      have hscan : scan l.next diff radius (xs.length + (left + 1)) (some (firstNode (xs ++ [])))
          (some (firstNode xs)) false =
          scan l.next diff radius (left + 1) (some .tail) (some (firstNode xs)) false :=
        scan_calm [] hwhole hall
      refine ⟨xs, [], (List.append_nil xs).symm, ?_, .atTail fun c hc => (hall c hc).2⟩
      rw [List.append_nil, scan_tail] at hscan
      rw [hleft]
      exact hscan
  | some u =>
      -- `u` is the first object that is ahead or beyond the radius
      obtain ⟨hu, calm, back, rfl, hfront⟩ := List.find?_eq_some_iff_append.mp hfind
      have hfront : ∀ c ∈ calm, diff c ≤ 0 ∧ diff c ≤ radius := fun c hc =>
        hcalm c (by simpa using hfront c hc)
      obtain ⟨left, rfl⟩ : ∃ left, fuel = calm.length + (left + 1) := by
        rw [List.length_append, List.length_cons] at hfuel
        exact ⟨fuel - calm.length - 1, by omega⟩
      have hback : back.length < left := by
        rw [List.length_append, List.length_cons] at hfuel
        omega
      rw [scan_calm [] h hfront, firstNode_cons]
      by_cases hahead : 0 < diff u
      · by_cases hbeyond : radius < diff u
        · refine ⟨calm, u :: back, rfl, ?_, .ahead hahead hfront ⟨u, List.mem_cons_self, hbeyond⟩⟩
          rw [scan_of_beyond hbeyond]
          simp [hahead, firstNode_cons]
        · have hnext := Represents.next h
          rw [List.append_cons] at h
          rw [scan_of_le (not_lt.mp hbeyond), hnext]
          have hflagged : scan l.next diff radius left (some (firstNode back)) (some (.node u))
              true = if ∃ c ∈ back, radius < diff c then some (.node u) else some .tail :=
            scan_flagged h hback
          simp only [hahead, decide_true, Bool.not_false, Bool.and_self, if_true, Bool.or_true,
            hflagged]
          by_cases hsome : ∃ c ∈ back, radius < diff c
          · rw [if_pos hsome]
            obtain ⟨c, hc, hlt⟩ := hsome
            exact ⟨calm, u :: back, rfl, rfl,
              .ahead hahead hfront ⟨c, List.mem_cons_of_mem u hc, hlt⟩⟩
          · -- `u` was marked, but the loop goes on to the tail
            rw [if_neg hsome]
            refine ⟨calm ++ u :: back, [], (List.append_nil _).symm, rfl, .atTail fun c hc => ?_⟩
            rcases List.mem_append.mp hc with hc | hc
            · exact (hfront c hc).2
            · rcases List.mem_cons.mp hc with rfl | hc
              · exact not_lt.mp hbeyond
              · exact not_lt.mp fun hlt => hsome ⟨c, hc, hlt⟩
      · -- nothing is marked, so that `pos` still is the first node
        have hbeyond : radius < diff u := (of_decide_eq_true hu).resolve_left hahead
        refine ⟨[], calm ++ u :: back, rfl, ?_, .atHead (not_lt.mp hahead) hfront hbeyond⟩
        rw [scan_of_beyond hbeyond]
        simp [hahead]

end

end AoiSpace

end Aoi
end ArmyRs
