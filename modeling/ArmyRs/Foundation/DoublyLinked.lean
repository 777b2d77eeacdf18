import ArmyRs.Foundation.LinkedLists

/-!
# Doubly linked lists

`Links` is what the fields `next` and `prev` of all nodes are, and the operations write
single fields of it.  `Chained` says that the links are those of a list of nodes, in both
directions; it has one lemma for each operation.  What holds in one direction holds in
the other, since the links can be turned around (`flip`).

`seek` is a loop that follows the links until a node stops it.
-/

namespace ArmyRs
namespace Foundation

/-- The links of all nodes; a missing one is `none`. -/
structure Links (α : Type*) where
  next : α → Option α
  prev : α → Option α

namespace Links

variable {α : Type*} [DecidableEq α]

/-- The same links, the other way around. -/
def flip (l : Links α) : Links α := ⟨l.prev, l.next⟩

/-- Writes the link of a node, if there is one to write to. -/
def setNext (l : Links α) (node value : Option α) : Links α :=
  match node with
  | some node => { l with next := Function.update l.next node value }
  | none => l

def setPrev (l : Links α) (node value : Option α) : Links α :=
  match node with
  | some node => { l with prev := Function.update l.prev node value }
  | none => l

/-- The neighbours of `t` are linked to each other, and `t` to nothing. -/
def unlink (l : Links α) (t : α) : Links α :=
  (((l.setPrev (l.next t) (l.prev t)).setNext (l.prev t) (l.next t)).setNext (some t) none).setPrev
    (some t) none

/-- Puts `t` in front of `n`. -/
def linkBefore (l : Links α) (t n : α) : Links α :=
  (((l.setNext (l.prev n) (some t)).setPrev (some t) (l.prev n)).setNext (some t) (some n)).setPrev
    (some n) (some t)

/-- Puts `t` behind `p`. -/
def linkAfter (l : Links α) (t p : α) : Links α :=
  (((l.setPrev (l.next p) (some t)).setNext (some t) (l.next p)).setPrev (some t) (some p)).setNext
    (some p) (some t)

/-- The links are those of a list of nodes. -/
structure Chained (l : Links α) (nodes : List α) : Prop where
  nodup : nodes.Nodup
  next : l.next = nextIn nodes
  prev : l.prev = nextIn nodes.reverse

section

variable {l : Links α} {nodes others xs ys : List α} {t n p : α}

theorem flip_unlink (l : Links α) (t : α) : (l.unlink t).flip = l.flip.unlink t := by
  unfold unlink
  cases hnext : l.next t <;> cases hprev : l.prev t <;>
    simp only [flip, hnext, hprev] <;> rfl

theorem flip_linkBefore (l : Links α) (t n : α) :
    (l.linkBefore t n).flip = l.flip.linkAfter t n := by
  unfold linkBefore linkAfter
  cases hprev : l.prev n <;> simp only [flip, hprev] <;> rfl

theorem chained_flip_iff : l.flip.Chained nodes.reverse ↔ l.Chained nodes := by
  constructor
  · intro h
    refine ⟨List.nodup_reverse.mp h.nodup, ?_, h.next⟩
    have hprev : l.next = nextIn nodes.reverse.reverse := h.prev
    rwa [List.reverse_reverse] at hprev
  · intro h
    refine ⟨List.nodup_reverse.mpr h.nodup, h.prev, ?_⟩
    rw [List.reverse_reverse]
    exact h.next

/-- The links of two lists with the same first node are those of one list only. -/
theorem Chained.eq (h : l.Chained nodes) (hothers : l.Chained others)
    (hhead : nodes.head? = others.head?) : nodes = others :=
  eq_of_nextIn h.nodup hothers.nodup hhead (h.next.symm.trans hothers.next)

/-- The node before a given one. -/
theorem Chained.prev_middle (h : l.Chained (xs ++ n :: ys)) : l.prev n = xs.getLast? := by
  have hnodup := List.nodup_reverse.mpr h.nodup
  have hreverse : (xs ++ n :: ys).reverse = ys.reverse ++ n :: xs.reverse := by simp
  rw [hreverse] at hnodup
  rw [h.prev, hreverse, nextIn_middle hnodup, List.head?_reverse]

theorem Chained.next_middle (h : l.Chained (xs ++ n :: ys)) : l.next n = ys.head? := by
  rw [h.next, nextIn_middle h.nodup]

/-- What is not in the list has no links, so that there is nothing to clear. -/
theorem Chained.clear (h : l.Chained nodes) (ht : t ∉ nodes) :
    (l.setNext (some t) none).setPrev (some t) none = l := by
  have hnext : l.next t = none := by rw [h.next, nextIn_of_not_mem ht]
  have hprev : l.prev t = none := by
    rw [h.prev, nextIn_of_not_mem (mt List.mem_reverse.mp ht)]
  obtain ⟨next, prev⟩ := l
  simp only [setNext, setPrev, mk.injEq]
  exact ⟨Function.update_eq_self_iff.mpr hnext.symm, Function.update_eq_self_iff.mpr hprev.symm⟩

theorem Chained.unlink_of_not_mem (h : l.Chained nodes) (ht : t ∉ nodes) : l.unlink t = l := by
  have hnext : l.next t = none := by rw [h.next, nextIn_of_not_mem ht]
  have hprev : l.prev t = none := by
    rw [h.prev, nextIn_of_not_mem (mt List.mem_reverse.mp ht)]
  unfold Links.unlink
  rw [hnext, hprev]
  exact h.clear ht

/-! What the operations do to the links in one direction -/

theorem Chained.unlink_next (h : l.Chained (xs ++ t :: ys)) :
    (l.unlink t).next = nextIn (xs ++ ys) := by
  have hprev := h.prev_middle
  have hnext := h.next_middle
  have hfields : (l.unlink t).next =
      Function.update (l.setNext (l.prev t) (l.next t)).next t none := by
    unfold unlink
    cases hat : l.next t <;> cases hbt : l.prev t <;> rfl
  rw [hfields, hprev, hnext]
  rcases List.eq_nil_or_concat' xs with rfl | ⟨front, p, rfl⟩
  · have ht : t ∉ ys := (List.nodup_cons.mp h.nodup).1
    show Function.update l.next t none = _
    rw [h.next, List.nil_append, List.nil_append, ← nextIn_tail ht]
  · rw [List.getLast?_concat]
    show Function.update (Function.update l.next p ys.head?) t none = _
    rw [h.next, nextIn_remove h.nodup]

theorem Chained.linkBefore_next (h : l.Chained (xs ++ n :: ys)) (ht : t ∉ xs ++ n :: ys) :
    (l.linkBefore t n).next = nextIn (xs ++ t :: n :: ys) := by
  have hprev := h.prev_middle
  have hfields : (l.linkBefore t n).next =
      Function.update (l.setNext (l.prev n) (some t)).next t (some n) := by
    unfold linkBefore
    cases hbt : l.prev n <;> rfl
  rw [hfields, hprev]
  rcases List.eq_nil_or_concat' xs with rfl | ⟨front, p, rfl⟩
  · show Function.update l.next t (some n) = _
    rw [h.next, List.nil_append, List.nil_append, nextIn_cons t]
    rfl
  · rw [List.getLast?_concat]
    show Function.update (Function.update l.next p (some t)) t (some n) = _
    rw [h.next, nextIn_insert (List.nodup_middle.mpr (List.nodup_cons.mpr ⟨ht, h.nodup⟩))]
    rfl

theorem Chained.linkAfter_next (h : l.Chained (xs ++ p :: ys)) (ht : t ∉ xs ++ p :: ys) :
    (l.linkAfter t p).next = nextIn (xs ++ p :: t :: ys) := by
  have hnext := h.next_middle
  have hfields : (l.linkAfter t p).next =
      Function.update (Function.update l.next t (l.next p)) p (some t) := by
    unfold linkAfter
    cases hat : l.next p <;> rfl
  have hne : t ≠ p := by
    rintro rfl
    exact ht (by simp)
  have hnodup : (xs ++ [p] ++ t :: ys).Nodup := by
    rw [List.nodup_middle, List.append_assoc]
    exact List.nodup_cons.mpr ⟨ht, h.nodup⟩
  have hinsert := nextIn_insert hnodup
  rw [List.append_assoc, List.append_assoc] at hinsert
  rw [hfields, hnext, h.next, Function.update_comm hne]
  exact hinsert.symm

/-! And to the list -/

theorem Chained.unlink (h : l.Chained (xs ++ t :: ys)) : (l.unlink t).Chained (xs ++ ys) := by
  have hflip : l.flip.Chained (ys.reverse ++ t :: xs.reverse) := by
    rw [← chained_flip_iff] at h
    simpa using h
  refine ⟨h.nodup.sublist (by simp), h.unlink_next, ?_⟩
  have hprev := hflip.unlink_next
  rw [← flip_unlink, ← List.reverse_append] at hprev
  exact hprev

theorem Chained.linkBefore (h : l.Chained (xs ++ n :: ys)) (ht : t ∉ xs ++ n :: ys) :
    (l.linkBefore t n).Chained (xs ++ t :: n :: ys) := by
  have hflip : l.flip.Chained (ys.reverse ++ n :: xs.reverse) := by
    rw [← chained_flip_iff] at h
    simpa using h
  have hprev := hflip.linkAfter_next (t := t) (by
    rw [← List.mem_reverse] at ht
    simpa using ht)
  refine ⟨List.nodup_middle.mpr (List.nodup_cons.mpr ⟨ht, h.nodup⟩), h.linkBefore_next ht, ?_⟩
  rw [← flip_linkBefore] at hprev
  simpa [flip] using hprev

theorem Chained.linkAfter (h : l.Chained (xs ++ p :: ys)) (ht : t ∉ xs ++ p :: ys) :
    (l.linkAfter t p).Chained (xs ++ p :: t :: ys) := by
  have hflip : l.flip.Chained (ys.reverse ++ p :: xs.reverse) := by
    rw [← chained_flip_iff] at h
    simpa using h
  have hbefore := hflip.linkBefore (t := t) (by
    rw [← List.mem_reverse] at ht
    simpa using ht)
  rw [← chained_flip_iff, flip_linkBefore] at hbefore
  simpa [flip] using hbefore

end

end Links

/-- Follows the links from a node until one stops it; `fuel` bounds the number of nodes. -/
def seek {α : Type*} (link : α → Option α) (stops : α → Bool) : ℕ → Option α → Option α
  | 0, _ => none
  | _ + 1, none => none
  | fuel + 1, some node => if stops node then some node else seek link stops fuel (link node)

/-- Along the links of a list, it finds what the list has first. -/
theorem seek_eq_find {α : Type*} [DecidableEq α] {stops : α → Bool} {xs ys : List α} {fuel : ℕ}
    (hnodup : (xs ++ ys).Nodup) (hfuel : ys.length < fuel) :
    seek (nextIn (xs ++ ys)) stops fuel ys.head? = ys.find? stops := by
  induction ys generalizing xs fuel with
  | nil =>
      cases fuel with
      | zero => cases hfuel
      | succ fuel => rfl
  | cons y ys ih =>
      cases fuel with
      | zero => cases hfuel
      | succ fuel =>
          rw [List.head?_cons, seek, List.find?_cons, nextIn_middle hnodup]
          cases hstops : stops y with
          | true => rfl
          | false =>
              have hassoc : xs ++ y :: ys = (xs ++ [y]) ++ ys := by simp
              rw [hassoc] at hnodup ⊢
              simpa using ih hnodup (Nat.lt_of_succ_lt_succ hfuel)

end Foundation
end ArmyRs
