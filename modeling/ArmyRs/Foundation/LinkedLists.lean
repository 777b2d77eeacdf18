import Mathlib.Data.List.Nodup
import Mathlib.Logic.Function.Basic
import Mathlib.Tactic

/-!
# Linked lists

The links of a list without repetitions are a function, which gives the element after
each element and nothing for what is last or not in the list.  A doubly linked list
has the links of a list and those of its reversal.

The lemmas say which links change when an element is put at either end or taken out.
-/

namespace ArmyRs
namespace Foundation

variable {α : Type*} [DecidableEq α]

/-- The element after the given one. -/
def nextIn : List α → α → Option α
  | x :: y :: rest, a => if a = x then some y else nextIn (y :: rest) a
  | _, _ => none

section

variable {xs ys : List α} {a t : α}

theorem nextIn_of_not_mem (ha : a ∉ xs) : nextIn xs a = none := by
  induction xs with
  | nil => rfl
  | cons x xs ih =>
      rw [List.mem_cons, not_or] at ha
      cases xs with
      | nil => rfl
      | cons y rest => rw [nextIn, if_neg ha.1, ih ha.2]

theorem nextIn_cons_self (t : α) (xs : List α) : nextIn (t :: xs) t = xs.head? := by
  cases xs with
  | nil => rfl
  | cons y rest => simp [nextIn]

theorem nextIn_cons_of_ne (hne : a ≠ t) (xs : List α) : nextIn (t :: xs) a = nextIn xs a := by
  cases xs with
  | nil => rfl
  | cons y rest => rw [nextIn, if_neg hne]

/-- Links do not depend on what comes before. -/
theorem nextIn_append_right (ha : a ∉ xs) : nextIn (xs ++ ys) a = nextIn ys a := by
  induction xs with
  | nil => rfl
  | cons x xs ih =>
      rw [List.mem_cons, not_or] at ha
      rw [List.cons_append, nextIn_cons_of_ne ha.1, ih ha.2]

/-- Nor do they on what comes behind, except for the last one. -/
theorem nextIn_append_left (hxs : xs.Nodup) (ha : a ∈ xs) :
    nextIn (xs ++ ys) a = if xs.getLast? = some a then ys.head? else nextIn xs a := by
  induction xs with
  | nil => cases ha
  | cons x xs ih =>
      rw [List.nodup_cons] at hxs
      by_cases heq : a = x
      · subst heq
        cases xs with
        | nil => simp [nextIn_cons_self]
        | cons y rest =>
            have hlast : (a :: y :: rest).getLast? ≠ some a := by
              rw [List.getLast?_cons_cons]
              exact fun h => hxs.1 (List.mem_of_getLast? h)
            rw [if_neg hlast]
            simp [nextIn]
      · have hmem : a ∈ xs := (List.mem_cons.mp ha).resolve_left heq
        have hne : xs ≠ [] := List.ne_nil_of_mem hmem
        have hlast : (x :: xs).getLast? = xs.getLast? := by
          obtain ⟨y, rest, rfl⟩ := List.exists_cons_of_ne_nil hne
          exact List.getLast?_cons_cons
        rw [List.cons_append, nextIn_cons_of_ne heq, nextIn_cons_of_ne heq, ih hxs.2 hmem, hlast]

/-- The link of an element that stands between two parts. -/
theorem nextIn_middle (hnodup : (xs ++ t :: ys).Nodup) : nextIn (xs ++ t :: ys) t = ys.head? := by
  have ht : t ∉ xs := fun hmem => List.disjoint_of_nodup_append hnodup hmem List.mem_cons_self
  rw [nextIn_append_right ht, nextIn_cons_self]

/-- A new first element gets a link to the old one. -/
theorem nextIn_cons (t : α) (xs : List α) :
    nextIn (t :: xs) = Function.update (nextIn xs) t xs.head? := by
  funext a
  by_cases heq : a = t
  · rw [heq, nextIn_cons_self, Function.update_self]
  · rw [nextIn_cons_of_ne heq, Function.update_of_ne heq]

/-- The old last element gets a link to a new one. -/
theorem nextIn_concat {p : α} (hxs : (xs ++ [p]).Nodup) (ht : t ∉ xs ++ [p]) :
    nextIn (xs ++ [p] ++ [t]) = Function.update (nextIn (xs ++ [p])) p (some t) := by
  funext a
  by_cases hmem : a ∈ xs ++ [p]
  · rw [nextIn_append_left hxs hmem]
    by_cases heq : a = p
    · subst heq
      simp
    · rw [Function.update_of_ne heq]
      simp [Ne.symm heq]
  · have hne : a ≠ p := by
      rintro rfl
      simp at hmem
    rw [nextIn_append_right hmem, Function.update_of_ne hne, nextIn_of_not_mem hmem]
    rfl

/-- An element is taken out: the one before it gets its link. -/
theorem nextIn_remove {p : α} (hnodup : (xs ++ [p] ++ t :: ys).Nodup) :
    nextIn (xs ++ [p] ++ ys) =
      Function.update (Function.update (nextIn (xs ++ [p] ++ t :: ys)) p ys.head?) t none := by
  have hfront : (xs ++ [p]).Nodup := hnodup.of_append_left
  have hdisjoint := List.disjoint_of_nodup_append hnodup
  have ht : t ∉ ys := (List.nodup_cons.mp hnodup.of_append_right).1
  funext a
  by_cases hat : a = t
  · subst hat
    have hnot : a ∉ xs ++ [p] := fun hmem => hdisjoint hmem List.mem_cons_self
    rw [Function.update_self, nextIn_append_right hnot, nextIn_of_not_mem ht]
  · rw [Function.update_of_ne hat]
    by_cases hmem : a ∈ xs ++ [p]
    · rw [nextIn_append_left hfront hmem]
      by_cases heq : a = p
      · subst heq
        simp
      · rw [Function.update_of_ne heq, nextIn_append_left hfront hmem]
        simp [Ne.symm heq]
    · have hne : a ≠ p := by
        rintro rfl
        simp at hmem
      rw [Function.update_of_ne hne, nextIn_append_right hmem, nextIn_append_right hmem,
        nextIn_cons_of_ne hat]

/-- An element is put in: the one before it gets a link to it, and it gets the old link. -/
theorem nextIn_insert {p : α} (hnodup : (xs ++ [p] ++ t :: ys).Nodup) :
    nextIn (xs ++ [p] ++ t :: ys) =
      Function.update (Function.update (nextIn (xs ++ [p] ++ ys)) p (some t)) t ys.head? := by
  have hpt : nextIn (xs ++ [p] ++ t :: ys) p = some t := by
    rw [List.append_assoc] at hnodup ⊢
    exact nextIn_middle hnodup
  rw [nextIn_remove hnodup]
  funext a
  by_cases hat : a = t
  · rw [hat, Function.update_self, nextIn_middle hnodup]
  · rw [Function.update_of_ne hat]
    by_cases hap : a = p
    · rw [hap, Function.update_self, hpt]
    · rw [Function.update_of_ne hap, Function.update_of_ne hat, Function.update_of_ne hap]

/-- The first element is taken out: only its own link goes. -/
theorem nextIn_tail (ht : t ∉ ys) : nextIn ys = Function.update (nextIn (t :: ys)) t none := by
  rw [nextIn_cons, Function.update_idem]
  funext a
  by_cases heq : a = t
  · rw [heq, Function.update_self, nextIn_of_not_mem ht]
  · rw [Function.update_of_ne heq]

/-- The links tell which elements a list has. -/
theorem eq_of_nextIn (hxs : xs.Nodup) (hys : ys.Nodup) (hhead : xs.head? = ys.head?)
    (hnext : nextIn xs = nextIn ys) : xs = ys := by
  induction xs generalizing ys with
  | nil =>
      cases ys with
      | nil => rfl
      | cons y ys => cases hhead
  | cons x xs ih =>
      cases ys with
      | nil => cases hhead
      | cons y ys =>
          cases hhead
          rw [List.nodup_cons] at hxs hys
          have hrest : nextIn xs = nextIn ys := by
            rw [nextIn_tail hxs.1, nextIn_tail hys.1, hnext]
          have hfirst := congrFun hnext x
          rw [nextIn_cons_self, nextIn_cons_self] at hfirst
          rw [ih hxs.2 hys.2 hfirst hrest]

/-- Linked elements stand next to each other. -/
theorem nextIn_eq_some_iff {b : α} (hxs : xs.Nodup) :
    nextIn xs a = some b ↔ ∃ front back, xs = front ++ a :: b :: back := by
  constructor
  · intro hnext
    have hmem : a ∈ xs := by
      by_contra hnot
      rw [nextIn_of_not_mem hnot] at hnext
      cases hnext
    obtain ⟨front, rest, rfl⟩ := List.append_of_mem hmem
    rw [nextIn_middle hxs] at hnext
    cases rest with
    | nil => cases hnext
    | cons c back =>
        cases hnext
        exact ⟨front, back, rfl⟩
  · rintro ⟨front, back, rfl⟩
    exact nextIn_middle hxs

end

end Foundation
end ArmyRs
