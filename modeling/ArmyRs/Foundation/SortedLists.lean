import Mathlib.Data.List.DropRight
import Mathlib.Data.List.TakeWhile
import Mathlib.Order.Basic
import Mathlib.Tactic

/-!
# Lists sorted by a key

The keys of a list do not get less from its first element to its last.  A new element
has its place behind those below it, which can be looked for from either end.
-/

namespace ArmyRs
namespace Foundation

variable {α β : Type*} [LinearOrder β]

/-- The keys do not get less. -/
def SortedBy (key : α → β) (xs : List α) : Prop := xs.Pairwise fun a b => key a ≤ key b

section

variable {key other : α → β} {xs ys : List α} {c u : α} {p : β}

theorem sortedBy_middle : SortedBy key (xs ++ u :: ys) ↔
    SortedBy key (xs ++ ys) ∧ (∀ a ∈ xs, key a ≤ key u) ∧ ∀ b ∈ ys, key u ≤ key b := by
  unfold SortedBy
  rw [List.pairwise_append, List.pairwise_append, List.pairwise_cons]
  constructor
  · rintro ⟨hxs, ⟨hu, hys⟩, hcross⟩
    exact ⟨⟨hxs, hys, fun a ha b hb => hcross a ha b (List.mem_cons_of_mem u hb)⟩,
      fun a ha => hcross a ha u List.mem_cons_self, hu⟩
  · rintro ⟨⟨hxs, hys, hcross⟩, hfront, hback⟩
    refine ⟨hxs, ⟨hback, hys⟩, fun a ha b hb => ?_⟩
    rcases List.mem_cons.mp hb with rfl | hb
    · exact hfront a ha
    · exact hcross a ha b hb

theorem SortedBy.mem_front (h : SortedBy key (xs ++ u :: ys)) (hc : c ∈ xs ++ u :: ys)
    (hlt : key c < key u) : c ∈ xs := by
  rcases List.mem_append.mp hc with hc | hc
  · exact hc
  · rcases List.mem_cons.mp hc with rfl | hc
    · exact absurd hlt (lt_irrefl _)
    · exact absurd hlt (not_lt.mpr ((sortedBy_middle.mp h).2.2 c hc))

/-- Sortedness depends on the keys of the members alone. -/
theorem SortedBy.congr (h : SortedBy key xs)
    (hsame : ∀ c ∈ xs, other c = key c) : SortedBy other xs :=
  List.Pairwise.imp_of_mem (fun ha hb hle => by rwa [hsame _ ha, hsame _ hb]) h

theorem SortedBy.le_of_mem_dropWhile (h : SortedBy key xs)
    (hc : c ∈ xs.dropWhile fun b => decide (key b < p)) : p ≤ key c := by
  induction xs with
  | nil => cases hc
  | cons x xs ih =>
      obtain ⟨hx, hxs⟩ := List.pairwise_cons.mp h
      by_cases hlt : key x < p
      · rw [List.dropWhile_cons_of_pos (by simpa using hlt)] at hc
        exact ih hxs hc
      · rw [List.dropWhile_cons_of_neg (by simpa using hlt)] at hc
        rcases List.mem_cons.mp hc with rfl | hc
        · exact not_lt.mp hlt
        · exact le_trans (not_lt.mp hlt) (hx c hc)

theorem SortedBy.lt_of_mem_rdropWhile (h : SortedBy key xs)
    (hc : c ∈ xs.rdropWhile fun b => !decide (key b < p)) : key c < p := by
  induction xs using List.reverseRecOn with
  | nil => cases hc
  | append_singleton xs x ih =>
      obtain ⟨hxs, hfront, -⟩ := sortedBy_middle.mp h
      rw [List.append_nil] at hxs
      by_cases hlt : key x < p
      · rw [List.rdropWhile_concat_neg _ _ _ (by simpa using hlt)] at hc
        rcases List.mem_append.mp hc with hc | hc
        · exact lt_of_le_of_lt (hfront c hc) hlt
        · rwa [List.mem_singleton.mp hc]
      · rw [List.rdropWhile_concat_pos _ _ _ (by simpa using hlt)] at hc
        exact ih hxs hc

/-- An element that is put behind those below it is in its place. -/
theorem SortedBy.insert_forward (h : SortedBy key (xs ++ ys)) (hxs : ∀ a ∈ xs, key a ≤ key u) :
    SortedBy key (xs ++ ys.takeWhile (fun b => decide (key b < key u)) ++
      u :: ys.dropWhile fun b => decide (key b < key u)) := by
  refine sortedBy_middle.mpr ⟨?_, ?_, ?_⟩
  · rwa [List.append_assoc, List.takeWhile_append_dropWhile]
  · intro a ha
    rcases List.mem_append.mp ha with ha | ha
    · exact hxs a ha
    · exact le_of_lt (by simpa using List.mem_takeWhile_imp ha)
  · intro b hb
    exact SortedBy.le_of_mem_dropWhile (List.pairwise_append.mp h).2.1 hb

/-- And one that is put behind the last one below it. -/
theorem SortedBy.insert_backward (h : SortedBy key (xs ++ ys)) (hys : ∀ b ∈ ys, key u ≤ key b) :
    SortedBy key (xs.rdropWhile (fun b => !decide (key b < key u)) ++
      u :: (xs.rtakeWhile (fun b => !decide (key b < key u)) ++ ys)) := by
  refine sortedBy_middle.mpr ⟨?_, ?_, ?_⟩
  · rwa [← List.append_assoc, List.rdropWhile_append_rtakeWhile]
  · intro a ha
    exact le_of_lt (SortedBy.lt_of_mem_rdropWhile (List.pairwise_append.mp h).1 ha)
  · intro b hb
    rcases List.mem_append.mp hb with hb | hb
    · simpa using List.mem_rtakeWhile_imp hb
    · exact hys b hb

end

end Foundation
end ArmyRs
