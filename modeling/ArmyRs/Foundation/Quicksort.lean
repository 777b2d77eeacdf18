import Mathlib.Data.List.Perm.Basic
import Mathlib.Tactic

/-!
# Quicksort with a moving pivot

The first element is the pivot.  One pass over the rest keeps the elements that
compare before the pivot in front of it; such an element is exchanged with the
first of the elements behind the pivot, which thereby goes to the end.  The two
sides are then sorted by themselves.

The comparison may answer `true` in both directions on equal elements, so the
order of equal elements is not that of the input.  `quicksort_perm` and
`quicksort_pairwise` say what holds for every comparison that decides an order.
-/

namespace ArmyRs
namespace Foundation

variable {α : Type*}

/-- The first element goes to the end. -/
def firstToEnd : List α → List α
  | [] => []
  | first :: rest => rest ++ [first]

/-- One element of the pass: the elements before and behind the pivot. -/
def partitionStep (compare : α → α → Bool) (pivot : α) (parts : List α × List α) (x : α) :
    List α × List α :=
  if compare x pivot then (parts.1 ++ [x], firstToEnd parts.2) else (parts.1, parts.2 ++ [x])

/-- The sides of the pivot after the pass. -/
def partition (compare : α → α → Bool) (pivot : α) (rest : List α) : List α × List α :=
  rest.foldl (partitionStep compare pivot) ([], [])

/-- Quicksort; `fuel` bounds the depth of the recursion. -/
def quicksort (compare : α → α → Bool) : Nat → List α → List α
  | 0, t => t
  | _ + 1, [] => []
  | fuel + 1, pivot :: rest =>
      quicksort compare fuel (partition compare pivot rest).1 ++
        pivot :: quicksort compare fuel (partition compare pivot rest).2

theorem firstToEnd_perm (xs : List α) : (firstToEnd xs).Perm xs := by
  cases xs with
  | nil => exact List.Perm.refl _
  | cons first rest => exact List.perm_append_comm

section

variable {compare : α → α → Bool} {pivot : α}

theorem foldl_partitionStep_perm (rest : List α) (parts : List α × List α) :
    ((rest.foldl (partitionStep compare pivot) parts).1 ++
      (rest.foldl (partitionStep compare pivot) parts).2).Perm (parts.1 ++ parts.2 ++ rest) := by
  induction rest generalizing parts with
  | nil => simp
  | cons x rest ih =>
      rw [List.foldl_cons]
      refine (ih _).trans ?_
      have hstep : ((partitionStep compare pivot parts x).1 ++
          (partitionStep compare pivot parts x).2).Perm (parts.1 ++ parts.2 ++ [x]) := by
        unfold partitionStep
        split
        · rw [List.append_assoc, List.append_assoc]
          refine List.Perm.append_left _ ?_
          exact (List.Perm.append_left _ (firstToEnd_perm _)).trans List.perm_append_comm
        · rw [List.append_assoc]
      simpa using hstep.append_right rest

/-- What stands before the pivot compares before it, and nothing behind does. -/
theorem foldl_partitionStep_sides (rest : List α) (parts : List α × List α)
    (hleft : ∀ x ∈ parts.1, compare x pivot = true)
    (hright : ∀ x ∈ parts.2, compare x pivot = false) :
    (∀ x ∈ (rest.foldl (partitionStep compare pivot) parts).1, compare x pivot = true) ∧
      ∀ x ∈ (rest.foldl (partitionStep compare pivot) parts).2, compare x pivot = false := by
  induction rest generalizing parts with
  | nil => exact ⟨hleft, hright⟩
  | cons first rest ih =>
      rw [List.foldl_cons]
      refine ih _ ?_ ?_
      · intro x hx
        unfold partitionStep at hx
        split at hx
        · next hcompare =>
          rcases List.mem_append.mp hx with hx | hx
          · exact hleft x hx
          · rw [List.mem_singleton.mp hx]
            exact hcompare
        · exact hleft x hx
      · intro x hx
        unfold partitionStep at hx
        split at hx
        · exact hright x ((firstToEnd_perm _).mem_iff.mp hx)
        · next hcompare =>
          rcases List.mem_append.mp hx with hx | hx
          · exact hright x hx
          · rw [List.mem_singleton.mp hx]
            exact Bool.not_eq_true _ ▸ hcompare

theorem partition_perm (rest : List α) :
    ((partition compare pivot rest).1 ++ (partition compare pivot rest).2).Perm rest :=
  foldl_partitionStep_perm rest ([], [])

end

theorem quicksort_perm (compare : α → α → Bool) (fuel : Nat) (t : List α) :
    (quicksort compare fuel t).Perm t := by
  induction fuel generalizing t with
  | zero => exact List.Perm.refl _
  | succ fuel ih =>
      cases t with
      | nil => exact List.Perm.refl _
      | cons pivot rest =>
          unfold quicksort
          refine ((ih _).append ((ih _).cons pivot)).trans ?_
          exact List.perm_middle.trans ((partition_perm rest).cons pivot)

/-- With enough fuel the result is in order, for every comparison that decides
a transitive relation. -/
theorem quicksort_pairwise {compare : α → α → Bool} {r : α → α → Prop}
    (htrue : ∀ x y, compare x y = true → r x y) (hfalse : ∀ x y, compare x y = false → r y x)
    (htrans : ∀ x y z, r x y → r y z → r x z) (fuel : Nat) (t : List α)
    (hfuel : t.length ≤ fuel) : (quicksort compare fuel t).Pairwise r := by
  induction fuel generalizing t with
  | zero =>
      rw [List.length_eq_zero_iff.mp (Nat.le_zero.mp hfuel)]
      exact List.Pairwise.nil
  | succ fuel ih =>
      cases t with
      | nil => exact List.Pairwise.nil
      | cons pivot rest =>
          have hsides : (∀ x ∈ (partition compare pivot rest).1, compare x pivot = true) ∧
              ∀ x ∈ (partition compare pivot rest).2, compare x pivot = false :=
            foldl_partitionStep_sides rest ([], []) (by simp) (by simp)
          obtain ⟨hleft, hright⟩ := hsides
          have hperm : ((partition compare pivot rest).1 ++ (partition compare pivot rest).2).Perm
              rest := partition_perm rest
          have hlength := hperm.length_eq
          rw [List.length_append] at hlength
          rw [List.length_cons] at hfuel
          have hbefore : ∀ x ∈ quicksort compare fuel (partition compare pivot rest).1, r x pivot :=
            fun x hx => htrue x pivot (hleft x ((quicksort_perm _ _ _).mem_iff.mp hx))
          have hbehind : ∀ x ∈ quicksort compare fuel (partition compare pivot rest).2, r pivot x :=
            fun x hx => hfalse x pivot (hright x ((quicksort_perm _ _ _).mem_iff.mp hx))
          unfold quicksort
          rw [List.pairwise_append, List.pairwise_cons]
          refine ⟨ih _ (by omega), ⟨hbehind, ih _ (by omega)⟩, ?_⟩
          intro x hx y hy
          rcases List.mem_cons.mp hy with rfl | hy
          · exact hbefore x hx
          · exact htrans x pivot y (hbefore x hx) (hbehind y hy)

/-- More fuel than needed changes nothing. -/
theorem quicksort_of_le (compare : α → α → Bool) {fuel more : Nat} {t : List α}
    (hfuel : t.length ≤ fuel) (hmore : t.length ≤ more) :
    quicksort compare fuel t = quicksort compare more t := by
  induction fuel generalizing more t with
  | zero =>
      rw [List.length_eq_zero_iff.mp (Nat.le_zero.mp hfuel)]
      cases more <;> rfl
  | succ fuel ih =>
      cases t with
      | nil => cases more <;> rfl
      | cons pivot rest =>
          cases more with
          | zero => cases hmore
          | succ more =>
              have hperm : ((partition compare pivot rest).1 ++
                  (partition compare pivot rest).2).Perm rest := partition_perm rest
              have hlength := hperm.length_eq
              rw [List.length_append] at hlength
              rw [List.length_cons] at hfuel hmore
              have hleft : quicksort compare fuel (partition compare pivot rest).1 =
                  quicksort compare more (partition compare pivot rest).1 :=
                ih (by omega) (by omega)
              have hright : quicksort compare fuel (partition compare pivot rest).2 =
                  quicksort compare more (partition compare pivot rest).2 :=
                ih (by omega) (by omega)
              rw [quicksort, quicksort, hleft, hright]

end Foundation
end ArmyRs
