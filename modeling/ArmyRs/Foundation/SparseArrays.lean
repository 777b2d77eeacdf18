import Mathlib.Tactic

/-!
# Arrays that grow when they are written

In Ruby an array reads as `nil` behind its end and at the places that were never
written, and a write behind the end fills the places before it with `nil`.  Such an
array is a list of optional values; what is read at a place after a write is all that
the other definitions are about (`slot_place`).
-/

namespace ArmyRs
namespace Foundation

variable {α : Type*}

/-- What is read at a place. -/
def slot (xs : List (Option α)) (i : Nat) : Option α :=
  xs[i]?.join

/-- The value is written at a place. -/
def place (xs : List (Option α)) (i : Nat) (value : α) : List (Option α) :=
  (xs ++ List.replicate (i + 1 - xs.length) none).set i (some value)

/-- `||=`: the value is written when nothing is there. -/
def placeMissing (xs : List (Option α)) (i : Nat) (value : α) : List (Option α) :=
  match slot xs i with
  | some _ => xs
  | none => place xs i value

variable {xs : List (Option α)} {i j : Nat} {value : α}

theorem slot_map_some (values : List α) (i : Nat) : slot (values.map some) i = values[i]? := by
  unfold slot
  rw [List.getElem?_map]
  cases values[i]? <;> rfl

theorem slot_place_self : slot (place xs i value) i = some value := by
  have hlength : i < (xs ++ List.replicate (i + 1 - xs.length) none).length := by
    rw [List.length_append, List.length_replicate]
    omega
  unfold slot place
  rw [List.getElem?_set_self hlength]
  rfl

theorem slot_place_of_ne (hne : j ≠ i) : slot (place xs i value) j = slot xs j := by
  unfold slot place
  rw [List.getElem?_set_ne hne.symm]
  by_cases hlength : j < xs.length
  · rw [List.getElem?_append_left hlength]
  · -- the places that were filled read like those behind the end
    rw [List.getElem?_append_right (by omega), List.getElem?_replicate,
      List.getElem?_eq_none (by omega)]
    split <;> rfl

theorem slot_place : slot (place xs i value) j = if j = i then some value else slot xs j := by
  split
  · next heq =>
    subst heq
    exact slot_place_self
  · next hne => exact slot_place_of_ne hne

/-- Read with the value for what is missing, the array is as before. -/
theorem getD_slot_placeMissing : (slot (placeMissing xs i value) j).getD value =
    (slot xs j).getD value := by
  unfold placeMissing
  split
  · rfl
  · next hmissing =>
    rw [slot_place]
    split
    · next heq =>
      subst heq
      rw [hmissing]
      rfl
    · rfl

end Foundation
end ArmyRs
