import Mathlib.Tactic

/-!
# Ring buffers

`cap` slots, of which `count` from `head` on are in use, around the end.  `ringItems` are
the items in use.  An item is written behind the last one (`ringItems_update`), the first
one is taken (`ringItems_succ`), and a copy into other slots may begin at zero
(`ringItems_copy`).
-/

namespace ArmyRs
namespace Foundation

variable {α : Type*}

/-- The items in use. -/
def ringItems (slots : ℕ → α) (cap head count : ℕ) : List α :=
  (List.range count).map fun i => slots ((head + i) % cap)

@[simp] theorem length_ringItems (slots : ℕ → α) (cap head count : ℕ) :
    (ringItems slots cap head count).length = count := by
  simp [ringItems]

@[simp] theorem ringItems_zero (slots : ℕ → α) (cap head : ℕ) :
    ringItems slots cap head 0 = [] := rfl

section

variable {slots slots' : ℕ → α} {cap head count : ℕ}

/-- Two of the slots in use are different. -/
theorem add_mod_ne {i j : ℕ} (hij : i < j) (hj : j < cap) : (head + i) % cap ≠ (head + j) % cap := by
  intro heq
  have hdvd : cap ∣ head + j - (head + i) := (Nat.modEq_iff_dvd' (by omega)).mp heq
  have hzero := Nat.eq_zero_of_dvd_of_lt hdvd (by omega)
  omega

theorem ringItems_congr (h : ∀ i < count, slots' ((head + i) % cap) = slots ((head + i) % cap)) :
    ringItems slots' cap head count = ringItems slots cap head count :=
  List.map_congr_left fun i hi => h i (List.mem_range.mp hi)

/-- An item is written behind the last one. -/
theorem ringItems_update (hcount : count < cap) (a : α) :
    ringItems (Function.update slots ((head + count) % cap) a) cap head (count + 1) =
      ringItems slots cap head count ++ [a] := by
  have hbefore : ringItems (Function.update slots ((head + count) % cap) a) cap head count =
      ringItems slots cap head count :=
    ringItems_congr fun i hi => Function.update_of_ne (add_mod_ne hi hcount) _ _
  rw [← hbefore, ringItems, ringItems, List.range_succ, List.map_append, List.map_singleton,
    Function.update_self]

/-- The first item, and the others. -/
theorem ringItems_succ :
    ringItems slots cap head (count + 1) =
      slots (head % cap) :: ringItems slots cap ((head + 1) % cap) count := by
  rw [ringItems, ringItems, List.range_succ_eq_map, List.map_cons, List.map_map, Nat.add_zero]
  congr 1
  refine List.map_congr_left fun i _ => ?_
  rw [Function.comp_apply, Nat.mod_add_mod]
  congr 2
  omega

/-- The items, copied to the beginning of at least as many slots. -/
theorem ringItems_copy {cap' : ℕ} (hcap : count ≤ cap')
    (h : ∀ i < count, slots' i = slots ((head + i) % cap)) :
    ringItems slots' cap' 0 count = ringItems slots cap head count := by
  refine List.map_congr_left fun i hi => ?_
  have hlt := List.mem_range.mp hi
  rw [Nat.zero_add, Nat.mod_eq_of_lt (by omega), h i hlt]

end

end Foundation
end ArmyRs
