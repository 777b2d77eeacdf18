import Mathlib.Algebra.Order.Group.Defs
import Mathlib.Tactic

/-!
# Climbing by thresholds

An amount climbs levels: as long as the level is below the last one and the amount
reaches the threshold of the level, the threshold is taken off and the level is
raised.

More can be added before or after the climb (`climb_add`): a step that is taken
with less is taken with more, and leaves the same difference.
-/

namespace ArmyRs
namespace Foundation

section

variable {G : Type*} [AddCommGroup G] [LinearOrder G] [IsOrderedAddMonoid G]

/-- The level and the amount where the climb ends. -/
def climb (need : Nat → G) (last level : Nat) (amount : G) : Nat × G :=
  if level < last ∧ need level ≤ amount then climb need last (level + 1) (amount - need level)
  else (level, amount)
termination_by last - level

variable {need : Nat → G} {last level : Nat} {amount : G}

omit [IsOrderedAddMonoid G] in
theorem climb_of_le (hlevel : level < last) (hneed : need level ≤ amount) :
    climb need last level amount = climb need last (level + 1) (amount - need level) := by
  rw [climb, if_pos ⟨hlevel, hneed⟩]

omit [IsOrderedAddMonoid G] in
theorem climb_of_lt (hneed : level < last → amount < need level) :
    climb need last level amount = (level, amount) := by
  rw [climb, if_neg]
  rintro ⟨hlevel, hle⟩
  exact absurd (hneed hlevel) (not_lt.mpr hle)

omit [IsOrderedAddMonoid G] in
theorem le_climb : level ≤ (climb need last level amount).1 := by
  fun_induction climb need last level amount with
  | case1 level amount hstep ih => exact (Nat.le_succ _).trans ih
  | case2 level amount hstop => exact le_rfl

omit [IsOrderedAddMonoid G] in
/-- The last level is not passed. -/
theorem climb_le_last (hlevel : level ≤ last) : (climb need last level amount).1 ≤ last := by
  fun_induction climb need last level amount with
  | case1 level amount hstep ih => exact ih hstep.1
  | case2 level amount hstop => exact hlevel

omit [IsOrderedAddMonoid G] in
/-- Where the climb ends the amount does not reach the threshold. -/
theorem climb_lt_need (hlast : (climb need last level amount).1 < last) :
    (climb need last level amount).2 < need (climb need last level amount).1 := by
  fun_induction climb need last level amount with
  | case1 level amount hstep ih => exact ih hlast
  | case2 level amount hstop =>
      rw [not_and, not_le] at hstop
      exact hstop hlast

/-- What is added before the climb may be added after it. -/
theorem climb_add {more : G} (hmore : 0 ≤ more) :
    climb need last level (amount + more) =
      climb need last (climb need last level amount).1
        ((climb need last level amount).2 + more) := by
  fun_induction climb need last level amount with
  | case1 level amount hstep ih =>
      have hneed : need level ≤ amount + more := hstep.2.trans (le_add_of_nonneg_right hmore)
      rw [climb_of_le hstep.1 hneed, add_sub_right_comm, ih]
  | case2 level amount hstop => rfl

end

end Foundation
end ArmyRs
