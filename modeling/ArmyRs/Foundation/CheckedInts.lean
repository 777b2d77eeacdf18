import Mathlib.Tactic

/-!
# Checked machine integers

Signed arithmetic of 64 bits, or of a given width, in which an overflow is undefined, and
so is a division by zero.  An operation is made on the integers and answers with its value
when that fits, and with a fault otherwise.
-/

namespace ArmyRs
namespace Foundation

/-- What makes an expression undefined. -/
inductive Fault
  | overflow
  | divByZero
  deriving DecidableEq, Repr

def FitsInt64 (x : ℤ) : Prop := -2 ^ 63 ≤ x ∧ x < 2 ^ 63

instance decidableFitsInt64 (x : ℤ) : Decidable (FitsInt64 x) :=
  inferInstanceAs (Decidable (_ ∧ _))

/-- The value of an expression whose exact value is `x`. -/
def checked (x : ℤ) : Except Fault ℤ :=
  if FitsInt64 x then .ok x else .error .overflow

/-- `x` is a signed integer of `w` bits. -/
def FitsInt (w : ℕ) (x : ℤ) : Prop := -2 ^ (w - 1) ≤ x ∧ x < 2 ^ (w - 1)

instance decidableFitsInt (w : ℕ) (x : ℤ) : Decidable (FitsInt w x) :=
  inferInstanceAs (Decidable (_ ∧ _))

/-- The value of an expression of `w` bits. -/
def checkedIn (w : ℕ) (x : ℤ) : Except Fault ℤ :=
  if FitsInt w x then .ok x else .error .overflow

/-- `a / b` of unsigned integers. -/
def checkedDiv (a b : ℕ) : Except Fault ℕ :=
  if b = 0 then .error .divByZero else .ok (a / b)

/-- `a % b` of unsigned integers. -/
def checkedMod (a b : ℕ) : Except Fault ℕ :=
  if b = 0 then .error .divByZero else .ok (a % b)

/-- A signed integer divided by a positive one, which cannot overflow. -/
def checkedQuot (x : ℤ) (b : ℕ) : Except Fault ℤ :=
  if b = 0 then .error .divByZero else .ok (x.tdiv b)

section

variable {α β : Type} {x y : ℤ} {a b : ℕ}

theorem checked_of_fits (h : FitsInt64 x) : checked x = .ok x := if_pos h

theorem checked_of_not_fits (h : ¬ FitsInt64 x) : checked x = .error .overflow := if_neg h

theorem checkedIn_of_fits {w : ℕ} (h : FitsInt w x) : checkedIn w x = .ok x := if_pos h

theorem checkedDiv_of_ne (hb : b ≠ 0) : checkedDiv a b = .ok (a / b) := if_neg hb

theorem checkedMod_of_ne (hb : b ≠ 0) : checkedMod a b = .ok (a % b) := if_neg hb

theorem checkedQuot_of_ne (hb : b ≠ 0) : checkedQuot x b = .ok (x.tdiv b) := if_neg hb

@[simp] theorem ok_bind (a : α) (f : α → Except Fault β) : (Except.ok a >>= f) = f a := rfl

@[simp] theorem error_bind (fault : Fault) (f : α → Except Fault β) :
    (Except.error fault >>= f) = .error fault := rfl

/-- The expression overflows somewhere, or else `P` holds and its result is `r`. -/
def OrOverflow (result : Except Fault β) (P : Prop) (r : Except Fault β) : Prop :=
  result = .error .overflow ∨ P ∧ result = r

/-- A value that is checked fits where it is used. -/
theorem orOverflow_bind {f : ℤ → Except Fault β} {P : Prop} {r : Except Fault β}
    (h : FitsInt64 x → OrOverflow (f x) P r) : OrOverflow (checked x >>= f) P r := by
  by_cases hfits : FitsInt64 x
  · rw [checked_of_fits hfits]
    exact h hfits
  · rw [checked_of_not_fits hfits]
    exact .inl rfl

end

end Foundation
end ArmyRs
