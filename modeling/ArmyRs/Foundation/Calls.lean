import Mathlib.Logic.Basic
import Mathlib.Order.Basic

/-!
# Functions that call one another

Objects that answer each other's calls are mutually recursive functions, and
whether a call returns is a question of its own.  Here the body of a function
calls at most one function, and goes on with what that one returns (`Body`).
`perform` runs a call with a bound on the calls inside one another, and
`Returns` says what a call returns with a bound that is large enough.
-/

namespace ArmyRs
namespace Foundation

/-- What the body of a function does. -/
inductive Body (Call Return : Type*)
  | returns (ret : Return)
  /-- A call, and what is done with its result. -/
  | calls (call : Call) (rest : Return → Return)

variable {Call Return : Type*}

/-- The call, when no more than `depth` calls stand inside one another. -/
def perform (body : Call → Body Call Return) : Nat → Call → Option Return
  | 0, _ => none
  | depth + 1, call =>
      match body call with
      | .returns ret => some ret
      | .calls inner rest => (perform body depth inner).map rest

/-- The call returns this. -/
def Returns (body : Call → Body Call Return) (call : Call) (ret : Return) : Prop :=
  ∃ depth, perform body depth call = some ret

section

variable {body : Call → Body Call Return} {call inner : Call} {ret : Return}
  {rest : Return → Return} {depth deeper : Nat}

/-- A larger bound does not change the result. -/
theorem perform_mono (hle : depth ≤ deeper) (h : perform body depth call = some ret) :
    perform body deeper call = some ret := by
  induction depth generalizing deeper call ret with
  | zero => cases h
  | succ depth ih =>
      obtain ⟨more, rfl⟩ := Nat.exists_eq_add_of_le' hle
      rw [← Nat.add_assoc]
      unfold perform at h ⊢
      cases hbody : body call with
      | returns result =>
          rw [hbody] at h
          exact h
      | calls inner rest =>
          rw [hbody] at h
          obtain ⟨result, hinner, hrest⟩ := Option.map_eq_some_iff.mp h
          have hmore := ih (Nat.le_add_left depth more) hinner
          simp [hmore, hrest]

theorem Returns.eventually (h : Returns body call ret) :
    ∃ bound, ∀ depth ≥ bound, perform body depth call = some ret := by
  obtain ⟨bound, hbound⟩ := h
  exact ⟨bound, fun depth hle => perform_mono hle hbound⟩

theorem returns_of_returns (h : body call = .returns ret) : Returns body call ret :=
  ⟨1, by simp [perform, h]⟩

theorem returns_of_calls (h : body call = .calls inner rest) (hinner : Returns body inner ret) :
    Returns body call (rest ret) := by
  obtain ⟨depth, hdepth⟩ := hinner
  exact ⟨depth + 1, by simp [perform, h, hdepth]⟩

end

end Foundation
end ArmyRs
