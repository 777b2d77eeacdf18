import Mathlib.Data.List.Basic

/-!
# Cutting a stream into frames

A `Framing` cuts the first frame off a buffer, or finds none that is complete.
Bytes that arrive later do not change a frame that was complete before; so the
frames of a stream do not depend on the buffer that they are cut from
(`frames_append`).
-/

namespace ArmyRs
namespace Foundation

/-- How the first frame is cut off a buffer. -/
structure Framing (β φ : Type*) where
  cut : List β → Option (φ × List β)
  cut_shorter : ∀ {buf frame rest}, cut buf = some (frame, rest) → rest.length < buf.length
  cut_append : ∀ {buf frame rest}, cut buf = some (frame, rest) →
    ∀ more, cut (buf ++ more) = some (frame, rest ++ more)

namespace Framing

variable {β φ : Type*} (framing : Framing β φ)

/-- Cuts at most `fuel` frames. -/
def framesFuel : Nat → List β → List φ × List β
  | 0, buf => ([], buf)
  | fuel + 1, buf =>
      match framing.cut buf with
      | none => ([], buf)
      | some (frame, rest) =>
          (frame :: (framesFuel fuel rest).1, (framesFuel fuel rest).2)

/-- All complete frames of a buffer, and the bytes behind them. -/
def frames (buf : List β) : List φ × List β :=
  framing.framesFuel buf.length buf

variable {framing} {buf rest : List β} {frame : φ}

/-- As much fuel as there are bytes is enough. -/
theorem framesFuel_eq {fuel : Nat} (hfuel : buf.length ≤ fuel) :
    framing.framesFuel fuel buf = framing.frames buf := by
  unfold frames
  induction hlength : buf.length using Nat.strongRecOn generalizing buf fuel with
  | _ length ih =>
      subst hlength
      cases hcut : framing.cut buf with
      | none =>
          cases fuel <;> cases buf.length <;> simp [framesFuel, hcut]
      | some pair =>
          obtain ⟨frame, rest⟩ := pair
          have hshorter : rest.length < buf.length := framing.cut_shorter hcut
          obtain ⟨fuel, rfl⟩ := Nat.exists_eq_add_of_lt (Nat.lt_of_lt_of_le hshorter hfuel)
          obtain ⟨extra, hextra⟩ := Nat.exists_eq_add_of_lt hshorter
          rw [hextra]
          have hleft : framing.framesFuel (rest.length + fuel) rest = _ :=
            ih rest.length hshorter (by omega) rfl
          have hright : framing.framesFuel (rest.length + extra) rest = _ :=
            ih rest.length hshorter (by omega) rfl
          simp only [framesFuel, hcut, hleft, hright]

theorem frames_of_none (hcut : framing.cut buf = none) : framing.frames buf = ([], buf) := by
  unfold frames
  cases buf.length <;> simp [framesFuel, hcut]

theorem frames_of_some (hcut : framing.cut buf = some (frame, rest)) :
    framing.frames buf = (frame :: (framing.frames rest).1, (framing.frames rest).2) := by
  have hshorter : rest.length < buf.length := framing.cut_shorter hcut
  obtain ⟨extra, hextra⟩ := Nat.exists_eq_add_of_lt hshorter
  conv_lhs => unfold frames
  rw [hextra]
  simp only [framesFuel, hcut]
  rw [framesFuel_eq (by omega)]

/-- The frames of a longer stream: those that were complete, and those that are
cut from what was left. -/
theorem frames_append (buf more : List β) :
    framing.frames (buf ++ more) =
      ((framing.frames buf).1 ++ (framing.frames ((framing.frames buf).2 ++ more)).1,
        (framing.frames ((framing.frames buf).2 ++ more)).2) := by
  induction hlength : buf.length using Nat.strongRecOn generalizing buf with
  | _ length ih =>
      subst hlength
      cases hcut : framing.cut buf with
      | none => simp [frames_of_none hcut]
      | some pair =>
          obtain ⟨frame, rest⟩ := pair
          have hrest := ih rest.length (framing.cut_shorter hcut) rest rfl
          rw [frames_of_some hcut, frames_of_some (framing.cut_append hcut more), hrest]
          simp

end Framing

end Foundation
end ArmyRs
