import Mathlib.Data.List.Basic
import Mathlib.Data.List.DropRight

/-!
# Keys that are joined from their parts

A key that ends with a separator and a number can be taken apart again: the
digits of a number hold no separator, so that the last separator is where the
number starts.

Putting another number in the place of the digits at the end gives the numeral of
that number only for a text of digits (`replaceNumber_eq_iff`).
-/

namespace ArmyRs
namespace Foundation

/-- Two lists that are equal, with a separator that does not occur behind it, have
equal parts before and behind the separator. -/
theorem eq_of_append_cons_eq {α : Type*} {a b c d : List α} {separator : α}
    (h : a ++ separator :: b = c ++ separator :: d) (hb : separator ∉ b) (hd : separator ∉ d) :
    a = c ∧ b = d := by
  rcases List.append_eq_append_iff.mp h with ⟨middle, hc, hrest⟩ | ⟨middle, ha, hrest⟩
  · cases middle with
    | nil =>
        rw [List.nil_append] at hrest
        cases hrest
        exact ⟨by simpa using hc.symm, rfl⟩
    | cons first middle =>
        rw [List.cons_append, List.cons.injEq] at hrest
        exact absurd (hrest.2 ▸ List.mem_append_right middle List.mem_cons_self) hb
  · cases middle with
    | nil =>
        rw [List.nil_append] at hrest
        cases hrest
        exact ⟨by simpa using ha, rfl⟩
    | cons first middle =>
        rw [List.cons_append, List.cons.injEq] at hrest
        exact absurd (hrest.2 ▸ List.mem_append_right middle List.mem_cons_self) hd

/-- The digits of a number hold no character that is not a digit. -/
theorem notMem_toDigits {c : Char} (hc : c.isDigit = false) (n : Nat) : c ∉ Nat.toDigits 10 n := by
  intro hmem
  have hdigit : c.isDigit = true := Nat.isDigit_of_mem_toDigits (by decide) (by decide) hmem
  rw [hc] at hdigit
  cases hdigit

theorem minus_notMem_toDigits (n : Nat) : '-' ∉ Nat.toDigits 10 n :=
  notMem_toDigits (by decide) n

/-! ## The number at the end of a text -/

/-- A text of digits, with at least one. -/
def IsNumeral (text : String) : Prop :=
  text.toList ≠ [] ∧ ∀ c ∈ text.toList, c.isDigit = true

instance (text : String) : Decidable (IsNumeral text) :=
  @instDecidableAnd _ _ instDecidableNot (List.decidableBAll _ _)

/-- Puts a number in the place of the digits at the end, if there are any. -/
def replaceNumber (text : String) (n : Nat) : String :=
  let stem := text.toList.rdropWhile Char.isDigit
  if stem = text.toList then text else String.ofList (stem ++ Nat.toDigits 10 n)

theorem isNumeral_toString (n : Nat) : IsNumeral (toString n) := by
  unfold IsNumeral
  rw [Nat.toString_eq_repr, Nat.toList_repr]
  exact ⟨Nat.toDigits_ne_nil, fun c hc =>
    Nat.isDigit_of_mem_toDigits (by decide) (by decide) hc⟩

theorem replaceNumber_eq_iff (text : String) (n : Nat) :
    replaceNumber text n = toString n ↔ IsNumeral text := by
  have hnil : (∀ c ∈ text.toList, c.isDigit = true) ↔ text.toList.rdropWhile Char.isDigit = [] :=
    List.rdropWhile_eq_nil_iff.symm
  unfold replaceNumber
  dsimp only
  split
  · next hstem =>
    -- a text that does not end with a digit is no numeral
    have hnot : ¬ IsNumeral text := by
      rintro ⟨hne, hdigits⟩
      rw [hnil.mp hdigits] at hstem
      exact hne hstem.symm
    refine iff_of_false ?_ hnot
    rintro rfl
    exact hnot (isNumeral_toString n)
  · next hstem =>
    have hne : text.toList ≠ [] := by
      intro hempty
      rw [hempty] at hstem
      exact hstem rfl
    have hdigits : String.ofList (text.toList.rdropWhile Char.isDigit ++ Nat.toDigits 10 n) =
        toString n ↔ text.toList.rdropWhile Char.isDigit = [] := by
      rw [Nat.toString_eq_repr, ← String.toList_inj, Nat.toList_repr, String.toList_ofList]
      exact List.append_left_eq_self
    rw [hdigits, ← hnil]
    exact (and_iff_right hne).symm

end Foundation
end ArmyRs
