import Mathlib.Tactic

/-!
# Tables without collisions

An item stands in the slot of its key modulo the number of slots, and no two items share a
slot.  `direct` looks a key up.  An item is put into an empty slot (`direct_put`) or taken
out (`direct_clear`); when all slots are full their number is doubled, and every item keeps
its key (`regrow_spec`).
-/

namespace ArmyRs
namespace Foundation

variable {α : Type*}

/-- Every item stands in the slot of its key. -/
def Hashed (key : α → ℕ) (size : ℕ) (slot : ℕ → Option α) : Prop :=
  ∀ i < size, ∀ a, slot i = some a → key a % size = i

/-- The item with the key. -/
def direct (key : α → ℕ) (size : ℕ) (slot : ℕ → Option α) (k : ℕ) : Option α :=
  (slot (k % size)).filter fun a => key a = k

/-- The items are moved, in the order of their slots, to their places in another table, which
are to be empty. -/
def regrow (place : α → ℕ) (size : ℕ) (slot : ℕ → Option α) : Option (ℕ → Option α) :=
  (List.range size).foldlM (fun new i =>
    match slot i with
    | none => none
    | some a => if (new (place a)).isSome then none else some (Function.update new (place a) (some a)))
    fun _ => none

section

variable {key place : α → ℕ} {size k k' : ℕ} {slot : ℕ → Option α} {a : α}

theorem direct_eq_some_iff : direct key size slot k = some a ↔ slot (k % size) = some a ∧ key a = k := by
  simp [direct, Option.filter_eq_some_iff]

theorem direct_put (hfree : slot (key a % size) = none) :
    direct key size (Function.update slot (key a % size) (some a)) k =
      if key a = k then some a else direct key size slot k := by
  unfold direct
  by_cases hslot : k % size = key a % size
  · rw [hslot, Function.update_self, hfree]
    simp [Option.filter]
  · have hne : key a ≠ k := fun h => hslot (by rw [h])
    rw [Function.update_of_ne hslot, if_neg hne]

theorem direct_clear (h : direct key size slot k = some a) :
    direct key size (Function.update slot (k % size) none) k' =
      if k' = k then none else direct key size slot k' := by
  obtain ⟨hslot, hkey⟩ := direct_eq_some_iff.mp h
  unfold direct
  by_cases heq : k' % size = k % size
  · rw [heq, Function.update_self, hslot]
    by_cases hk : k' = k
    · simp [hk]
    · have hne : key a ≠ k' := fun h => hk (by omega)
      simp [hk, hne, Option.filter]
  · have hk : k' ≠ k := fun h => heq (by rw [h])
    rw [Function.update_of_ne heq, if_neg hk]

theorem Hashed.put (h : Hashed key size slot) :
    Hashed key size (Function.update slot (key a % size) (some a)) := by
  intro i hi b hb
  by_cases heq : i = key a % size
  · rw [heq, Function.update_self] at hb
    cases hb
    exact heq.symm
  · rw [Function.update_of_ne heq] at hb
    exact h i hi b hb

theorem Hashed.clear (h : Hashed key size slot) (j : ℕ) :
    Hashed key size (Function.update slot j none) := by
  intro i hi b hb
  by_cases heq : i = j
  · rw [heq, Function.update_self] at hb
    cases hb
  · rw [Function.update_of_ne heq] at hb
    exact h i hi b hb

/-- The larger table, when the first `count` slots have been moved. -/
def moved (place : α → ℕ) (size : ℕ) (slot : ℕ → Option α) (count j : ℕ) : Option α :=
  if j % size < count then (slot (j % size)).filter fun a => place a = j else none

/-- All slots are full, and a place in the larger table is one of the same slot. -/
theorem regrow_eq (hfull : ∀ i < size, (slot i).isSome)
    (hplace : ∀ i < size, ∀ a, slot i = some a → place a % size = i) :
    regrow place size slot = some (moved place size slot size) := by
  suffices hprefix : ∀ count ≤ size, (List.range count).foldlM (fun new i =>
      match slot i with
      | none => none
      | some a =>
          if (new (place a)).isSome then none else some (Function.update new (place a) (some a)))
      (fun _ => none) = some (moved place size slot count) from hprefix size le_rfl
  intro count hcount
  induction count with
  | zero =>
      rw [List.range_zero, List.foldlM_nil]
      rfl
  | succ count ih =>
      obtain ⟨a, ha⟩ := Option.isSome_iff_exists.mp (hfull count hcount)
      have hhome := hplace count hcount a ha
      have hempty : moved place size slot count (place a) = none := by
        rw [moved, hhome, if_neg (lt_irrefl _)]
      rw [List.range_succ, List.foldlM_append, ih (by omega)]
      simp only [Option.bind_eq_bind, Option.bind_some, List.foldlM_cons, List.foldlM_nil, ha, hempty,
        Option.isSome_none, Bool.false_eq_true, if_false]
      refine congrArg some (funext fun j => ?_)
      by_cases hj : j = place a
      · rw [hj, Function.update_self, moved, hhome, if_pos (Nat.lt_succ_self _), ha]
        simp [Option.filter]
      · rw [Function.update_of_ne hj, moved, moved]
        by_cases hsame : j % size = count
        · rw [hsame, if_neg (lt_irrefl _), if_pos (Nat.lt_succ_self _), ha]
          simp [Option.filter, Ne.symm hj]
        · by_cases hlt : j % size < count
          · rw [if_pos hlt, if_pos (by omega)]
          · rw [if_neg hlt, if_neg (by omega)]

/-- Twice as many slots, and the same items under the same keys. -/
theorem regrow_spec (hsize : 0 < size) (h : Hashed key size slot)
    (hfull : ∀ i < size, (slot i).isSome) (hplace : ∀ a, place a = key a % (size * 2)) :
    ∃ new, regrow place size slot = some new ∧ Hashed key (size * 2) new ∧
      ∀ k, direct key (size * 2) new k = direct key size slot k := by
  have hmod : ∀ k, k % (size * 2) % size = k % size := fun k =>
    Nat.mod_mod_of_dvd k (Nat.dvd_mul_right size 2)
  refine ⟨_, regrow_eq hfull fun i hi a ha => ?_, fun j _ a ha => ?_, fun k => ?_⟩
  · rw [hplace, hmod, h i hi a ha]
  · rw [moved] at ha
    split at ha
    · rw [← hplace]
      simpa using (Option.filter_eq_some_iff.mp ha).2
    · cases ha
  · ext a
    rw [direct_eq_some_iff, direct_eq_some_iff, moved, hmod, if_pos (Nat.mod_lt _ hsize),
      Option.filter_eq_some_iff, hplace]
    constructor
    · rintro ⟨⟨hslot, -⟩, hkey⟩
      exact ⟨hslot, hkey⟩
    · rintro ⟨hslot, hkey⟩
      exact ⟨⟨hslot, by simp [hkey]⟩, hkey⟩

end

end Foundation
end ArmyRs
