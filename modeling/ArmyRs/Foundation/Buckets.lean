import Mathlib.Tactic

/-!
# Items sorted into lists

A family of lists keeps items by a key, each list in the order of the items
(`Bucketed`).  An item is put at the end of its list (`putInto`), a list is taken as a
whole (`Bucketed.clear`), and when the keys change, the items of one list are put into
their new lists (`Bucketed.rebucket`).
-/

namespace ArmyRs
namespace Foundation

variable {α β κ : Type*} [DecidableEq κ]

/-- The list of a key has the items of that key, in their order. -/
def Bucketed (key : α → κ) (payload : α → β) (items : List α) (lists : κ → List β) : Prop :=
  ∀ k, lists k = (items.filter fun a => key a = k).map payload

/-- One more item, at the end of its list. -/
def putInto (keyOf : β → κ) (lists : κ → List β) (b : β) : κ → List β :=
  Function.update lists (keyOf b) (lists (keyOf b) ++ [b])

theorem putInto_apply (keyOf : β → κ) (lists : κ → List β) (b : β) (k : κ) :
    putInto keyOf lists b k = lists k ++ [b].filter fun b => keyOf b = k := by
  unfold putInto
  by_cases hk : k = keyOf b
  · subst hk
    simp
  · simp [Function.update_of_ne hk, Ne.symm hk]

theorem foldl_putInto (keyOf : β → κ) (lists : κ → List β) (bs : List β) (k : κ) :
    bs.foldl (putInto keyOf) lists k = lists k ++ bs.filter fun b => keyOf b = k := by
  induction bs generalizing lists with
  | nil => simp
  | cons b rest ih =>
      rw [List.foldl_cons, ih, putInto_apply, List.append_assoc, ← List.filter_append]
      rfl

section

variable {key key' : α → κ} {payload : α → β} {items : List α} {lists : κ → List β}
  {keyOf : β → κ}

theorem bucketed_nil : Bucketed key payload [] fun _ => [] := fun _ => rfl

theorem Bucketed.putInto (h : Bucketed key payload items lists) {a : α}
    (ha : keyOf (payload a) = key a) :
    Bucketed key payload (items ++ [a]) (putInto keyOf lists (payload a)) := by
  intro k
  rw [putInto_apply, h k, List.filter_append, List.map_append]
  by_cases hk : key a = k <;> simp [ha, hk]

theorem Bucketed.clear (h : Bucketed key payload items lists) (m : κ) :
    Bucketed key payload (items.filter fun a => key a ≠ m) (Function.update lists m []) := by
  intro k
  rw [List.filter_filter]
  by_cases hk : k = m
  · subst hk
    simp
  · rw [Function.update_of_ne hk, h k]
    congr 1
    refine List.filter_congr fun a _ => ?_
    by_cases ha : key a = k
    · simp [ha, hk]
    · simp [ha]

/-- Other keys that agree on all items. -/
theorem Bucketed.congr (h : Bucketed key payload items lists)
    (hkeys : ∀ a ∈ items, key' a = key a) : Bucketed key' payload items lists := by
  intro k
  rw [h k]
  congr 1
  exact List.filter_congr fun a ha => by rw [hkeys a ha]

/-- The items of one list get new keys, which no other item has. -/
theorem Bucketed.rebucket {m : κ} (h : Bucketed key payload items lists)
    (hkeyOf : ∀ a ∈ items, key a = m → keyOf (payload a) = key' a)
    (hstay : ∀ a ∈ items, key a ≠ m → key' a = key a)
    (hapart : ∀ a ∈ items, key a = m → ∀ b ∈ items, key b ≠ m → key' a ≠ key b) :
    Bucketed key' payload items
      ((lists m).foldl (Foundation.putInto keyOf) (Function.update lists m [])) := by
  intro k
  have hmoved : (lists m).filter (fun b => keyOf b = k) =
      ((items.filter fun a => key a = m).filter fun a => key' a = k).map payload := by
    rw [h m, List.filter_map]
    congr 1
    refine List.filter_congr fun a ha => ?_
    obtain ⟨hmem, hkey⟩ := List.mem_filter.mp ha
    simp only [Function.comp_apply]
    rw [hkeyOf a hmem (of_decide_eq_true hkey)]
  rw [foldl_putInto, hmoved, List.filter_filter]
  by_cases hold : ∃ b ∈ items, key b ≠ m ∧ key b = k
  · -- a list that stays, to which nothing is moved
    obtain ⟨b, hb, hbm, rfl⟩ := hold
    have hnone : (items.filter fun a => key' a = key b && key a = m) = [] := by
      refine List.filter_eq_nil_iff.mpr fun a ha => ?_
      rw [Bool.and_eq_true, decide_eq_true_eq, decide_eq_true_eq]
      exact fun hboth => hapart a ha hboth.2 b hb hbm hboth.1
    rw [hnone, List.map_nil, List.append_nil, Function.update_of_ne hbm, h (key b)]
    congr 1
    refine List.filter_congr fun a ha => ?_
    by_cases ham : key a = m
    · have hne : key' a ≠ key b := hapart a ha ham b hb hbm
      simp [hne, ham, Ne.symm hbm]
    · rw [hstay a ha ham]
  · -- a list that was empty, or the one that is moved
    push Not at hold
    have hempty : Function.update lists m [] k = [] := by
      by_cases hk : k = m
      · rw [hk, Function.update_self]
      · rw [Function.update_of_ne hk, h k, List.map_eq_nil_iff, List.filter_eq_nil_iff]
        intro a ha hkey
        have hkey' : key a = k := of_decide_eq_true hkey
        exact hold a ha (fun ham => hk (hkey'.symm.trans ham)) hkey'
    rw [hempty, List.nil_append]
    congr 1
    refine List.filter_congr fun a ha => ?_
    by_cases ham : key a = m
    · simp [ham]
    · have hne : key' a ≠ k := by
        rw [hstay a ha ham]
        exact hold a ha ham
      simp [hne]

end

end Foundation
end ArmyRs
