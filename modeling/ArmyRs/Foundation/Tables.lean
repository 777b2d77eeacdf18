import Mathlib.Data.List.AList
import Mathlib.Data.List.Perm.Subperm

/-!
# Association lists as tables

What association lists keep when keys are set and erased one after the other:
how many keys there are, and what a loop of erasures leaves.  `covers_iff` is the
pigeonhole behind counting messages instead of senders.
-/

namespace ArmyRs
namespace Foundation

section

variable {K : Type*} {V : K → Type*}

/-- Tables with the same keys have the same number of them. -/
theorem length_keys_congr {t t' : AList V} (h : ∀ k, k ∈ t' ↔ k ∈ t) :
    t'.keys.length = t.keys.length :=
  ((List.perm_ext_iff_of_nodup t'.keys_nodup t.keys_nodup).mpr h).length_eq

variable [DecidableEq K]

theorem exists_lookup {t : AList V} {k : K} (hk : k ∈ t) : ∃ v, t.lookup k = some v :=
  Option.isSome_iff_exists.mp (AList.lookup_isSome.mpr hk)

theorem mem_of_lookup {t : AList V} {k : K} {v : V k} (hv : t.lookup k = some v) : k ∈ t :=
  AList.lookup_isSome.mp (by rw [hv]; rfl)

theorem mem_insert_of_mem {t : AList V} {k : K} (hk : k ∈ t) (v : V k) (j : K) :
    j ∈ t.insert k v ↔ j ∈ t := by
  rw [AList.mem_insert]
  constructor
  · rintro (rfl | hj)
    · exact hk
    · exact hj
  · exact .inr

theorem length_keys_insert_of_notMem {t : AList V} {k : K} (hk : k ∉ t) (v : V k) :
    (t.insert k v).keys.length = t.keys.length + 1 := by
  rw [AList.keys_insert, List.length_cons, List.erase_of_not_mem hk]

theorem length_keys_insert_le (t : AList V) (k : K) (v : V k) :
    (t.insert k v).keys.length ≤ t.keys.length + 1 := by
  rw [AList.keys_insert, List.length_cons]
  exact Nat.succ_le_succ (List.length_erase_le)

theorem length_keys_erase_of_mem {t : AList V} {k : K} (hk : k ∈ t) :
    (t.erase k).keys.length + 1 = t.keys.length := by
  rw [AList.keys_erase, List.length_erase_of_mem hk]
  exact Nat.sub_add_cancel (List.length_pos_of_mem hk)

theorem lookup_erase_apply (t : AList V) (k j : K) :
    (t.erase k).lookup j = if j = k then none else t.lookup j := by
  split
  · next heq => rw [heq, AList.lookup_erase]
  · next hne => exact AList.lookup_erase_ne hne

theorem lookup_erase_eq_some {t : AList V} {k j : K} {v : V j} :
    (t.erase k).lookup j = some v ↔ t.lookup j = some v ∧ j ≠ k := by
  rw [lookup_erase_apply]
  split
  · next heq => simp [heq]
  · next hne => simp [hne]

theorem lookup_insert_apply {W : Type*} (t : AList fun _ : K => W) (k : K) (w : W) (j : K) :
    (t.insert k w).lookup j = if j = k then some w else t.lookup j := by
  split
  · next heq => rw [heq, AList.lookup_insert]
  · next hne => exact AList.lookup_insert_ne hne

/-- Erasing other keys does not change what a key holds. -/
theorem lookup_foldl_erase {ks : List K} {k : K} (hk : k ∉ ks) (t : AList V) :
    (ks.foldl (fun t k => t.erase k) t).lookup k = t.lookup k := by
  induction ks generalizing t with
  | nil => rfl
  | cons first ks ih =>
      rw [List.mem_cons, not_or] at hk
      rw [List.foldl_cons, ih hk.2, AList.lookup_erase_ne hk.1]

theorem mem_foldl_erase {ks : List K} {k : K} (t : AList V) :
    k ∈ ks.foldl (fun t k => t.erase k) t ↔ k ∈ t ∧ k ∉ ks := by
  induction ks generalizing t with
  | nil => simp
  | cons first ks ih =>
      rw [List.foldl_cons, ih, AList.mem_erase, List.mem_cons]
      tauto

/-- Setting the keys of some entries leaves the other keys as they are. -/
theorem lookup_foldl_insert {V W : Type*} {entries : List (Σ _ : K, V)}
    (hnodup : entries.NodupKeys) (f : V → W) (t : AList fun _ : K => W) (k : K) :
    (entries.foldl (fun t entry => t.insert entry.1 (f entry.2)) t).lookup k =
      ((entries.dlookup k).map f).or (t.lookup k) := by
  induction entries generalizing t with
  | nil => rfl
  | cons entry entries ih =>
      rw [List.nodupKeys_cons] at hnodup
      rw [List.foldl_cons, ih hnodup.2]
      by_cases hk : k = entry.1
      · subst hk
        have hnone : entries.dlookup entry.1 = none := List.dlookup_eq_none.mpr hnodup.1
        rw [hnone, AList.lookup_insert, List.dlookup_cons_eq]
        rfl
      · rw [AList.lookup_insert_ne hk, List.dlookup_cons_ne _ entry hk]

end

section

variable {K : Type*} {keys senders : List K}

/-- At least as many messages as keys, from different senders among the keys,
come from all of them. -/
theorem covers_of_nodup (hlength : keys.length ≤ senders.length) (hnodup : senders.Nodup)
    (hsubset : senders ⊆ keys) : keys ⊆ senders :=
  ((List.subperm_of_subset hnodup hsubset).perm_of_length_le hlength).symm.subset

/-- As many messages as keys come from all of them exactly when no two are from
the same sender and all senders are among the keys. -/
theorem covers_iff (hkeys : keys.Nodup) (hlength : senders.length = keys.length) :
    keys ⊆ senders ↔ senders.Nodup ∧ senders ⊆ keys := by
  constructor
  · intro hcovers
    have hperm : keys.Perm senders :=
      (List.subperm_of_subset hkeys hcovers).perm_of_length_le (Nat.le_of_eq hlength)
    exact ⟨hperm.nodup_iff.mp hkeys, hperm.symm.subset⟩
  · rintro ⟨hnodup, hsubset⟩
    exact covers_of_nodup (Nat.le_of_eq hlength.symm) hnodup hsubset

end

end Foundation
end ArmyRs
