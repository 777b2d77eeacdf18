import Mathlib.Data.List.Nodup
import Mathlib.Data.List.Perm.Subperm
import Mathlib.Logic.Function.Basic

/-!
# Queues under keys, and ordered tables

`contents keys queues` lists what the queues under `keys` hold.  The lemmas say
what pushing to a queue, shifting from it and filtering all queues does to the
contents, up to the order.

`put` writes a record into a table that is kept in the order of insertion: a
record under a known key takes the place of the old one.
-/

namespace ArmyRs
namespace Foundation

/-- A relation that holds between any two places of a list holds between any
two places of a list with fewer elements. -/
theorem pairwise_of_subperm {α : Type*} {R : α → α → Prop} (hsymm : ∀ a b, R a b → R b a)
    {shorter longer : List α} (hsub : shorter.Subperm longer) (hlonger : longer.Pairwise R) :
    shorter.Pairwise R := by
  obtain ⟨middle, hperm, hsublist⟩ := hsub
  exact (hperm.pairwise_iff (fun h => hsymm _ _ h)).mp (hlonger.sublist hsublist)

/-- The values at fewer places still differ. -/
theorem nodup_map_of_subperm {α β : Type*} {f : α → β} {shorter longer : List α}
    (hsub : shorter.Subperm longer) (hlonger : (longer.map f).Nodup) : (shorter.map f).Nodup := by
  obtain ⟨middle, hperm, hsublist⟩ := hsub
  exact (hperm.map f).nodup_iff.mp (hlonger.sublist (hsublist.map f))

instance subpermTrans {α : Type*} : Trans (@List.Subperm α) (@List.Subperm α) (@List.Subperm α) :=
  ⟨List.Subperm.trans⟩

section

variable {κ α : Type*} [DecidableEq κ] {keys : List κ} {queues : κ → List α} {key : κ}

/-- What the queues under `keys` hold, one queue after the other. -/
def contents (keys : List κ) (queues : κ → List α) : List α :=
  keys.flatMap queues

/-- The contents are one queue and the queues under the other keys. -/
theorem contents_perm_queue (hkey : key ∈ keys) :
    (contents keys queues).Perm (queues key ++ contents (keys.erase key) queues) :=
  (List.perm_cons_erase hkey).flatMap_right queues

/-- A queue that is replaced leaves the other queues as they are. -/
theorem contents_update_perm (hkeys : keys.Nodup) (hkey : key ∈ keys) (queue : List α) :
    (contents keys (Function.update queues key queue)).Perm
      (queue ++ contents (keys.erase key) queues) := by
  have hrest : contents (keys.erase key) (Function.update queues key queue) =
      contents (keys.erase key) queues := by
    unfold contents
    apply List.flatMap_congr
    intro other hother
    have hne : other ≠ key := by
      rintro rfl
      exact hkeys.not_mem_erase hother
    exact Function.update_of_ne hne _ _
  have hperm : (contents keys (Function.update queues key queue)).Perm _ :=
    contents_perm_queue hkey
  rw [Function.update_self, hrest] at hperm
  exact hperm

/-- What a replaced queue changes in a count over all queues. -/
theorem countP_contents_update (hkeys : keys.Nodup) (hkey : key ∈ keys) (queue : List α)
    (p : α → Bool) :
    (contents keys (Function.update queues key queue)).countP p + (queues key).countP p =
      (contents keys queues).countP p + queue.countP p := by
  have hnew : (contents keys (Function.update queues key queue)).countP p = _ :=
    (contents_update_perm hkeys hkey queue).countP_eq p
  have hold : (contents keys queues).countP p = _ := (contents_perm_queue hkey).countP_eq p
  rw [List.countP_append] at hnew hold
  omega

/-- Pushing to the end of a queue. -/
theorem contents_push_perm (hkeys : keys.Nodup) (hkey : key ∈ keys) (items : List α) :
    (contents keys (Function.update queues key (queues key ++ items))).Perm
      (contents keys queues ++ items) := by
  calc
    contents keys (Function.update queues key (queues key ++ items))
    _ |>.Perm ((queues key ++ items) ++ contents (keys.erase key) queues) :=
        contents_update_perm hkeys hkey _
    _ |>.Perm ((queues key ++ contents (keys.erase key) queues) ++ items) := by
        rw [List.append_assoc, List.append_assoc]
        exact List.perm_append_comm.append_left _
    _ |>.Perm (contents keys queues ++ items) :=
        (contents_perm_queue hkey).symm.append_right _

/-- Shifting the first `count` items from a queue. -/
theorem contents_drop_perm (hkeys : keys.Nodup) (hkey : key ∈ keys) (count : Nat) :
    (contents keys (Function.update queues key ((queues key).drop count)) ++
      (queues key).take count).Perm (contents keys queues) := by
  have hupdate : (contents keys (Function.update queues key ((queues key).drop count))).Perm _ :=
    contents_update_perm hkeys hkey _
  refine (hupdate.append_right _).trans ?_
  refine List.perm_append_comm.trans ?_
  rw [← List.append_assoc, List.take_append_drop]
  exact (contents_perm_queue hkey).symm

omit [DecidableEq κ] in
/-- Filtering every queue filters the contents. -/
theorem contents_filter (keep : α → Bool) :
    contents keys (fun key => (queues key).filter keep) = (contents keys queues).filter keep := by
  unfold contents
  rw [List.filter_flatMap]

end

section

variable {κ α : Type*} [DecidableEq κ]

/-- `table[key] = record`, in the order of insertion. -/
def put (keyOf : α → κ) (record : α) : List α → List α
  | [] => [record]
  | first :: rest =>
      if keyOf first = keyOf record then record :: rest else first :: put keyOf record rest

/-- A written table holds the record and nothing else that is new. -/
theorem put_subperm (keyOf : α → κ) (record : α) (table : List α) :
    (put keyOf record table).Subperm (record :: table) := by
  induction table with
  | nil => exact List.Subperm.refl _
  | cons first rest ih =>
      unfold put
      split
      · exact ((List.sublist_cons_self first rest).cons_cons record).subperm
      · exact ((List.subperm_cons first).mpr ih).trans (List.Perm.swap _ _ _).subperm

/-- A record under a key that is found takes the place of the record found. -/
theorem put_of_find {keyOf : α → κ} {key : κ} {found : α} {table : List α}
    (hfound : table.find? (fun record => decide (keyOf record = key)) = some found) :
    ∃ before after, table = before ++ found :: after ∧
      ∀ record, keyOf record = key → put keyOf record table = before ++ record :: after := by
  induction table with
  | nil => cases hfound
  | cons first rest ih =>
      rw [List.find?_cons] at hfound
      split at hfound
      · next hkey =>
        cases hfound
        refine ⟨[], rest, rfl, ?_⟩
        intro record hrecord
        unfold put
        rw [if_pos]
        · rfl
        · rw [hrecord]
          exact of_decide_eq_true hkey
      · next hkey =>
        obtain ⟨before, after, htable, hput⟩ := ih hfound
        refine ⟨first :: before, after, by rw [htable]; rfl, ?_⟩
        intro record hrecord
        unfold put
        rw [if_neg, hput record hrecord]
        · rfl
        · rw [hrecord]
          exact of_decide_eq_false hkey

/-- The keys of a written table: the old ones, and the new one at the end unless
it is there already. -/
theorem map_put (keyOf : α → κ) (record : α) (table : List α) :
    (put keyOf record table).map keyOf =
      if keyOf record ∈ table.map keyOf then table.map keyOf
      else table.map keyOf ++ [keyOf record] := by
  induction table with
  | nil => rfl
  | cons first rest ih =>
      unfold put
      by_cases hkey : keyOf first = keyOf record
      · rw [if_pos hkey, List.map_cons, List.map_cons, hkey, if_pos List.mem_cons_self]
      · rw [if_neg hkey, List.map_cons, List.map_cons, ih]
        by_cases hrest : keyOf record ∈ rest.map keyOf
        · rw [if_pos hrest, if_pos (List.mem_cons_of_mem _ hrest)]
        · rw [if_neg hrest, if_neg, List.cons_append]
          exact fun hmem => hrest ((List.mem_cons.mp hmem).resolve_left (Ne.symm hkey))

theorem put_nodup {keyOf : α → κ} {table : List α} (htable : (table.map keyOf).Nodup)
    (record : α) : ((put keyOf record table).map keyOf).Nodup := by
  rw [map_put]
  split
  · exact htable
  · next hnew =>
    rw [List.nodup_append]
    refine ⟨htable, List.nodup_singleton _, ?_⟩
    intro key hkey other hother
    rw [List.mem_singleton.mp hother]
    rintro rfl
    exact hnew hkey

theorem nodup_eraseDups (list : List κ) : list.eraseDups.Nodup := by
  induction hlength : list.length using Nat.strongRecOn generalizing list with
  | _ length ih =>
      cases list with
      | nil => exact List.nodup_nil
      | cons first rest =>
          rw [List.eraseDups_cons, List.nodup_cons]
          constructor
          · rw [List.mem_eraseDups, List.mem_filter]
            simp
          · refine ih _ ?_ _ rfl
            subst hlength
            exact Nat.lt_succ_of_le (List.length_filter_le _ _)

end

end Foundation
end ArmyRs
