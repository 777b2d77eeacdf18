import Mathlib.Data.List.Count
import Mathlib.Data.Int.Notation

/-!
# List commands of Redis

A Redis list is a list whose head is its left end.  For each command that moves
or removes elements there is a lemma that says how often a value occurs
afterwards: this is what accounting for every element needs.
-/

namespace ArmyRs
namespace Foundation

variable {α : Type*}

/-- The rank that an index names: a negative one counts from the end, the last element
being `-1`. -/
def rankOf (length : Nat) (index : ℤ) : ℤ :=
  if index < 0 then length + index else index

/-- `ltrim`: only the elements from the index `start` to the index `stop` are kept. -/
def ltrim (start stop : ℤ) (list : List α) : List α :=
  let first := (rankOf list.length start).toNat
  let last := rankOf list.length stop
  (list.take (last + 1).toNat).drop first

/-- `lpush` of some values, one after the other. -/
def lpush (values list : List α) : List α :=
  values.foldl (fun list value => value :: list) list

/-- `rpoplpush`: the last element of the source becomes the first of the
destination. -/
def rpoplpush (source destination : List α) : Option (α × List α × List α) :=
  match source.getLast? with
  | none => none
  | some value => some (value, source.dropLast, value :: destination)

variable [DecidableEq α]

/-- Removes the value as often as told, from the left. -/
def eraseTimes (value : α) : Nat → List α → List α
  | 0, list => list
  | count + 1, list => eraseTimes value count (list.erase value)

/-- `lrem`: with a count of zero every element equal to the value is removed, with
another count that many from the left. -/
def lrem (count : Nat) (value : α) (list : List α) : List α :=
  if count = 0 then list.filter fun element => element ≠ value else eraseTimes value count list

omit [DecidableEq α] in
theorem lpush_eq (values list : List α) : lpush values list = values.reverse ++ list := by
  unfold lpush
  induction values generalizing list with
  | nil => rfl
  | cons value values ih => simp [ih]

omit [DecidableEq α] in
/-- The last elements are kept, as many as told. -/
theorem ltrim_last (count : Nat) (hcount : 0 < count) (list : List α) :
    ltrim (-(count : ℤ)) (-1) list = list.drop (list.length - count) := by
  have hstart : (rankOf list.length (-(count : ℤ))).toNat = list.length - count := by
    unfold rankOf
    rw [if_pos (by omega)]
    omega
  have hstop : (rankOf list.length (-1) + 1).toNat = list.length := by
    unfold rankOf
    rw [if_pos (by omega)]
    omega
  unfold ltrim
  simp only [hstart, hstop, List.take_length]

theorem count_lpush (a : α) (values list : List α) :
    (lpush values list).count a = values.count a + list.count a := by
  rw [lpush_eq, List.count_append, List.count_reverse]

omit [DecidableEq α] in
theorem rpoplpush_eq_some {source destination source' destination' : List α} {value : α}
    (h : rpoplpush source destination = some (value, source', destination')) :
    source = source' ++ [value] ∧ destination' = value :: destination := by
  unfold rpoplpush at h
  split at h
  · cases h
  · next last hlast =>
    cases h
    obtain ⟨front, rfl⟩ := List.getLast?_eq_some_iff.mp hlast
    simp

/-- Nothing is lost between the two lists. -/
theorem count_rpoplpush {source destination source' destination' : List α} {value : α}
    (h : rpoplpush source destination = some (value, source', destination')) (a : α) :
    source'.count a + destination'.count a = source.count a + destination.count a := by
  obtain ⟨rfl, rfl⟩ := rpoplpush_eq_some h
  rw [List.count_append, List.count_cons, List.count_singleton]
  omega

theorem count_lrem_zero_self (value : α) (list : List α) : (lrem 0 value list).count value = 0 := by
  rw [List.count_eq_zero]
  simp [lrem]

theorem count_lrem_zero_of_ne {a value : α} (hne : a ≠ value) (list : List α) :
    (lrem 0 value list).count a = list.count a := by
  unfold lrem
  rw [if_pos rfl, List.count_filter]
  simpa using hne

/-- A single element is removed from where it is. -/
theorem lrem_zero_of_count_eq_one {value : α} {list : List α} (h : list.count value = 1) :
    ∃ before after, list = before ++ value :: after ∧ lrem 0 value list = before ++ after := by
  have hmem : value ∈ list := List.count_pos_iff.mp (by omega)
  obtain ⟨before, after, rfl⟩ := List.append_of_mem hmem
  rw [List.count_append, List.count_cons_self] at h
  have hbefore : value ∉ before := List.count_eq_zero.mp (by omega)
  have hafter : value ∉ after := List.count_eq_zero.mp (by omega)
  refine ⟨before, after, rfl, ?_⟩
  have hkeep : ∀ part : List α, value ∉ part →
      (part.filter fun element => element ≠ value) = part := by
    intro part hpart
    rw [List.filter_eq_self]
    intro element helement
    have hne : element ≠ value := by
      rintro rfl
      exact hpart helement
    simpa using hne
  unfold lrem
  rw [if_pos rfl, List.filter_append, List.filter_cons_of_neg (by simp), hkeep before hbefore,
    hkeep after hafter]

theorem lrem_one (value : α) (list : List α) : lrem 1 value list = list.erase value := rfl

end Foundation
end ArmyRs
