import Mathlib.Data.List.AList

/-!
# Tables that refer to tables

A value is a scalar or a reference to a table, and a heap has the contents of
the tables.  Two values are structurally the same when every path of keys leads
to the same scalar from both, to tables from both, or nowhere from both
(`Heap.Same`).  This says nothing about which objects the tables are, and asks
for nothing about how deep they are nested.
-/

namespace ArmyRs
namespace Foundation

inductive Node (α : Type*)
  | scalar (value : α)
  | table (ref : Nat)
  deriving DecidableEq

/-- What a table holds. -/
abbrev Fields (κ α : Type*) := AList fun _ : κ => Node α

abbrev Heap (κ α : Type*) := Nat → Fields κ α

section

variable {κ α : Type*} [DecidableEq κ] {heap : Heap κ α}

/-- What a path leads to: a scalar, a table (`some none`), or nothing. -/
def Heap.follow (heap : Heap κ α) : Node α → List κ → Option (Option α)
  | .scalar value, [] => some (some value)
  | .table _, [] => some none
  | .scalar _, _ :: _ => none
  | .table ref, key :: path => ((heap ref).lookup key).bind fun node => heap.follow node path

/-- The two values are structurally the same. -/
def Heap.Same (heap : Heap κ α) (a b : Node α) : Prop :=
  ∀ path, heap.follow a path = heap.follow b path

/-- The same paths lead on from the fields. -/
def Heap.SameFields (heap : Heap κ α) (a b : κ → Option (Node α)) : Prop :=
  ∀ key path, ((a key).bind fun node => heap.follow node path) =
    (b key).bind fun node => heap.follow node path

theorem Heap.Same.refl (a : Node α) : heap.Same a a :=
  fun _ => rfl

theorem Heap.SameFields.refl (a : κ → Option (Node α)) : heap.SameFields a a :=
  fun _ _ => rfl

theorem Heap.SameFields.symm {a b : κ → Option (Node α)} (h : heap.SameFields a b) :
    heap.SameFields b a :=
  fun key path => (h key path).symm

theorem Heap.SameFields.trans {a b c : κ → Option (Node α)} (hab : heap.SameFields a b)
    (hbc : heap.SameFields b c) : heap.SameFields a c :=
  fun key path => (hab key path).trans (hbc key path)

@[simp] theorem Heap.same_scalar {value other : α} :
    heap.Same (.scalar value) (.scalar other) ↔ value = other := by
  constructor
  · intro h
    simpa [follow] using h []
  · rintro rfl
    exact Same.refl _

/-- A table is not the same as a scalar. -/
@[simp] theorem Heap.not_same_table_scalar {ref : Nat} {value : α} :
    ¬ heap.Same (.table ref) (.scalar value) := by
  intro h
  simpa [follow] using h []

@[simp] theorem Heap.not_same_scalar_table {ref : Nat} {value : α} :
    ¬ heap.Same (.scalar value) (.table ref) := by
  intro h
  simpa [follow] using h []

/-- Tables are the same when their fields are. -/
theorem Heap.same_table {r s : Nat} :
    heap.Same (.table r) (.table s) ↔
      heap.SameFields (fun key => (heap r).lookup key) fun key => (heap s).lookup key := by
  constructor
  · exact fun h key path => h (key :: path)
  · intro h path
    cases path with
    | nil => rfl
    | cons key path => exact h key path

/-- A path of no keys leads somewhere. -/
theorem Heap.follow_nil (node : Node α) : heap.follow node [] ≠ none := by
  cases node <;> simp [follow]

theorem Heap.SameFields.of_none {a b : κ → Option (Node α)} (h : heap.SameFields a b) {key : κ}
    (ha : a key = none) : b key = none := by
  have hkey := h key []
  rw [ha, Option.bind_none] at hkey
  cases hb : b key with
  | none => rfl
  | some node =>
      rw [hb, Option.bind_some] at hkey
      exact absurd hkey.symm (follow_nil node)

theorem Heap.SameFields.of_some {a b : κ → Option (Node α)} (h : heap.SameFields a b) {key : κ}
    {node : Node α} (ha : a key = some node) :
    ∃ other, b key = some other ∧ heap.Same node other := by
  cases hb : b key with
  | none =>
      rw [h.symm.of_none hb] at ha
      cases ha
  | some other =>
      refine ⟨other, rfl, fun path => ?_⟩
      simpa [ha, hb] using h key path

/-- Fields are compared key by key. -/
theorem Heap.sameFields_of {a b : κ → Option (Node α)} (hnone : ∀ key, a key = none → b key = none)
    (hsome : ∀ key node, a key = some node → ∃ other, b key = some other ∧ heap.Same node other) :
    heap.SameFields a b := by
  intro key path
  cases ha : a key with
  | none => rw [hnone key ha]
  | some node =>
      obtain ⟨other, hb, hsame⟩ := hsome key node ha
      rw [hb, Option.bind_some, Option.bind_some]
      exact hsame path

end

end Foundation
end ArmyRs
