import Mathlib.Data.List.Basic
import Mathlib.Data.List.Nodup

/-!
# Pools of objects

A pool lends objects out and takes them back, to be lent again.  It works as long
as nobody gives back what is not his: then no object that is in use lies in the
pool (`Pool.Apart`).
-/

namespace ArmyRs
namespace Foundation

/-- Objects are numbers; `created` is the next one that is made. -/
structure Pool where
  pond : List Nat
  created : Nat
  maxSize : Nat
  deriving DecidableEq, Repr

namespace Pool

def new (maxSize : Nat) : Pool := ⟨[], 0, maxSize⟩

/-- The last object of the pond, or a new one. -/
def borrow (pool : Pool) : Nat × Pool :=
  match pool.pond.getLast? with
  | some object => (object, { pool with pond := pool.pond.dropLast })
  | none => (pool.created, { pool with created := pool.created + 1 })

/-- An object comes back; a full pond does not take it. -/
def recycle (pool : Pool) (object : Nat) : Pool :=
  if pool.pond.length < pool.maxSize then { pool with pond := pool.pond ++ [object] } else pool

/-- No object in use lies in the pond, and none does so twice. -/
structure Apart (pool : Pool) (used : Nat → Prop) : Prop where
  nodup : pool.pond.Nodup
  unused : ∀ object ∈ pool.pond, ¬ used object
  pond_lt : ∀ object ∈ pool.pond, object < pool.created
  used_lt : ∀ object, used object → object < pool.created

section

variable {pool : Pool} {used less : Nat → Prop} {object : Nat}

theorem apart_new (maxSize : Nat) (hnone : ∀ object, ¬ used object) : (new maxSize).Apart used where
  nodup := List.nodup_nil
  unused := fun _ h => nomatch h
  pond_lt := fun _ h => nomatch h
  used_lt := fun object h => absurd h (hnone object)

/-- What is not used any more may be lost. -/
theorem Apart.mono (h : pool.Apart used) (hless : ∀ object, less object → used object) :
    pool.Apart less where
  nodup := h.nodup
  unused := fun object hobject hused => h.unused object hobject (hless object hused)
  pond_lt := h.pond_lt
  used_lt := fun object hused => h.used_lt object (hless object hused)

/-- A borrowed object is not in use yet. -/
theorem Apart.borrow_unused (h : pool.Apart used) : ¬ used pool.borrow.1 := by
  unfold borrow
  cases hlast : pool.pond.getLast? with
  | none => exact fun hused => Nat.lt_irrefl _ (h.used_lt _ hused)
  | some object => exact h.unused object (List.mem_of_getLast? hlast)

/-- Afterwards it is in use. -/
theorem Apart.borrow (h : pool.Apart used) :
    pool.borrow.2.Apart fun object => used object ∨ object = pool.borrow.1 := by
  unfold Pool.borrow
  cases hlast : pool.pond.getLast? with
  | none =>
      have hpond : pool.pond = [] := List.getLast?_eq_none_iff.mp hlast
      constructor
      · exact h.nodup
      · intro object hobject
        simp [hpond] at hobject
      · exact fun object hobject => Nat.lt_succ_of_lt (h.pond_lt object hobject)
      · rintro object (hused | rfl)
        · exact Nat.lt_succ_of_lt (h.used_lt object hused)
        · exact Nat.lt_succ_self _
  | some last =>
      have hpond : pool.pond.dropLast ++ [last] = pool.pond := List.dropLast_append_getLast? _ hlast
      have hnodup : (pool.pond.dropLast ++ [last]).Nodup := by
        rw [hpond]
        exact h.nodup
      have hmem : ∀ object ∈ pool.pond.dropLast, object ∈ pool.pond :=
        fun object hobject => List.dropLast_subset _ hobject
      constructor
      · exact (List.nodup_append.mp hnodup).1
      · rintro object hobject (hused | rfl)
        · exact h.unused object (hmem object hobject) hused
        · exact (List.nodup_append.mp hnodup).2.2 _ hobject _ (List.mem_singleton_self _) rfl
      · exact fun object hobject => h.pond_lt object (hmem object hobject)
      · rintro object (hused | rfl)
        · exact h.used_lt object hused
        · exact h.pond_lt _ (List.mem_of_getLast? hlast)

/-- Who gives an object back does not use it any more. -/
theorem Apart.recycle (h : pool.Apart used) (hobject : used object)
    (hless : ∀ other, less other → used other ∧ other ≠ object) :
    (pool.recycle object).Apart less := by
  have hrest : pool.Apart less := h.mono fun other hother => (hless other hother).1
  unfold Pool.recycle
  split
  · constructor
    · rw [List.nodup_append]
      refine ⟨h.nodup, List.nodup_singleton object, ?_⟩
      rintro other hother _ hlast rfl
      rw [List.mem_singleton] at hlast
      exact h.unused other hother (hlast ▸ hobject)
    · intro other hother hused
      rcases List.mem_append.mp hother with hold | hnew
      · exact hrest.unused other hold hused
      · exact (hless other hused).2 (List.mem_singleton.mp hnew)
    · intro other hother
      rcases List.mem_append.mp hother with hold | hnew
      · exact h.pond_lt other hold
      · rw [List.mem_singleton.mp hnew]
        exact h.used_lt object hobject
    · exact hrest.used_lt
  · exact hrest

/-- Different objects come back one after the other. -/
theorem Apart.recycleAll {objects : List Nat} (h : pool.Apart used) (hnodup : objects.Nodup)
    (hobjects : ∀ object ∈ objects, used object)
    (hless : ∀ other, less other → used other ∧ other ∉ objects) :
    (objects.foldl Pool.recycle pool).Apart less := by
  induction objects generalizing pool used with
  | nil => exact h.mono fun other hother => (hless other hother).1
  | cons object objects ih =>
      rw [List.nodup_cons] at hnodup
      have hfirst : (pool.recycle object).Apart fun other => used other ∧ other ≠ object :=
        h.recycle (hobjects object List.mem_cons_self) fun _ hother => hother
      refine ih hfirst hnodup.2 ?_ ?_
      · intro other hother
        refine ⟨hobjects other (List.mem_cons_of_mem _ hother), ?_⟩
        rintro rfl
        exact hnodup.1 hother
      · intro other hother
        obtain ⟨hused, hnotMem⟩ := hless other hother
        rw [List.mem_cons, not_or] at hnotMem
        exact ⟨⟨hused, hnotMem.1⟩, hnotMem.2⟩

end

end Pool

end Foundation
end ArmyRs
