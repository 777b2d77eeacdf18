import ArmyRs.Foundation.LinkedLists
import ArmyRs.Foundation.Transition

/-!
# The cache of the least recently used

`LRUCache` keeps a hash from names to nodes and a doubly linked list of the nodes, the
one used last at the front.  The nodes of a `LuaList` carry the links, so the list is
given by what the fields of every node are; a missing field is `nil`.

`Represents` says which nodes a `LuaList` holds, in their order, and each operation
has one lemma about what it does to these.
-/

namespace ArmyRs
namespace Client

open Foundation

/-! ## LuaList -/

/-- The fields `_next` and `_prev` of the nodes, and those of the list. -/
structure LuaList where
  next : Nat → Option Nat
  prev : Nat → Option Nat
  first : Option Nat
  last : Option Nat
  length : Nat

namespace LuaList

def new : LuaList where
  next := fun _ => none
  prev := fun _ => none
  first := none
  last := none
  length := 0

/-- `unshift`. -/
def unshift (l : LuaList) (t : Nat) : LuaList :=
  match l.first with
  | some first =>
      { l with
        prev := Function.update l.prev first (some t)
        next := Function.update l.next t (some first)
        first := some t
        length := l.length + 1 }
  | none => { l with first := some t, last := some t, length := l.length + 1 }

/-- `pop`. -/
def pop (l : LuaList) : Option Nat × LuaList :=
  match l.last with
  | none => (none, l)
  | some ret =>
      match l.prev ret with
      | some p =>
          (some ret,
            { l with
              next := Function.update l.next p none
              prev := Function.update l.prev ret none
              last := some p
              length := l.length - 1 })
      | none => (some ret, { l with first := none, last := none, length := l.length - 1 })

/-- The branches of `remove`, before the links of the node itself are cleared. -/
def unlink (l : LuaList) (t : Nat) : LuaList :=
  match l.next t, l.prev t with
  | some n, some p =>
      { l with
        prev := Function.update l.prev n (some p)
        next := Function.update l.next p (some n) }
  | some n, none => { l with prev := Function.update l.prev n none, first := some n }
  | none, some p => { l with next := Function.update l.next p none, last := some p }
  | none, none => { l with first := none, last := none }

/-- `remove`. -/
def remove (l : LuaList) (t : Nat) : LuaList :=
  { l.unlink t with
    next := Function.update (l.unlink t).next t none
    prev := Function.update (l.unlink t).prev t none
    length := l.length - 1 }

/-- The list holds these nodes. -/
structure Represents (l : LuaList) (refs : List Nat) : Prop where
  nodup : refs.Nodup
  next : l.next = nextIn refs
  prev : l.prev = nextIn refs.reverse
  first : l.first = refs.head?
  last : l.last = refs.getLast?
  length : l.length = refs.length

section

variable {l : LuaList} {refs others xs ys : List Nat} {t r : Nat}

theorem represents_new : Represents .new [] where
  nodup := List.nodup_nil
  next := rfl
  prev := rfl
  first := rfl
  last := rfl
  length := rfl

/-- A list holds no other nodes than these. -/
theorem Represents.eq (h : Represents l refs) (hother : Represents l others) : refs = others :=
  eq_of_nextIn h.nodup hother.nodup (h.first.symm.trans hother.first)
    (h.next.symm.trans hother.next)

theorem Represents.unshift (h : Represents l refs) (ht : t ∉ refs) :
    Represents (l.unshift t) (t :: refs) := by
  unfold LuaList.unshift
  rw [h.first]
  cases refs with
  | nil =>
      refine ⟨by simp, ?_, ?_, rfl, rfl, by simp [h.length]⟩
      · rw [h.next]
        rfl
      · rw [h.prev]
        rfl
  | cons f rest =>
      refine ⟨List.nodup_cons.mpr ⟨ht, h.nodup⟩, ?_, ?_, rfl, ?_, by simp [h.length]⟩
      · show Function.update l.next t (some f) = _
        rw [h.next, nextIn_cons t]
        rfl
      · show Function.update l.prev f (some t) = _
        have hreverse : (t :: f :: rest).reverse = rest.reverse ++ [f] ++ [t] := by simp
        have hfront : (f :: rest).reverse = rest.reverse ++ [f] := by simp
        rw [h.prev, hreverse, hfront, nextIn_concat]
        · rw [← hfront]
          exact List.nodup_reverse.mpr h.nodup
        · rw [← hfront, List.mem_reverse]
          exact ht
      · show l.last = _
        rw [h.last, List.getLast?_cons_cons]

/-- The node at the end is popped. -/
theorem Represents.pop (h : Represents l (refs ++ [r])) :
    l.pop.1 = some r ∧ Represents l.pop.2 refs := by
  have hlast : l.last = some r := by
    rw [h.last]
    simp
  have hprev : l.prev r = refs.reverse.head? := by
    rw [h.prev, List.reverse_append]
    exact nextIn_cons_self r refs.reverse
  have hr : r ∉ refs := by
    have hnodup := h.nodup
    rw [← List.concat_eq_append, List.nodup_concat] at hnodup
    exact hnodup.1
  have hlength : l.length - 1 = refs.length := by
    rw [h.length, List.length_append, List.length_singleton]
    omega
  unfold LuaList.pop
  rw [hlast]
  dsimp only
  rw [hprev]
  rcases List.eq_nil_or_concat' refs with rfl | ⟨xs, p, rfl⟩
  · refine ⟨rfl, List.nodup_nil, ?_, ?_, rfl, rfl, hlength⟩
    · exact h.next.trans rfl
    · exact h.prev.trans rfl
  · rw [List.reverse_append]
    refine ⟨rfl, h.nodup.of_append_left, ?_, ?_, ?_, by simp, hlength⟩
    · show Function.update l.next p none = _
      rw [h.next, ← List.append_nil (xs ++ [p]), nextIn_remove h.nodup, List.append_nil]
      funext a
      by_cases ha : a = r
      · rw [ha, Function.update_self, Function.update_of_ne, nextIn_middle]
        · rfl
        · exact h.nodup
        · rintro rfl
          simp at hr
      · rw [Function.update_of_ne ha]
        rfl
    · show Function.update l.prev r none = _
      have hreverse : (xs ++ [p] ++ [r]).reverse = r :: (xs ++ [p]).reverse := by simp
      rw [h.prev, hreverse, ← nextIn_tail (by simpa [and_comm] using hr)]
    · show l.first = _
      rw [h.first]
      simp

/-! What `remove` does to the fields, whichever branch it takes -/

theorem unlink_next : (l.unlink t).next =
    match l.prev t with
    | some p => Function.update l.next p (l.next t)
    | none => l.next := by
  unfold unlink
  cases l.next t <;> cases l.prev t <;> rfl

theorem unlink_prev : (l.unlink t).prev =
    match l.next t with
    | some n => Function.update l.prev n (l.prev t)
    | none => l.prev := by
  unfold unlink
  cases l.next t <;> cases l.prev t <;> rfl

theorem unlink_first : (l.unlink t).first =
    match l.prev t with
    | some _ => l.first
    | none => l.next t := by
  unfold unlink
  cases l.next t <;> cases l.prev t <;> rfl

theorem unlink_last : (l.unlink t).last =
    match l.next t with
    | some _ => l.last
    | none => l.prev t := by
  unfold unlink
  cases l.next t <;> cases l.prev t <;> rfl

/-- The links of the others close up around a node that is taken out. -/
theorem update_unlink {links : Nat → Option Nat} {before after : List Nat}
    (hnodup : (before ++ t :: after).Nodup) (hlinks : links = nextIn (before ++ t :: after)) :
    Function.update (match before.getLast? with
      | some p => Function.update links p after.head?
      | none => links) t none = nextIn (before ++ after) := by
  subst hlinks
  rcases List.eq_nil_or_concat' before with rfl | ⟨front, p, rfl⟩
  · exact (nextIn_tail (List.nodup_cons.mp hnodup).1).symm
  · rw [List.getLast?_concat, nextIn_remove hnodup]

/-- The node is taken out, and the others keep their order. -/
theorem Represents.remove (h : Represents l (xs ++ t :: ys)) :
    Represents (l.remove t) (xs ++ ys) := by
  have hreverse : (xs ++ t :: ys).reverse = ys.reverse ++ t :: xs.reverse := by simp
  have hnodup : (ys.reverse ++ t :: xs.reverse).Nodup := by
    rw [← hreverse]
    exact List.nodup_reverse.mpr h.nodup
  have hnext : l.next t = ys.head? := by rw [h.next, nextIn_middle h.nodup]
  have hprev : l.prev t = xs.getLast? := by
    rw [h.prev, hreverse, nextIn_middle hnodup, List.head?_reverse]
  refine ⟨?_, ?_, ?_, ?_, ?_, ?_⟩
  · exact (List.nodup_middle.mp h.nodup).of_cons
  · show Function.update (l.unlink t).next t none = _
    rw [unlink_next, hprev, hnext, update_unlink h.nodup h.next]
  · show Function.update (l.unlink t).prev t none = _
    have hclosed := update_unlink hnodup (h.prev.trans (by rw [hreverse]))
    rw [List.getLast?_reverse, List.head?_reverse] at hclosed
    rw [unlink_prev, hnext, hprev, hclosed, List.reverse_append]
  · show (l.unlink t).first = _
    rw [unlink_first, hprev, hnext, h.first]
    cases xs with
    | nil => rfl
    | cons x rest =>
        rw [List.getLast?_cons]
        rfl
  · show (l.unlink t).last = _
    rw [unlink_last, hnext, hprev, h.last]
    cases ys with
    | nil => simp
    | cons y rest => simp
  · show l.length - 1 = _
    rw [h.length]
    simp

end

end LuaList

/-! ## LRUCache -/

/-- A cache with its nodes: `i.name` and `i.value` of each, and a number that no node
has yet. -/
structure LRUCache (Name V : Type*) where
  hasht : Name → Option Nat
  list : LuaList
  maxSize : Nat
  statsGet : Nat
  statsHit : Nat
  name : Nat → Option Name
  value : Nat → Option V
  fresh : Nat

namespace LRUCache

variable {Name V : Type*} [DecidableEq Name]

def new (maxSize : Nat) : LRUCache Name V where
  hasht := fun _ => none
  list := .new
  maxSize := maxSize
  statsGet := 0
  statsHit := 0
  name := fun _ => none
  value := fun _ => none
  fresh := 0

/-- `get`, which answers with the value and whether there is one. -/
def get (c : LRUCache Name V) (name : Name) : (Option V × Bool) × LRUCache Name V :=
  match c.hasht name with
  | some i =>
      ((c.value i, true),
        { c with
          list := (c.list.remove i).unshift i
          statsGet := c.statsGet + 1
          statsHit := c.statsHit + 1 })
  | none => ((none, false), { c with statsGet := c.statsGet + 1 })

/-- The first part of `set`, which pops a node from a full list.  Without one to pop
it raises. -/
def makeRoom (c : LRUCache Name V) : Option (LRUCache Name V) :=
  if c.maxSize ≤ c.list.length then
    match c.list.pop with
    | (some r, list) =>
        (c.name r).map fun name =>
          { c with list := list, hasht := Function.update c.hasht name none }
    | (none, _) => none
  else some c

/-- The second part of `set`, with a new node. -/
def insert (c : LRUCache Name V) (name : Name) (value : V) : LRUCache Name V :=
  { c with
    hasht := Function.update c.hasht name (some c.fresh)
    list := c.list.unshift c.fresh
    name := Function.update c.name c.fresh (some name)
    value := Function.update c.value c.fresh (some value)
    fresh := c.fresh + 1 }

/-- `set`. -/
def set (c : LRUCache Name V) (name : Name) (value : V) : Option (LRUCache Name V) :=
  c.makeRoom.map fun c => c.insert name value

/-- `size`. -/
def size (c : LRUCache Name V) : Nat := c.list.length

end LRUCache
end Client
end ArmyRs
