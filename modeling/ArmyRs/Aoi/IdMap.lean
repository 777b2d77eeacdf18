import ArmyRs.Foundation.CoalescedChains

/-!
# The map from ids to objects

`map` is an array of slots, in which the slots whose ids have the same main position are
linked to a chain that begins there.  An id that finds its main position taken by a slot
of another chain moves that slot elsewhere; where it is taken by a slot of its own chain,
it goes to a free slot, which `lastfree` looks for from the end of the array downwards.
When there is none, the array is doubled.

A call of `map_insert` calls itself for a slot that it moves, and through `rehash`.  It has
a bound on the depth of these calls here, and no result when it reaches the bound, nor when
its assertion fails.  Memory is taken to be available, and `size` not to overflow.
-/

namespace ArmyRs
namespace Aoi

open Foundation

/-- The characters of a C string in front of the terminating zero. -/
abbrev Uid := List (BitVec 8)

/-- `MAX_UID_LEN` -/
def maxUidLen : ℕ := 127

/-- `PRE_ALLOC` -/
def preAlloc : ℕ := 16

/-- A longer string is cut by `strlcpy`, whose bound counts the terminating zero. -/
def copyUid (src : Uid) : Uid :=
  if maxUidLen < src.length then src.take (maxUidLen - 1) else src

/-- The loop over `i` downwards, which ends at the first `i` that the string reaches.  It
reads one character as often as the string has characters, up to 32; the terminating zero
is read as a character. -/
def hashBase (id : Uid) : ℕ → BitVec 32
  | 0 => 0#32
  | i + 1 =>
    if i + 1 ≤ id.length then
      let max := if 32 < id.length then 32 else id.length
      (List.range max).foldl (fun base _ => base + (id.getD (i + 1) 0#8).signExtend 32) 0#32
    else hashBase id i

def genHash (size : ℕ) (id : Uid) : ℕ := (hashBase id 32).toNat &&& (size - 1)

/-- `next` is nothing for `-1`. -/
structure MapSlot (Obj : Type) where
  id : Uid
  obj : Option Obj
  next : Option ℕ
  deriving DecidableEq, Repr

/-- `unsearched` is `lastfree + 1`. -/
structure Map (Obj : Type) where
  size : ℕ
  unsearched : ℕ
  slot : ℕ → MapSlot Obj

variable {Obj : Type}

namespace Map

/-- A new array of slots. -/
def blank (size : ℕ) : Map Obj := ⟨size, size, fun _ => ⟨[], none, none⟩⟩

def mapNew : Map Obj := blank preAlloc

def setSlot (m : Map Obj) (i : ℕ) (s : MapSlot Obj) : Map Obj :=
  { m with slot := Function.update m.slot i s }

def next (m : Map Obj) (i : ℕ) : Option ℕ := (m.slot i).next

def mainposition (m : Map Obj) (id : Uid) : ℕ := genHash m.size id

/-- The loop that looks for the slot linked to `s`; the assertion fails at the end of the
chain. -/
def lastBefore (m : Map Obj) (start s : ℕ) : Option ℕ :=
  (search m.next (fun i => m.next i == some s) m.size start).join

/-- The loop over `lastfree`: where it ends, and the free slot if there is one. -/
def searchFree (slot : ℕ → MapSlot Obj) : ℕ → ℕ × Option ℕ
  | 0 => (0, none)
  | k + 1 => if (slot k).id = [] then (k, some k) else searchFree slot k

/-- `rehash`, given the insertion that it calls. -/
def rehashWith (insert : Map Obj → Uid → Obj → Option (Map Obj)) (m : Map Obj) :
    Option (Map Obj) :=
  (List.range m.size).foldlM (fun grown i =>
    match (m.slot i).obj with
    | some obj => insert grown (m.slot i).id obj
    | none => some grown) (blank (2 * m.size))

def mapInsert : ℕ → Map Obj → Uid → Obj → Option (Map Obj)
  | 0, _, _, _ => none
  | depth + 1, m, id, obj =>
    let s := m.mainposition id
    if (m.slot s).id = [] then
      -- `next` keeps its value
      some (m.setSlot s { m.slot s with id := copyUid id, obj := some obj })
    else if m.mainposition (m.slot s).id ≠ s then do
      -- the slot belongs to another chain, and is moved
      let last ← m.lastBefore (m.mainposition (m.slot s).id) s
      let temp := m.slot s
      let unlinked := m.setSlot last { m.slot last with next := temp.next }
      let placed := unlinked.setSlot s ⟨copyUid id, some obj, none⟩
      match temp.obj with
      | some tempObj => mapInsert depth placed (copyUid temp.id) tempObj
      | none => some placed
    else
      match searchFree m.slot m.unsearched with
      | (rest, some t) =>
        some (({ m with unsearched := rest }.setSlot t ⟨copyUid id, some obj, m.next s⟩).setSlot s
          { m.slot s with next := some t })
      | (rest, none) => do
        let grown ← rehashWith (mapInsert depth) { m with unsearched := rest }
        mapInsert depth grown id obj

def rehash (depth : ℕ) (m : Map Obj) : Option (Map Obj) := rehashWith (mapInsert depth) m

/-- The loop of `map_find` and `map_query`: the slot with the id, if the chain has one. -/
def findSlot (m : Map Obj) (id : Uid) : Option (Option ℕ) :=
  search m.next (fun i => (m.slot i).id == id) m.size (m.mainposition id)

/-- The object is a new one, `fresh`, where the slot has none. -/
def mapFind (m : Map Obj) (id : Uid) (fresh : Obj) : Option (Map Obj × Option Obj) := do
  let found ← m.findSlot id
  match found with
  | none => some (m, none)
  | some s =>
    match (m.slot s).obj with
    | some obj => some (m, some obj)
    | none => some (m.setSlot s { m.slot s with obj := some fresh }, some fresh)

/-- The loop is that of `map_find`. -/
def mapQuery (depth : ℕ) (m : Map Obj) (id : Uid) (fresh : Obj) : Option (Map Obj × Obj) := do
  let (found, answer) ← m.mapFind id fresh
  match answer with
  | some obj => some (found, obj)
  | none => do
    let inserted ← mapInsert depth found id fresh
    some (inserted, fresh)

/-- The slot keeps its id and its place in the chain. -/
def mapDrop (m : Map Obj) (id : Uid) : Option (Map Obj × Option Obj) := do
  let found ← m.findSlot id
  match found with
  | none => some (m, none)
  | some s => some (m.setSlot s { m.slot s with obj := none }, (m.slot s).obj)

end Map

/-! ## Ids -/

section

variable {id : Uid} {size : ℕ}

theorem copyUid_of_le (h : id.length ≤ maxUidLen) : copyUid id = id := if_neg (by omega)

theorem length_copyUid_le (id : Uid) : (copyUid id).length ≤ maxUidLen := by
  rw [copyUid]
  split
  · rw [List.length_take, maxUidLen]
    omega
  · omega

theorem copyUid_copyUid (id : Uid) : copyUid (copyUid id) = copyUid id :=
  copyUid_of_le (length_copyUid_le id)

theorem copyUid_ne_nil (h : id ≠ []) : copyUid id ≠ [] := by
  rw [copyUid]
  split
  · next hlong =>
    rw [Ne, List.take_eq_nil_iff]
    simpa [maxUidLen] using h
  · exact h

theorem genHash_lt (hsize : 0 < size) (id : Uid) : genHash size id < size := by
  have hle : (hashBase id 32).toNat &&& (size - 1) ≤ size - 1 := Nat.and_le_right
  rw [genHash]
  omega

/-- The character read is the terminating zero, unless the string has more than 32. -/
theorem hashBase_of_length_le {i : ℕ} (hlen : id.length ≤ i) : hashBase id i = 0#32 := by
  induction i with
  | zero => rfl
  | succ i ih =>
    rw [hashBase]
    split
    · have hzero : id.getD (i + 1) 0#8 = 0#8 := by
        rw [List.getD_eq_getElem?_getD, List.getElem?_eq_none hlen, Option.getD_none]
      have hadd : ∀ n : ℕ, (List.range n).foldl
          (fun base _ => base + (id.getD (i + 1) 0#8).signExtend 32) 0#32 = 0#32 := by
        intro n
        induction n with
        | zero => rfl
        | succ n ihn =>
          rw [List.range_succ, List.foldl_append, ihn, hzero]
          rfl
      exact hadd _
    · exact ih (by omega)

theorem hashBase_of_le_length (hlen : 32 ≤ id.length) :
    hashBase id 32 =
      (List.range 32).foldl (fun base _ => base + (id.getD 32 0#8).signExtend 32) 0#32 := by
  have hmax : (if 32 < id.length then 32 else id.length) = 32 := by
    split
    · rfl
    · omega
  rw [hashBase, if_pos hlen]
  dsimp only
  rw [hmax]

/-- A copy has the main position of the id. -/
theorem hashBase_copyUid (id : Uid) : hashBase (copyUid id) 32 = hashBase id 32 := by
  rw [copyUid]
  split
  · next hlong =>
    rw [maxUidLen] at hlong
    have hlen : 32 ≤ (id.take (maxUidLen - 1)).length := by
      rw [List.length_take, maxUidLen]
      omega
    have hchar : (id.take (maxUidLen - 1)).getD 32 0#8 = id.getD 32 0#8 := by
      rw [List.getD_eq_getElem?_getD, List.getD_eq_getElem?_getD,
        List.getElem?_take_of_lt (by decide)]
    rw [hashBase_of_le_length hlen, hashBase_of_le_length (by omega), hchar]
  · rfl

theorem genHash_copyUid (size : ℕ) (id : Uid) : genHash size (copyUid id) = genHash size id := by
  rw [genHash, genHash, hashBase_copyUid]

/-- All ids of at most 32 characters collide. -/
theorem genHash_of_length_le (hlen : id.length ≤ 32) (size : ℕ) : genHash size id = 0 := by
  rw [genHash, hashBase_of_length_le hlen]
  exact Nat.zero_and _

end

namespace Map

theorem mapInsert_copyUid (depth : ℕ) (m : Map Obj) (id : Uid) (obj : Obj) :
    mapInsert depth m (copyUid id) obj = mapInsert depth m id obj := by
  induction depth generalizing m with
  | zero => rfl
  | succ depth ih =>
    have hmain : m.mainposition (copyUid id) = m.mainposition id := genHash_copyUid m.size id
    rw [mapInsert, mapInsert]
    simp only [hmain, copyUid_copyUid, ih]

/-! ## The search for a free slot -/

section

variable {slot : ℕ → MapSlot Obj} {k rest t : ℕ}

theorem searchFree_some (h : searchFree slot k = (rest, some t)) :
    rest = t ∧ t < k ∧ (slot t).id = [] ∧ ∀ i, t < i → i < k → (slot i).id ≠ [] := by
  induction k with
  | zero => cases h
  | succ k ih =>
    rw [searchFree] at h
    split at h
    · next hfree =>
      cases h
      exact ⟨rfl, Nat.lt_succ_self _, hfree, fun i hi hi' => absurd hi' (by omega)⟩
    · next hused =>
      obtain ⟨hrest, hlt, hfree, hpassed⟩ := ih h
      refine ⟨hrest, by omega, hfree, fun i hi hi' => ?_⟩
      rcases Nat.lt_succ_iff_lt_or_eq.mp hi' with hless | rfl
      · exact hpassed i hi hless
      · exact hused

theorem searchFree_none (h : searchFree slot k = (rest, none)) :
    rest = 0 ∧ ∀ i < k, (slot i).id ≠ [] := by
  induction k with
  | zero =>
    cases h
    exact ⟨rfl, fun i hi => absurd hi (Nat.not_lt_zero i)⟩
  | succ k ih =>
    rw [searchFree] at h
    split at h
    · cases h
    · next hused =>
      obtain ⟨hrest, hpassed⟩ := ih h
      refine ⟨hrest, fun i hi => ?_⟩
      rcases Nat.lt_succ_iff_lt_or_eq.mp hi with hless | rfl
      · exact hpassed i hless
      · exact hused

end

end Map

end Aoi
end ArmyRs
