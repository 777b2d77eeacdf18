import ArmyRs.Aoi.IdMap

/-!
# The chains of the map

Between two operations every slot in use belongs to the chain of its main position, and
every slot behind `lastfree` is in use (`WellFormed`).  An insertion adds one pair to what
the map holds (`mapInsert_adds`), also when it moves the slot of another id: that slot is
taken out of its chain, its pair is inserted again, and then finds its main position taken
by its own chain.  When the array is full it is doubled first, and the insertions into the
new array all find a free slot.

A slot that `map_drop` has taken the object out of stays in use (`Emptied`), until an
insertion wants its place or the array is doubled.
-/

namespace ArmyRs
namespace Aoi
namespace Map

open Foundation

variable {Obj : Type}

/-- Where the chain of a slot begins; nothing for a free slot. -/
def home (m : Map Obj) (i : ℕ) : Option ℕ :=
  if (m.slot i).id = [] then none else some (m.mainposition (m.slot i).id)

structure WellFormed (m : Map Obj) : Prop where
  size_pos : 0 < m.size
  chains : ∃ chain, Chains m.next m.home chain
  outside : ∀ i, m.size ≤ i → (m.slot i).id = []
  copied : ∀ i, copyUid (m.slot i).id = (m.slot i).id
  obj : ∀ i, (m.slot i).id = [] → (m.slot i).obj = none
  unsearched_le : m.unsearched ≤ m.size
  searched : ∀ i, m.unsearched ≤ i → i < m.size → (m.slot i).id ≠ []

/-- The object is in a slot with the id. -/
def Holds (m : Map Obj) (id : Uid) (obj : Obj) : Prop :=
  ∃ i, (m.slot i).id = id ∧ (m.slot i).obj = some obj

/-- A slot with the id has lost its object. -/
def Emptied (m : Map Obj) (id : Uid) : Prop :=
  ∃ i < m.size, (m.slot i).id = id ∧ (m.slot i).obj = none

/-- A slot has the id, with an object or without. -/
def Slotted (m : Map Obj) (id : Uid) : Prop := ∃ i < m.size, (m.slot i).id = id

instance (m : Map Obj) (id : Uid) : Decidable (m.Slotted id) :=
  inferInstanceAs (Decidable (∃ i < m.size, (m.slot i).id = id))

/-- No two slots have the same id. -/
def Distinct (m : Map Obj) : Prop :=
  ∀ i j, (m.slot i).id ≠ [] → (m.slot i).id = (m.slot j).id → i = j

/-- The object under an id, if there is one. -/
def peek (m : Map Obj) (id : Uid) : Option Obj := do
  let found ← m.findSlot id
  let s ← found
  (m.slot s).obj

/-- The number of slots in use. -/
def used (m : Map Obj) : ℕ := ((Finset.range m.size).filter fun i => (m.slot i).id ≠ []).card

section

variable {m m' : Map Obj} {id : Uid} {obj : Obj} {i k s t : ℕ}

theorem slot_setSlot (m : Map Obj) (i j : ℕ) (x : MapSlot Obj) :
    (m.setSlot i x).slot j = if j = i then x else m.slot j := Function.update_apply ..

theorem id_setSlot {x : MapSlot Obj} (hx : x.id = (m.slot s).id) (i : ℕ) :
    ((m.setSlot s x).slot i).id = (m.slot i).id := by
  rw [slot_setSlot]
  split
  · next heq => rw [heq, hx]
  · rfl

theorem obj_setSlot {x : MapSlot Obj} (hx : x.obj = (m.slot s).obj) (i : ℕ) :
    ((m.setSlot s x).slot i).obj = (m.slot i).obj := by
  rw [slot_setSlot]
  split
  · next heq => rw [heq, hx]
  · rfl

theorem next_setSlot (m : Map Obj) (i : ℕ) (x : MapSlot Obj) :
    (m.setSlot i x).next = Function.update m.next i x.next := by
  funext j
  rw [next, slot_setSlot, Function.update_apply]
  split <;> rfl

theorem home_eq_none_iff : m.home i = none ↔ (m.slot i).id = [] := by
  rw [home]
  split
  · next h => simp [h]
  · next h => simp [h]

theorem home_of_ne (h : (m.slot i).id ≠ []) : m.home i = some (m.mainposition (m.slot i).id) :=
  if_neg h

theorem home_eq_some (h : m.home s = some k) :
    (m.slot s).id ≠ [] ∧ m.mainposition (m.slot s).id = k := by
  have hused : (m.slot s).id ≠ [] := by
    rw [Ne, ← home_eq_none_iff, h]
    simp
  rw [home_of_ne hused] at h
  exact ⟨hused, Option.some.inj h⟩

theorem wellFormed_blank {size : ℕ} (hsize : 0 < size) : (blank size : Map Obj).WellFormed where
  size_pos := hsize
  chains := ⟨_, Chains.empty⟩
  outside := fun _ _ => rfl
  copied := fun _ => rfl
  obj := fun _ _ => rfl
  unsearched_le := le_rfl
  searched := fun _ hle hlt => absurd hlt (not_lt.mpr hle)

theorem used_blank (size : ℕ) : (blank size : Map Obj).used = 0 := by
  simp [used, blank]

theorem not_holds_blank (size : ℕ) (id : Uid) (obj : Obj) : ¬ (blank size).Holds id obj := by
  rintro ⟨i, -, hobj⟩
  cases hobj

theorem WellFormed.lt_size (hm : m.WellFormed) (h : (m.slot i).id ≠ []) : i < m.size := by
  by_contra hle
  exact h (hm.outside i (not_lt.mp hle))

theorem not_emptied_blank (size : ℕ) (hid : id ≠ []) : ¬ (blank size : Map Obj).Emptied id := by
  rintro ⟨i, -, hi, -⟩
  exact hid hi.symm

theorem distinct_blank (size : ℕ) : (blank size : Map Obj).Distinct :=
  fun _ _ hi _ => absurd rfl hi

theorem WellFormed.ne_nil (hm : m.WellFormed) (hobj : (m.slot i).obj = some obj) :
    (m.slot i).id ≠ [] := by
  intro hnil
  rw [hm.obj i hnil] at hobj
  cases hobj

/-- What is not emptied has its object. -/
theorem WellFormed.exists_obj (hm : m.WellFormed) (h : (m.slot s).id ≠ [])
    (hkept : ¬ m.Emptied (m.slot s).id) : ∃ obj, (m.slot s).obj = some obj := by
  rw [← Option.ne_none_iff_exists']
  exact fun hnone => hkept ⟨s, hm.lt_size h, rfl, hnone⟩

theorem WellFormed.mainposition_lt (hm : m.WellFormed) (id : Uid) : m.mainposition id < m.size :=
  genHash_lt hm.size_pos id

theorem used_le (m : Map Obj) : m.used ≤ m.size := by
  rw [used]
  exact (Finset.card_filter_le _ _).trans_eq (Finset.card_range m.size)

/-- With fewer slots in use than there are, one is free. -/
theorem exists_free (h : m.used < m.size) : ∃ t < m.size, (m.slot t).id = [] := by
  by_contra hall
  have hfull : m.used = m.size := by
    rw [used, Finset.filter_true_of_mem, Finset.card_range]
    intro i hi hfree
    exact hall ⟨i, Finset.mem_range.mp hi, hfree⟩
  omega

/-! ## Filling a slot -/

/-- `m'` has the ids and the objects of `m`, but for one slot. -/
structure FillsSlot (m m' : Map Obj) (t : ℕ) (id : Uid) (obj : Obj) : Prop where
  size : m'.size = m.size
  id_at : (m'.slot t).id = id
  obj_at : (m'.slot t).obj = some obj
  id_other : ∀ i, i ≠ t → (m'.slot i).id = (m.slot i).id
  obj_other : ∀ i, i ≠ t → (m'.slot i).obj = (m.slot i).obj

theorem fillsSlot_setSlot {m₀ : Map Obj} (hsize : m₀.size = m.size)
    (hid : ∀ i, i ≠ t → (m₀.slot i).id = (m.slot i).id)
    (hobj : ∀ i, i ≠ t → (m₀.slot i).obj = (m.slot i).obj) (id : Uid) (obj : Obj)
    (link : Option ℕ) : FillsSlot m (m₀.setSlot t ⟨id, some obj, link⟩) t id obj where
  size := hsize
  id_at := by rw [slot_setSlot, if_pos rfl]
  obj_at := by rw [slot_setSlot, if_pos rfl]
  id_other := fun i hi => by rw [slot_setSlot, if_neg hi, hid i hi]
  obj_other := fun i hi => by rw [slot_setSlot, if_neg hi, hobj i hi]

namespace FillsSlot

/-- Links do not matter. -/
theorem setNext (hf : FillsSlot m m' t id obj) (s : ℕ) (link : Option ℕ) :
    FillsSlot m (m'.setSlot s { m'.slot s with next := link }) t id obj := by
  have hid : ∀ i, ((m'.setSlot s { m'.slot s with next := link }).slot i).id = (m'.slot i).id :=
    id_setSlot rfl
  have hobj : ∀ i,
      ((m'.setSlot s { m'.slot s with next := link }).slot i).obj = (m'.slot i).obj :=
    obj_setSlot rfl
  constructor
  case size => exact hf.size
  case id_at => rw [hid, hf.id_at]
  case obj_at => rw [hobj, hf.obj_at]
  case id_other => exact fun i hi => by rw [hid, hf.id_other i hi]
  case obj_other => exact fun i hi => by rw [hobj, hf.obj_other i hi]

theorem mainposition (hf : FillsSlot m m' t id obj) (id' : Uid) :
    m'.mainposition id' = m.mainposition id' := by
  rw [Map.mainposition, Map.mainposition, hf.size]

theorem home (hf : FillsSlot m m' t id obj) (hid : id ≠ []) :
    m'.home = Function.update m.home t (some (m.mainposition id)) := by
  funext i
  by_cases hit : i = t
  · rw [hit, Function.update_self, home_of_ne (by rw [hf.id_at]; exact hid), hf.id_at,
      hf.mainposition]
  · rw [Function.update_of_ne hit, Map.home, Map.home, hf.id_other i hit, hf.mainposition]

theorem holds_iff (hf : FillsSlot m m' t id obj) (id' : Uid) (obj' : Obj) :
    m'.Holds id' obj' ↔
      (∃ i, i ≠ t ∧ (m.slot i).id = id' ∧ (m.slot i).obj = some obj') ∨
        id' = id ∧ obj' = obj := by
  constructor
  · rintro ⟨i, hid, hobj⟩
    by_cases hit : i = t
    · rw [hit, hf.id_at] at hid
      rw [hit, hf.obj_at] at hobj
      exact .inr ⟨hid.symm, by cases hobj; rfl⟩
    · rw [hf.id_other i hit] at hid
      rw [hf.obj_other i hit] at hobj
      exact .inl ⟨i, hit, hid, hobj⟩
  · rintro (⟨i, hit, hid, hobj⟩ | ⟨rfl, rfl⟩)
    · exact ⟨i, by rw [hf.id_other i hit, hid], by rw [hf.obj_other i hit, hobj]⟩
    · exact ⟨t, hf.id_at, hf.obj_at⟩

theorem wellFormed (hf : FillsSlot m m' t id obj) (hm : m.WellFormed) (hid : id ≠ [])
    (hcopy : copyUid id = id) (ht : t < m.size)
    (hchains : ∃ chain, Chains m'.next m'.home chain) (hle : m'.unsearched ≤ m.unsearched)
    (hpassed : ∀ i, m'.unsearched ≤ i → i < m.unsearched → i = t ∨ (m.slot i).id ≠ []) :
    m'.WellFormed where
  size_pos := by
    rw [hf.size]
    exact hm.size_pos
  chains := hchains
  outside := by
    intro i hi
    rw [hf.size] at hi
    rw [hf.id_other i (by omega)]
    exact hm.outside i hi
  copied := by
    intro i
    by_cases hit : i = t
    · rw [hit, hf.id_at, hcopy]
    · rw [hf.id_other i hit]
      exact hm.copied i
  obj := by
    intro i
    by_cases hit : i = t
    · rw [hit, hf.id_at]
      exact fun hnil => absurd hnil hid
    · rw [hf.id_other i hit, hf.obj_other i hit]
      exact hm.obj i
  unsearched_le := by
    rw [hf.size]
    exact hle.trans hm.unsearched_le
  searched := by
    intro i hi hlt
    rw [hf.size] at hlt
    -- only the slot that is filled is new
    by_cases hit : i = t
    · rw [hit, hf.id_at]
      exact hid
    · rw [hf.id_other i hit]
      by_cases hold : m.unsearched ≤ i
      · exact hm.searched i hold hlt
      · exact (hpassed i hi (not_le.mp hold)).resolve_left hit

theorem emptied (hf : FillsSlot m m' t id obj) {id' : Uid} (h : m'.Emptied id') :
    m.Emptied id' := by
  obtain ⟨i, hi, hid, hnone⟩ := h
  have hit : i ≠ t := by
    rintro rfl
    rw [hf.obj_at] at hnone
    cases hnone
  rw [hf.size] at hi
  rw [hf.id_other i hit] at hid
  rw [hf.obj_other i hit] at hnone
  exact ⟨i, hi, hid, hnone⟩

theorem ids (hf : FillsSlot m m' t id obj) (i : ℕ) :
    (m'.slot i).id = id ∨ ∃ j, (m.slot j).id = (m'.slot i).id := by
  by_cases hit : i = t
  · exact .inl (hit ▸ hf.id_at)
  · exact .inr ⟨i, (hf.id_other i hit).symm⟩

theorem distinct (hf : FillsSlot m m' t id obj) (hdistinct : m.Distinct)
    (hnew : ∀ j, (m.slot j).id ≠ id) : m'.Distinct := by
  intro i j hi hij
  by_cases hit : i = t <;> by_cases hjt : j = t
  · rw [hit, hjt]
  · rw [hit, hf.id_at, hf.id_other j hjt] at hij
    exact absurd hij.symm (hnew j)
  · rw [hjt, hf.id_at, hf.id_other i hit] at hij
    exact absurd hij (hnew i)
  · rw [hf.id_other i hit] at hi
    rw [hf.id_other i hit, hf.id_other j hjt] at hij
    exact hdistinct i j hi hij

theorem used_le_succ (hf : FillsSlot m m' t id obj) : m'.used ≤ m.used + 1 := by
  have hsubset : (Finset.range m'.size).filter (fun i => (m'.slot i).id ≠ []) ⊆
      insert t ((Finset.range m.size).filter fun i => (m.slot i).id ≠ []) := by
    intro i hi
    rw [Finset.mem_filter, Finset.mem_range, hf.size] at hi
    rw [Finset.mem_insert, Finset.mem_filter, Finset.mem_range]
    by_cases hit : i = t
    · exact .inl hit
    · rw [hf.id_other i hit] at hi
      exact .inr hi
  exact (Finset.card_le_card hsubset).trans (Finset.card_insert_le _ _)

theorem used_eq (hf : FillsSlot m m' t id obj) (hid : id ≠ []) (hused : (m.slot t).id ≠ []) :
    m'.used = m.used := by
  have hids : ∀ i, (m'.slot i).id ≠ [] ↔ (m.slot i).id ≠ [] := by
    intro i
    by_cases hit : i = t
    · rw [hit, hf.id_at]
      exact iff_of_true hid hused
    · rw [hf.id_other i hit]
  rw [used, used, hf.size]
  simp only [hids]

end FillsSlot

end

/-! ## Insertion -/

/-- `m'` holds what `m` holds, and one pair more; no slot loses its object, and a new id
leaves the ids distinct. -/
structure Adds (m m' : Map Obj) (id : Uid) (obj : Obj) : Prop where
  wellFormed : m'.WellFormed
  holds_iff : ∀ id' obj', m'.Holds id' obj' ↔ m.Holds id' obj' ∨ id' = id ∧ obj' = obj
  emptied : ∀ id', id' ≠ [] → m'.Emptied id' → m.Emptied id'
  ids : ∀ i, (m'.slot i).id ≠ [] → (m'.slot i).id = id ∨ ∃ j, (m.slot j).id = (m'.slot i).id
  distinct : m.Distinct → (∀ j, (m.slot j).id ≠ id) → m'.Distinct

/-- The array is the same, and one more of its slots is in use at most. -/
structure AddsHere (m m' : Map Obj) (id : Uid) (obj : Obj) : Prop extends
    Adds m m' id obj where
  size : m'.size = m.size
  used : m'.used ≤ m.used + 1

section

variable {m m' : Map Obj} {id : Uid} {obj : Obj} {h i s t : ℕ}

/-- A slot without an object can be filled: it is free, or emptied. -/
theorem FillsSlot.addsHere (hf : FillsSlot m m' t id obj) (hnone : (m.slot t).obj = none)
    (hm' : m'.WellFormed) : AddsHere m m' id obj where
  wellFormed := hm'
  holds_iff := by
    intro id' obj'
    rw [hf.holds_iff]
    refine or_congr_left ⟨fun ⟨i, _, hi⟩ => ⟨i, hi⟩, fun ⟨i, hid', hobj'⟩ => ⟨i, ?_, hid', hobj'⟩⟩
    rintro rfl
    rw [hnone] at hobj'
    cases hobj'
  emptied := fun _ _ => hf.emptied
  ids := fun i _ => hf.ids i
  distinct := hf.distinct
  size := hf.size
  used := hf.used_le_succ

/-- A free main position is taken. -/
theorem mapInsert_free (hm : m.WellFormed) (hid : id ≠ []) (hcopy : copyUid id = id)
    (hfree : (m.slot (m.mainposition id)).id = []) (obj : Obj) (depth : ℕ) :
    ∃ m', mapInsert (depth + 1) m id obj = some m' ∧ AddsHere m m' id obj := by
  obtain ⟨chain, hchain⟩ := hm.chains
  have hs := hm.mainposition_lt id
  rw [mapInsert]
  dsimp only
  rw [if_pos hfree, hcopy]
  have hf : FillsSlot m (m.setSlot (m.mainposition id) ⟨id, some obj, m.next (m.mainposition id)⟩)
      (m.mainposition id) id obj :=
    fillsSlot_setSlot rfl (fun _ _ => rfl) (fun _ _ => rfl) id obj _
  refine ⟨_, rfl, hf.addsHere (hm.obj _ hfree) (hf.wellFormed hm hid hcopy hs ?_ le_rfl ?_)⟩
  · rw [next_setSlot, Function.update_eq_self, hf.home hid]
    exact ⟨_, hchain.put (home_eq_none_iff.mpr hfree)⟩
  · exact fun i hi hlt => absurd hlt (not_lt.mpr hi)

/-- Where the main position is taken by its own chain, a free slot is used behind it, if
there is one. -/
theorem mapInsert_own (hm : m.WellFormed) (hid : id ≠ []) (hcopy : copyUid id = id)
    (hown : m.home (m.mainposition id) = some (m.mainposition id)) (hroom : m.used < m.size)
    (obj : Obj) (depth : ℕ) :
    ∃ m', mapInsert (depth + 1) m id obj = some m' ∧ AddsHere m m' id obj := by
  obtain ⟨chain, hchain⟩ := hm.chains
  obtain ⟨hused, hmain⟩ := home_eq_some hown
  obtain ⟨free, hfreeLt, hfreeId⟩ := exists_free hroom
  rw [mapInsert]
  dsimp only
  rw [if_neg hused, if_neg (not_not.mpr hmain), hcopy]
  cases hsearch : searchFree m.slot m.unsearched with
  | mk rest found =>
    cases found with
    | none =>
      -- the slots that were searched before are all in use, so a free one is found now
      have hless : free < m.unsearched := by
        by_contra hle
        exact hm.searched free (not_lt.mp hle) hfreeLt hfreeId
      exact absurd hfreeId ((searchFree_none hsearch).2 free hless)
    | some t =>
      obtain ⟨rfl, hlt, htfree, hpassed⟩ := searchFree_some hsearch
      have ht : rest < m.size := hlt.trans_le hm.unsearched_le
      have hne : m.mainposition id ≠ rest := by
        intro heq
        rw [heq] at hused
        exact hused htfree
      dsimp only
      have hfilled : FillsSlot m ({ m with unsearched := rest }.setSlot rest
          ⟨id, some obj, m.next (m.mainposition id)⟩) rest id obj :=
        fillsSlot_setSlot (by rfl) (by intro i _; rfl) (by intro i _; rfl) id obj _
      have hf := hfilled.setNext (m.mainposition id) (some rest)
      rw [slot_setSlot, if_neg hne] at hf
      refine ⟨_, rfl,
        hf.addsHere (hm.obj _ htfree) (hf.wellFormed hm hid hcopy ht ?_ hlt.le ?_)⟩
      · rw [next_setSlot, next_setSlot, hf.home hid]
        exact hchain.insertBehind hown (home_eq_none_iff.mpr htfree)
      · intro i hi hi'
        rcases Nat.eq_or_lt_of_le hi with heq | hpast
        · exact .inl heq.symm
        · exact .inr (hpassed i hpast hi')

theorem WellFormed.length_chain_le (hm : m.WellFormed) {chain : ℕ → List ℕ}
    (hchain : Chains m.next m.home chain) (h : ℕ) : (chain h).length ≤ m.size := by
  have hsubset : chain h ⊆ List.range m.size := by
    intro i hi
    rw [List.mem_range]
    exact hm.lt_size (home_eq_some ((hchain.mem_iff h i).mp hi)).1
  have hle := (List.subperm_of_subset (hchain.nodup h) hsubset).length_le
  rwa [List.length_range] at hle

/-- A slot that is not at home has one in front of it, which the loop finds. -/
theorem lastBefore_eq (hm : m.WellFormed) {chain : ℕ → List ℕ}
    (hchain : Chains m.next m.home chain) (hs : m.home s = some h) (hne : s ≠ h) :
    ∃ p ∈ chain h, m.next p = some s ∧ m.lastBefore h s = some p := by
  obtain ⟨p, hp, hps⟩ := hchain.exists_before hs hne
  obtain ⟨l, hl⟩ := hchain.eq_cons hs
  have hlen := hm.length_chain_le hchain h
  have hlinked := hchain.linked h
  have hnodup := hchain.nodup h
  rw [hl] at hlen hlinked hnodup hp ⊢
  have hsearch : search m.next (fun i => m.next i == some s) m.size h =
      some ((h :: l).find? fun i => m.next i == some s) :=
    search_eq hlinked hnodup (by simpa using hlen)
  cases hfind : (h :: l).find? fun i => m.next i == some s with
  | none =>
    have hnot := List.find?_eq_none.mp hfind p hp
    simp [hps] at hnot
  | some q =>
    have hq : m.next q = some s := by simpa using List.find?_some hfind
    refine ⟨q, List.mem_of_find?_eq_some hfind, hq, ?_⟩
    rw [lastBefore, hsearch, hfind]
    rfl

/-- Where the main position is taken by another chain, its slot is moved: it is taken out of
its chain and filled anew, and its pair, if it has one, is inserted again. -/
theorem mapInsert_foreign (hm : m.WellFormed) (hid : id ≠ []) (hcopy : copyUid id = id)
    (hs : m.home (m.mainposition id) = some h) (hne : m.mainposition id ≠ h) (obj : Obj) :
    ∃ placed, FillsSlot m placed (m.mainposition id) id obj ∧ placed.WellFormed ∧
      (∀ tempObj, (m.slot (m.mainposition id)).obj = some tempObj →
        ∀ depth, mapInsert (depth + 1) m id obj =
          mapInsert depth placed (m.slot (m.mainposition id)).id tempObj) ∧
      ((m.slot (m.mainposition id)).obj = none →
        ∀ depth, mapInsert (depth + 1) m id obj = some placed) := by
  obtain ⟨chain, hchain⟩ := hm.chains
  obtain ⟨hused, hmain⟩ := home_eq_some hs
  obtain ⟨p, hp, hps, hlast⟩ := lastBefore_eq hm hchain hs hne
  have hf : FillsSlot m ((m.setSlot p { m.slot p with next := m.next (m.mainposition id) }).setSlot
      (m.mainposition id) ⟨id, some obj, none⟩) (m.mainposition id) id obj := by
    apply fillsSlot_setSlot
    · rfl
    · exact fun i _ => id_setSlot (by rfl) i
    · exact fun i _ => obj_setSlot (by rfl) i
  refine ⟨_, hf, hf.wellFormed hm hid hcopy (hm.mainposition_lt id) ?_ le_rfl ?_,
    fun tempObj htemp depth => ?_, fun hnone depth => ?_⟩
  · -- the slot leaves its old chain, and then begins one of its own
    rw [next_setSlot, next_setSlot, hf.home hid]
    obtain ⟨chain', hchain'⟩ := hchain.remove hs hp hps
    have hput := hchain'.put (h := m.mainposition id) (Function.update_self ..)
    rw [Function.update_idem] at hput
    exact ⟨_, hput⟩
  · -- no slot is searched on this way
    exact fun i hi hlt => absurd hlt (not_lt.mpr hi)
  · rw [mapInsert]
    dsimp only
    rw [if_neg hused, if_pos (by rw [hmain]; exact Ne.symm hne), hmain, hlast, hcopy,
      hm.copied, htemp]
    rfl
  · rw [mapInsert]
    dsimp only
    rw [if_neg hused, if_pos (by rw [hmain]; exact Ne.symm hne), hmain, hlast, hcopy, hnone]
    rfl

/-- The pair of a slot that is moved is inserted again, so nothing is lost. -/
theorem FillsSlot.adds {placed : Map Obj} {tempObj : Obj} (hf : FillsSlot m placed s id obj)
    (hm : m.WellFormed) (htemp : (m.slot s).obj = some tempObj)
    (ha : Adds placed m' (m.slot s).id tempObj) : Adds m m' id obj where
  wellFormed := ha.wellFormed
  emptied := fun id' hid' h => hf.emptied (ha.emptied id' hid' h)
  ids := by
    intro i hi
    rcases ha.ids i hi with hmoved | ⟨j, hj⟩
    · exact .inr ⟨s, hmoved.symm⟩
    · rw [← hj]
      exact hf.ids j
  distinct := by
    intro hdistinct hnew
    refine ha.distinct (hf.distinct hdistinct hnew) fun j hj => ?_
    -- the slot that is filled has the new id, every other its old one
    by_cases hjs : j = s
    · rw [hjs, hf.id_at] at hj
      exact hnew s hj.symm
    · rw [hf.id_other j hjs] at hj
      exact hjs (hdistinct s j (hm.ne_nil htemp) hj.symm).symm
  holds_iff := by
    intro id' obj'
    rw [ha.holds_iff, hf.holds_iff]
    constructor
    · rintro ((⟨i, -, hi⟩ | hnew) | ⟨rfl, rfl⟩)
      · exact .inl ⟨i, hi⟩
      · exact .inr hnew
      · exact .inl ⟨s, rfl, htemp⟩
    · -- the pair of the moved slot is the one that is inserted again
      rintro (⟨i, hid', hobj'⟩ | hnew)
      · by_cases his : i = s
        · rw [his] at hid' hobj'
          rw [htemp] at hobj'
          exact .inr ⟨hid'.symm, by cases hobj'; rfl⟩
        · exact .inl (.inl ⟨i, his, hid', hobj'⟩)
      · exact .inl (.inr hnew)

/-- A slot that is moved finds its main position taken by its own chain. -/
theorem home_mainposition_of_foreign {placed : Map Obj} (hm : m.WellFormed)
    (hf : FillsSlot m placed s id obj) (hid : id ≠ []) (hs : m.home s = some h) (hne : s ≠ h) :
    placed.home (placed.mainposition (m.slot s).id) =
      some (placed.mainposition (m.slot s).id) := by
  obtain ⟨chain, hchain⟩ := hm.chains
  obtain ⟨-, hmain⟩ := home_eq_some hs
  rw [hf.mainposition, hmain, hf.home hid, Function.update_of_ne (Ne.symm hne)]
  exact hchain.home_home hs

/-- As long as a slot is free, an insertion needs no larger array, and calls itself once at
most. -/
theorem mapInsert_room (hm : m.WellFormed) (hid : id ≠ []) (hcopy : copyUid id = id)
    (hroom : m.used < m.size) (obj : Obj) (depth : ℕ) :
    ∃ m', mapInsert (depth + 2) m id obj = some m' ∧ AddsHere m m' id obj := by
  cases hs : m.home (m.mainposition id) with
  | none => exact mapInsert_free hm hid hcopy (home_eq_none_iff.mp hs) obj (depth + 1)
  | some h =>
    by_cases hne : m.mainposition id = h
    · rw [← hne] at hs
      exact mapInsert_own hm hid hcopy hs hroom obj (depth + 1)
    · obtain ⟨placed, hf, hplaced, hcall, hlost⟩ := mapInsert_foreign hm hid hcopy hs hne obj
      cases htemp : (m.slot (m.mainposition id)).obj with
      | none => exact ⟨placed, hlost htemp (depth + 1), hf.addsHere htemp hplaced⟩
      | some tempObj =>
        obtain ⟨hused, -⟩ := home_eq_some hs
        have hsame : placed.used = m.used := hf.used_eq hid hused
        obtain ⟨m', hresult, ha⟩ := mapInsert_own hplaced hused (hm.copied _)
          (home_mainposition_of_foreign hm hf hid hs hne) (by rw [hsame, hf.size]; exact hroom)
          tempObj depth
        refine ⟨m', by rw [hcall tempObj htemp (depth + 1), hresult], ?_⟩
        exact {
          toAdds := hf.adds hm htemp ha.toAdds
          size := by rw [ha.size, hf.size]
          used := hsame ▸ ha.used }

/-! ## Growth -/

/-- The new array after some of the old slots: it holds what they hold, and has one slot in
use for each of them at most. -/
structure Regrown (m grown : Map Obj) (k : ℕ) : Prop where
  wellFormed : grown.WellFormed
  size : grown.size = 2 * m.size
  used : grown.used ≤ k
  emptied : ∀ id, id ≠ [] → ¬ grown.Emptied id
  ids : ∀ i, (grown.slot i).id ≠ [] → ∃ j < k, (m.slot j).id = (grown.slot i).id
  distinct : m.Distinct → grown.Distinct
  holds_iff : ∀ id obj,
    grown.Holds id obj ↔ ∃ i < k, (m.slot i).id = id ∧ (m.slot i).obj = some obj

theorem regrown_blank (hm : m.WellFormed) : Regrown m (blank (2 * m.size)) 0 where
  wellFormed := wellFormed_blank (Nat.mul_pos two_pos hm.size_pos)
  size := rfl
  used := (used_blank _).le
  emptied := fun _ hid => not_emptied_blank _ hid
  ids := fun _ hi => absurd rfl hi
  distinct := fun _ => distinct_blank _
  holds_iff := fun id obj => iff_of_false (not_holds_blank _ id obj) (by simp)

section

variable {grown : Map Obj}

/-- A free slot has no object, nor has an emptied one, and they are passed over. -/
theorem Regrown.pass (hg : Regrown m grown k) (hnone : (m.slot k).obj = none) :
    Regrown m grown (k + 1) where
  wellFormed := hg.wellFormed
  size := hg.size
  used := hg.used.trans (Nat.le_succ k)
  emptied := hg.emptied
  ids := by
    intro i hi
    obtain ⟨j, hj, hid⟩ := hg.ids i hi
    exact ⟨j, by omega, hid⟩
  distinct := hg.distinct
  holds_iff := by
    intro id obj
    rw [hg.holds_iff]
    constructor
    · rintro ⟨i, hi, hslot⟩
      exact ⟨i, by omega, hslot⟩
    · rintro ⟨i, hi, hslot⟩
      have hne : i ≠ k := by
        rintro rfl
        rw [hnone] at hslot
        exact absurd hslot.2 (by simp)
      exact ⟨i, by omega, hslot⟩

theorem Regrown.copy (hg : Regrown m grown k) (hm : m.WellFormed)
    (hobj : (m.slot k).obj = some obj) (ha : AddsHere grown m' (m.slot k).id obj) :
    Regrown m m' (k + 1) where
  wellFormed := ha.wellFormed
  size := by rw [ha.size, hg.size]
  used := ha.used.trans (Nat.succ_le_succ hg.used)
  emptied := fun id hid h => hg.emptied id hid (ha.emptied id hid h)
  ids := by
    intro i hi
    rcases ha.ids i hi with hnew | ⟨j, hj⟩
    · exact ⟨k, Nat.lt_succ_self k, hnew.symm⟩
    · obtain ⟨j', hj', hid⟩ := hg.ids j (by rw [hj]; exact hi)
      exact ⟨j', by omega, by rw [hid, hj]⟩
  distinct := by
    intro hdistinct
    refine ha.distinct (hg.distinct hdistinct) fun j hj => ?_
    -- an id of the new array comes from a slot in front of `k`
    obtain ⟨j', hj', hid⟩ := hg.ids j (by rw [hj]; exact hm.ne_nil hobj)
    have hsame := hdistinct k j' (hm.ne_nil hobj) (by rw [hid, hj])
    omega
  holds_iff := by
    intro id' obj'
    rw [ha.holds_iff, hg.holds_iff]
    constructor
    · rintro (⟨i, hi, hslot⟩ | ⟨rfl, rfl⟩)
      · exact ⟨i, by omega, hslot⟩
      · exact ⟨k, by omega, rfl, hobj⟩
    · rintro ⟨i, hi, hid', hobj'⟩
      by_cases hik : i = k
      · rw [hik] at hid' hobj'
        rw [hobj] at hobj'
        exact .inr ⟨hid'.symm, by cases hobj'; rfl⟩
      · exact .inl ⟨i, by omega, hid', hobj'⟩

/-- All slots hold what the map holds. -/
theorem Regrown.holds (hg : Regrown m grown m.size) (hm : m.WellFormed) (id : Uid) (obj : Obj) :
    grown.Holds id obj ↔ m.Holds id obj := by
  rw [hg.holds_iff]
  constructor
  · rintro ⟨i, -, hslot⟩
    exact ⟨i, hslot⟩
  · rintro ⟨i, hid, hobj⟩
    exact ⟨i, hm.lt_size (hm.ne_nil hobj), hid, hobj⟩

theorem Regrown.adds (hg : Regrown m grown m.size) (hm : m.WellFormed)
    (ha : Adds grown m' id obj) : Adds m m' id obj where
  wellFormed := ha.wellFormed
  holds_iff := fun id' obj' => by rw [ha.holds_iff, hg.holds hm]
  emptied := fun id' hid' h => absurd (ha.emptied id' hid' h) (hg.emptied id' hid')
  ids := by
    intro i hi
    rcases ha.ids i hi with hnew | ⟨j, hj⟩
    · exact .inl hnew
    · obtain ⟨j', -, hid⟩ := hg.ids j (by rw [hj]; exact hi)
      exact .inr ⟨j', by rw [hid, hj]⟩
  distinct := by
    intro hdistinct hnew
    refine ha.distinct (hg.distinct hdistinct) fun j hj => ?_
    by_cases hnil : (grown.slot j).id = []
    · exact hnew m.size (by rw [hm.outside m.size le_rfl, ← hnil, hj])
    · obtain ⟨j', -, hid⟩ := hg.ids j hnil
      exact hnew j' (by rw [hid, hj])

end

/-- After some of the old slots the new array still has room, so the next insertion finds a
free slot. -/
theorem rehash_prefix (hm : m.WellFormed) (depth : ℕ) {k : ℕ} (hk : k ≤ m.size) :
    ∃ grown, (List.range k).foldlM (fun grown i =>
        match (m.slot i).obj with
        | some obj => mapInsert (depth + 2) grown (m.slot i).id obj
        | none => some grown) (blank (2 * m.size)) = some grown ∧ Regrown m grown k := by
  induction k with
  | zero => exact ⟨_, rfl, regrown_blank hm⟩
  | succ k ih =>
    obtain ⟨grown, hrun, hg⟩ := ih (by omega)
    rw [List.range_succ, List.foldlM_append, hrun]
    cases hobj : (m.slot k).obj with
    | none => exact ⟨grown, by simp [hobj], hg.pass hobj⟩
    | some obj =>
      have hroom : grown.used < grown.size := by
        have hsize := hg.size
        have hused := hg.used
        omega
      obtain ⟨m', hinsert, ha⟩ :=
        mapInsert_room hg.wellFormed (hm.ne_nil hobj) (hm.copied k) hroom obj depth
      exact ⟨m', by simp [hobj, hinsert], hg.copy hm hobj ha⟩

/-- A larger array holds the same, and has free slots. -/
theorem rehash_spec (hm : m.WellFormed) (depth : ℕ) :
    ∃ grown, rehash (depth + 2) m = some grown ∧ Regrown m grown m.size :=
  rehash_prefix hm depth (le_refl m.size)

/-- When the array is full, it grows first. -/
theorem mapInsert_full (hm : m.WellFormed) (hid : id ≠ []) (hcopy : copyUid id = id)
    (hown : m.home (m.mainposition id) = some (m.mainposition id)) (hfull : m.used = m.size)
    (obj : Obj) (depth : ℕ) :
    ∃ m', mapInsert (depth + 3) m id obj = some m' ∧ Adds m m' id obj := by
  obtain ⟨hused, hmain⟩ := home_eq_some hown
  have hall : ∀ i < m.size, (m.slot i).id ≠ [] := by
    intro i hi
    have hcard : ((Finset.range m.size).filter fun i => (m.slot i).id ≠ []).card =
        (Finset.range m.size).card := by
      rw [Finset.card_range]
      exact hfull
    exact Finset.card_filter_eq_iff.mp hcard i (Finset.mem_range.mpr hi)
  obtain ⟨grown, hgrow, hg⟩ := rehash_spec hm depth
  have hroom : grown.used < grown.size := by
    have hsize := hg.size
    have hless := hg.used
    have hpos := hm.size_pos
    omega
  obtain ⟨m', hinsert, ha⟩ := mapInsert_room hg.wellFormed hid hcopy hroom obj depth
  refine ⟨m', ?_, hg.adds hm ha.toAdds⟩
  rw [mapInsert]
  dsimp only
  rw [if_neg hused, if_neg (not_not.mpr hmain)]
  cases hsearch : searchFree m.slot m.unsearched with
  | mk rest found =>
    cases found with
    | none =>
      change (rehash (depth + 2) m >>= fun grown => mapInsert (depth + 2) grown id obj) = some m'
      rw [hgrow]
      exact hinsert
    | some t =>
      -- there is no free slot to be found
      obtain ⟨-, hlt, hfree, -⟩ := searchFree_some hsearch
      exact absurd hfree (hall t (hlt.trans_le hm.unsearched_le))

/-- Four calls within each other are enough: for a slot that is moved, for the insertion of
its pair, and for an insertion into the larger array, which may move another slot. -/
theorem mapInsert_adds (hm : m.WellFormed) (hid : id ≠ []) (hcopy : copyUid id = id) (obj : Obj)
    (depth : ℕ) : ∃ m', mapInsert (depth + 4) m id obj = some m' ∧ Adds m m' id obj := by
  rcases lt_or_eq_of_le (used_le m) with hroom | hfull
  · obtain ⟨m', hresult, ha⟩ := mapInsert_room hm hid hcopy hroom obj (depth + 2)
    exact ⟨m', hresult, ha.toAdds⟩
  · cases hs : m.home (m.mainposition id) with
    | none =>
      obtain ⟨m', hresult, ha⟩ :=
        mapInsert_free hm hid hcopy (home_eq_none_iff.mp hs) obj (depth + 3)
      exact ⟨m', hresult, ha.toAdds⟩
    | some h =>
      by_cases hne : m.mainposition id = h
      · rw [← hne] at hs
        exact mapInsert_full hm hid hcopy hs hfull obj (depth + 1)
      · obtain ⟨placed, hf, hplaced, hcall, hlost⟩ := mapInsert_foreign hm hid hcopy hs hne obj
        cases htemp : (m.slot (m.mainposition id)).obj with
        | none => exact ⟨placed, hlost htemp (depth + 3), (hf.addsHere htemp hplaced).toAdds⟩
        | some tempObj =>
          obtain ⟨hused, -⟩ := home_eq_some hs
          have hplacedFull : placed.used = placed.size := by
            rw [hf.used_eq hid hused, hf.size, hfull]
          obtain ⟨m', hresult, ha⟩ := mapInsert_full hplaced hused (hm.copied _)
            (home_mainposition_of_foreign hm hf hid hs hne) hplacedFull tempObj depth
          exact ⟨m', by rw [hcall tempObj htemp (depth + 3), hresult], hf.adds hm htemp ha⟩

/-! ## Finding -/

/-- An id in use is in the chain that begins at its main position. -/
theorem home_of_id_eq (hid : id ≠ []) (hi : (m.slot i).id = id) :
    m.home i = some (m.mainposition id) := by
  rw [home_of_ne (by rw [hi]; exact hid), hi]

/-- The loop ends, at a slot with the id if there is one. -/
theorem findSlot_spec (hm : m.WellFormed) (hid : id ≠ []) :
    ∃ found, m.findSlot id = some found ∧ (∀ s, found = some s → (m.slot s).id = id) ∧
      (found = none → ∀ i, (m.slot i).id ≠ id) := by
  obtain ⟨chain, hchain⟩ := hm.chains
  cases hs : m.home (m.mainposition id) with
  | none =>
    have hfree : (m.slot (m.mainposition id)).id = [] := home_eq_none_iff.mp hs
    refine ⟨none, ?_, by simp, fun _ i hi => ?_⟩
    · obtain ⟨n, hn⟩ := Nat.exists_eq_add_of_lt hm.size_pos
      rw [findSlot, hn, Nat.zero_add, search, hfree, hchain.free _ hs]
      simpa using hid
    · have hhome := hchain.home_home (home_of_id_eq hid hi)
      rw [hs] at hhome
      cases hhome
  | some h =>
    have hmem : m.mainposition id ∈ chain h := (hchain.mem_iff h _).mpr hs
    obtain ⟨xs, ys, hsplit⟩ := List.append_of_mem hmem
    have hlinked := hchain.linked h
    have hnodup := hchain.nodup h
    have hlen := hm.length_chain_le hchain h
    rw [hsplit] at hlinked hnodup hlen
    have hsearch : m.findSlot id =
        some ((m.mainposition id :: ys).find? fun i => (m.slot i).id == id) :=
      search_eq (hlinked.of_append_right xs hnodup) hnodup.of_append_right (by simp at hlen; omega)
    refine ⟨_, hsearch, fun s hfind => ?_, fun hfind i hi => ?_⟩
    · simpa using List.find?_some hfind
    · have hhome := home_of_id_eq hid hi
      have hself := hchain.home_home hhome
      rw [hs] at hself
      cases hself
      -- the chain begins at the main position, so the loop sees all of it
      have hi' : i ∈ xs ++ m.mainposition id :: ys := by
        rw [← hsplit, hchain.mem_iff]
        exact hhome
      cases xs with
      | nil =>
        have hnot := List.find?_eq_none.mp hfind i hi'
        simp [hi] at hnot
      | cons x xs =>
        have hx : x = m.mainposition id := hchain.first _ _ _ hsplit
        rw [hx] at hnodup
        exact (List.nodup_cons.mp hnodup).1 (by simp)

/-- What the map holds under an id is found, and nothing else, unless the slot of the id has
lost its object. -/
theorem mapFind_cases (hm : m.WellFormed) (hid : id ≠ []) (hkept : ¬ m.Emptied id) (fresh : Obj) :
    (∃ obj, m.mapFind id fresh = some (m, some obj) ∧ m.peek id = some obj ∧ m.Holds id obj) ∨
      m.mapFind id fresh = some (m, none) ∧ m.peek id = none ∧ ∀ obj, ¬ m.Holds id obj := by
  obtain ⟨found, hfound, hsome, hnone⟩ := findSlot_spec hm hid
  cases found with
  | none =>
    refine .inr ⟨by rw [mapFind, hfound]; rfl, by rw [peek, hfound]; rfl, ?_⟩
    rintro obj ⟨i, hi, -⟩
    exact hnone rfl i hi
  | some s =>
    have hs : (m.slot s).id = id := hsome s rfl
    obtain ⟨obj, hobj⟩ := hm.exists_obj (s := s) (by rw [hs]; exact hid) (by rw [hs]; exact hkept)
    refine .inl ⟨obj, ?_, by rw [peek, hfound]; exact hobj, s, hs, hobj⟩
    simp [mapFind, hfound, hobj]

/-- An id that no slot has is not found. -/
theorem mapFind_of_not_slotted (hm : m.WellFormed) (hid : id ≠ []) (hnew : ¬ m.Slotted id)
    (fresh : Obj) : m.mapFind id fresh = some (m, none) := by
  have hkept : ¬ m.Emptied id := fun ⟨i, hi, heq, _⟩ => hnew ⟨i, hi, heq⟩
  rcases mapFind_cases hm hid hkept fresh with ⟨obj, -, -, i, hi, -⟩ | ⟨hfind, -⟩
  · exact absurd ⟨i, hm.lt_size (by rw [hi]; exact hid), hi⟩ hnew
  · exact hfind

theorem WellFormed.ne_of_not_slotted (hm : m.WellFormed) (hid : id ≠ []) (hnew : ¬ m.Slotted id)
    (i : ℕ) : (m.slot i).id ≠ id :=
  fun hi => hnew ⟨i, hm.lt_size (by rw [hi]; exact hid), hi⟩

/-! ## The object of a slot -/

/-- The object of a slot is written; its id and its link stay. -/
def setObj (m : Map Obj) (s : ℕ) (obj : Option Obj) : Map Obj :=
  m.setSlot s { m.slot s with obj := obj }

theorem id_setObj (m : Map Obj) (s : ℕ) (obj : Option Obj) (i : ℕ) :
    ((m.setObj s obj).slot i).id = (m.slot i).id := by
  unfold setObj
  exact id_setSlot (by rfl) i

theorem obj_setObj (m : Map Obj) (s : ℕ) (obj : Option Obj) (i : ℕ) :
    ((m.setObj s obj).slot i).obj = if i = s then obj else (m.slot i).obj := by
  rw [setObj, slot_setSlot]
  split <;> rfl

theorem WellFormed.setObj (hm : m.WellFormed) (hs : (m.slot s).id ≠ []) (obj : Option Obj) :
    (m.setObj s obj).WellFormed where
  size_pos := hm.size_pos
  chains := by
    obtain ⟨chain, hchain⟩ := hm.chains
    have hnext : (m.setObj s obj).next = m.next := by
      rw [Map.setObj, next_setSlot]
      exact Function.update_eq_self s m.next
    have hhome : (m.setObj s obj).home = m.home := by
      funext i
      rw [home, home, id_setObj]
      rfl
    rw [hnext, hhome]
    exact ⟨chain, hchain⟩
  outside := fun i hi => by rw [id_setObj]; exact hm.outside i hi
  copied := fun i => by rw [id_setObj]; exact hm.copied i
  obj := by
    intro i hi
    rw [id_setObj] at hi
    have hne : i ≠ s := fun heq => hs (heq ▸ hi)
    rw [obj_setObj, if_neg hne]
    exact hm.obj i hi
  unsearched_le := hm.unsearched_le
  searched := fun i hi hlt => by rw [id_setObj]; exact hm.searched i hi hlt

theorem Distinct.setObj (hdistinct : m.Distinct) (s : ℕ) (obj : Option Obj) :
    (m.setObj s obj).Distinct := by
  intro i j hi hij
  rw [id_setObj] at hi
  rw [id_setObj, id_setObj] at hij
  exact hdistinct i j hi hij

/-- Where ids are distinct, only what the map holds under the id of the slot changes. -/
theorem holds_setObj_iff (hdistinct : m.Distinct) (hs : (m.slot s).id ≠ [])
    (new : Option Obj) (id' : Uid) (obj' : Obj) :
    (m.setObj s new).Holds id' obj' ↔
      if id' = (m.slot s).id then new = some obj' else m.Holds id' obj' := by
  have honly : ∀ i, (m.slot i).id = (m.slot s).id → i = s :=
    fun i hi => (hdistinct s i hs hi.symm).symm
  unfold Holds
  simp only [id_setObj, obj_setObj]
  split
  · next heq =>
    constructor
    · rintro ⟨i, hi, hobj⟩
      rwa [if_pos (honly i (hi.trans heq))] at hobj
    · intro hnew
      exact ⟨s, heq.symm, by rw [if_pos rfl, hnew]⟩
  · next hne =>
    refine exists_congr fun i => and_congr_right fun hi => ?_
    rw [if_neg]
    rintro rfl
    exact hne hi.symm

/-- The map forgets the object of an id, and no other; the slot stays. -/
theorem mapDrop_spec (hm : m.WellFormed) (hdistinct : m.Distinct) (hheld : m.Holds id obj) :
    ∃ m', m.mapDrop id = some (m', some obj) ∧ m'.WellFormed ∧ m'.Distinct ∧ m'.Emptied id ∧
      ∀ id' obj', m'.Holds id' obj' ↔ id' ≠ id ∧ m.Holds id' obj' := by
  obtain ⟨i, hi, hobj⟩ := hheld
  have hused : (m.slot i).id ≠ [] := hm.ne_nil hobj
  obtain ⟨found, hfound, hsome, hnone⟩ := findSlot_spec hm (hi ▸ hused)
  cases found with
  | none => exact absurd hi (hnone rfl i)
  | some s =>
    have his : i = s := hdistinct i s hused (by rw [hi, hsome s rfl])
    subst his
    refine ⟨m.setObj i none, ?_, hm.setObj hused none, hdistinct.setObj i none,
      ⟨i, hm.lt_size hused, ?_, ?_⟩, fun id' obj' => ?_⟩
    · rw [mapDrop, hfound, ← hobj]
      rfl
    · rw [id_setObj, hi]
    · rw [obj_setObj, if_pos rfl]
    · rw [holds_setObj_iff hdistinct hused, hi]
      split <;> simp_all

/-- Where the slot of an id has lost its object, a new one is put there. -/
theorem mapFind_of_emptied (hm : m.WellFormed) (hdistinct : m.Distinct) (hid : id ≠ [])
    (hlost : m.Emptied id) (fresh : Obj) :
    ∃ m', m.mapFind id fresh = some (m', some fresh) ∧ m'.WellFormed ∧ m'.Distinct ∧
      ∀ id' obj', m'.Holds id' obj' ↔ if id' = id then fresh = obj' else m.Holds id' obj' := by
  obtain ⟨i, -, hi, hobj⟩ := hlost
  have hused : (m.slot i).id ≠ [] := hi ▸ hid
  obtain ⟨found, hfound, hsome, hnone⟩ := findSlot_spec hm hid
  cases found with
  | none => exact absurd hi (hnone rfl i)
  | some s =>
    have his : i = s := hdistinct i s hused (by rw [hi, hsome s rfl])
    subst his
    refine ⟨m.setObj i (some fresh), ?_, hm.setObj hused _, hdistinct.setObj i _,
      fun id' obj' => ?_⟩
    · simp [mapFind, hfound, hobj, setObj]
    · rw [holds_setObj_iff hdistinct hused, hi, Option.some.injEq]

end

end Map
end Aoi
end ArmyRs
