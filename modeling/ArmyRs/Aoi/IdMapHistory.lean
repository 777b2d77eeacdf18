import ArmyRs.Aoi.IdMapChains
import ArmyRs.Foundation.Transition

/-!
# The map over a whole run

`MapHistory` follows a map and remembers what was inserted into it.  As long as no id is
empty, every operation ends, and the map holds each object under the copied id that it was
inserted under (`exec_consistent`).  A copied id is the id itself up to `MAX_UID_LEN`
characters; a longer one is cut, and not found again (`sound_iff`).

An empty id marks a free slot, so nothing can be said of a run in which one is used.
-/

namespace ArmyRs
namespace Aoi

open Foundation

variable {Obj : Type}

/-- The operations; `fresh` is the object that a call would allocate. -/
inductive MapOp (Obj : Type)
  | insert (id : Uid) (obj : Obj)
  | query (id : Uid) (fresh : Obj)
  | find (id : Uid) (fresh : Obj)
  | rehash
  deriving DecidableEq, Repr

/-- A map, and the pairs that were inserted into it. -/
structure MapHistory (Obj : Type) where
  map : Map Obj
  log : List (Uid × Obj)

namespace MapOp

def NonEmpty : MapOp Obj → Prop
  | insert id _ | query id _ | find id _ => id ≠ []
  | rehash => True

/-- The operation may insert a pair with the id. -/
def Inserts (uid : Uid) : MapOp Obj → Prop
  | insert id _ | query id _ => id = uid
  | find _ _ | rehash => False

/-- No id is empty, and none that is inserted has more than `MAX_UID_LEN` characters. -/
def Careful (op : MapOp Obj) : Prop :=
  op.NonEmpty ∧ ∀ uid, op.Inserts uid → uid.length ≤ maxUidLen

end MapOp

namespace MapHistory

def init : MapHistory Obj := ⟨Map.mapNew, []⟩

/-- A query or a find inserts its new object when the map has none under the id. -/
def step (depth : ℕ) (h : MapHistory Obj) : MapOp Obj → Option (MapHistory Obj)
  | .insert id obj => do
    let m ← Map.mapInsert depth h.map id obj
    some ⟨m, (id, obj) :: h.log⟩
  | .query id fresh => do
    let (m, _) ← h.map.mapQuery depth id fresh
    some ⟨m, if h.map.peek id = none then (id, fresh) :: h.log else h.log⟩
  | .find id fresh => do
    let (m, answer) ← h.map.mapFind id fresh
    some ⟨m, if h.map.peek id = none ∧ answer ≠ none then (id, fresh) :: h.log else h.log⟩
  | .rehash => do
    let m ← Map.rehash depth h.map
    some ⟨m, h.log⟩

/-- Every id that was inserted is found again, with an object inserted under it, and with its
own when there was only one; other ids are in other slots; and no slot is reached from
itself. -/
structure Sound (h : MapHistory Obj) : Prop where
  found : ∀ id obj, (id, obj) ∈ h.log → ∀ fresh,
    ∃ obj', h.map.mapFind id fresh = some (h.map, some obj') ∧ (id, obj') ∈ h.log
  own : ∀ id obj, (id, obj) ∈ h.log → (∀ obj', (id, obj') ∈ h.log → obj' = obj) →
    ∀ fresh, h.map.mapFind id fresh = some (h.map, some obj)
  apart : ∀ id obj id' obj', (id, obj) ∈ h.log → (id', obj') ∈ h.log → id ≠ id' →
    ∃ s s', h.map.findSlot id = some (some s) ∧ h.map.findSlot id' = some (some s') ∧ s ≠ s'
  acyclic : ∀ s, ¬ Relation.TransGen (fun a b => h.map.next a = some b) s s

/-- The map holds what was inserted, under the copied ids, and no slot has lost its
object. -/
structure Consistent (h : MapHistory Obj) : Prop where
  wellFormed : h.map.WellFormed
  kept : ∀ id, id ≠ [] → ¬ h.map.Emptied id
  holds_iff : ∀ id obj, h.map.Holds id obj ↔ ∃ id', (id', obj) ∈ h.log ∧ copyUid id' = id

section

variable {h h' : MapHistory Obj} {m : Map Obj} {id : Uid} {obj : Obj} {op : MapOp Obj}

theorem consistent_init : (init : MapHistory Obj).Consistent where
  wellFormed := Map.wellFormed_blank (by decide)
  kept := fun _ hid => Map.not_emptied_blank _ hid
  holds_iff := fun id obj => iff_of_false (Map.not_holds_blank _ id obj) (by simp [init])

/-- An insertion under an id is one under its copy. -/
theorem Consistent.insert (hh : h.Consistent) (hid : id ≠ []) (obj : Obj) (depth : ℕ) :
    ∃ m, Map.mapInsert (depth + 4) h.map id obj = some m ∧
      Consistent ⟨m, (id, obj) :: h.log⟩ := by
  obtain ⟨m, hinsert, ha⟩ := Map.mapInsert_adds hh.wellFormed (copyUid_ne_nil hid)
    (copyUid_copyUid id) obj depth
  rw [Map.mapInsert_copyUid] at hinsert
  refine ⟨m, hinsert, ha.wellFormed, fun id' hid' h => hh.kept id' hid' (ha.emptied id' hid' h),
    fun id' obj' => ?_⟩
  dsimp only
  rw [ha.holds_iff, hh.holds_iff]
  constructor
  · rintro (⟨uid, hmem, hcopy⟩ | ⟨rfl, rfl⟩)
    · exact ⟨uid, List.mem_cons_of_mem _ hmem, hcopy⟩
    · exact ⟨id, List.mem_cons_self, rfl⟩
  · rintro ⟨uid, hmem, hcopy⟩
    rcases List.mem_cons.mp hmem with heq | hmem
    · cases heq
      exact .inr ⟨hcopy.symm, rfl⟩
    · exact .inl ⟨uid, hmem, hcopy⟩

/-- Every operation ends and leaves the map consistent, and it remembers no other ids than
it may insert. -/
theorem Consistent.step (hh : h.Consistent) (hop : op.NonEmpty) (depth : ℕ) :
    ∃ h', h.step (depth + 4) op = some h' ∧ h'.Consistent ∧
      ∀ pair ∈ h'.log, pair ∈ h.log ∨ op.Inserts pair.1 := by
  cases op with
  | insert id obj =>
    obtain ⟨m, hinsert, hm⟩ := hh.insert hop obj depth
    refine ⟨_, by rw [MapHistory.step, hinsert]; rfl, hm, fun pair hpair => ?_⟩
    rcases List.mem_cons.mp hpair with rfl | hpair
    · exact .inr rfl
    · exact .inl hpair
  | query id fresh =>
    rcases Map.mapFind_cases hh.wellFormed hop (hh.kept id hop) fresh with
      ⟨obj, hfind, hpeek, -⟩ | ⟨hfind, hpeek, -⟩
    · refine ⟨h, ?_, hh, fun pair hpair => .inl hpair⟩
      simp [MapHistory.step, Map.mapQuery, hfind, hpeek]
    · -- not found: `map_query` makes a new object and inserts it
      obtain ⟨m, hinsert, hm⟩ := hh.insert hop fresh depth
      refine ⟨_, ?_, hm, fun pair hpair => ?_⟩
      · simp [MapHistory.step, Map.mapQuery, hfind, hpeek, hinsert]
      · rcases List.mem_cons.mp hpair with rfl | hpair
        · exact .inr rfl
        · exact .inl hpair
  | find id fresh =>
    refine ⟨h, ?_, hh, fun pair hpair => .inl hpair⟩
    rcases Map.mapFind_cases hh.wellFormed hop (hh.kept id hop) fresh with
      ⟨obj, hfind, hpeek, -⟩ | ⟨hfind, hpeek, -⟩
    · simp [MapHistory.step, hfind, hpeek]
    · simp [MapHistory.step, hfind]
  | rehash =>
    obtain ⟨grown, hgrow, hg⟩ := Map.rehash_spec hh.wellFormed (depth + 2)
    refine ⟨⟨grown, h.log⟩, by rw [MapHistory.step, hgrow]; rfl,
      ⟨hg.wellFormed, hg.emptied, fun id obj => ?_⟩, fun pair hpair => .inl hpair⟩
    rw [hg.holds hh.wellFormed, hh.holds_iff]

/-- The same for a whole run. -/
theorem Consistent.exec (hh : h.Consistent) {ops : List (MapOp Obj)}
    (hops : ∀ op ∈ ops, op.NonEmpty) (depth : ℕ) :
    ∃ h', Foundation.exec (MapHistory.step (depth + 4)) free h ops = some h' ∧ h'.Consistent ∧
      ∀ pair ∈ h'.log, pair ∈ h.log ∨ ∃ op ∈ ops, op.Inserts pair.1 := by
  induction ops generalizing h with
  | nil => exact ⟨h, rfl, hh, fun pair hpair => .inl hpair⟩
  | cons op ops ih =>
    obtain ⟨next, hstep, hnext, hlog⟩ := hh.step (hops op List.mem_cons_self) depth
    obtain ⟨final, hrun, hfinal, hlog'⟩ := ih hnext fun op hop => hops op (.tail _ hop)
    refine ⟨final, ?_, hfinal, fun pair hpair => ?_⟩
    · have hfree : free h op := trivial
      rw [Foundation.exec, if_pos hfree, hstep]
      exact hrun
    · rcases hlog' pair hpair with hbefore | ⟨op', hop', hinserts⟩
      · rcases hlog pair hbefore with hold | hnew
        · exact .inl hold
        · exact .inr ⟨op, List.mem_cons_self, hnew⟩
      · exact .inr ⟨op', .tail _ hop', hinserts⟩

/-! ## What is found -/

theorem Consistent.ne_nil (hh : h.Consistent) (hmem : (id, obj) ∈ h.log) : id ≠ [] := by
  rintro rfl
  obtain ⟨i, hid, hobj⟩ := (hh.holds_iff [] obj).mpr ⟨[], hmem, rfl⟩
  exact hh.wellFormed.ne_nil hobj hid

/-- An id that is too long is not found, whatever was inserted. -/
theorem Consistent.mapFind_long (hh : h.Consistent) (hlong : maxUidLen < id.length)
    (fresh : Obj) : h.map.mapFind id fresh = some (h.map, none) := by
  have hid : id ≠ [] := by
    rintro rfl
    exact absurd hlong (Nat.not_lt_zero _)
  rcases Map.mapFind_cases hh.wellFormed hid (hh.kept id hid) fresh with
    ⟨obj, -, -, i, hi, -⟩ | ⟨hfind, -⟩
  · have hcopied := hh.wellFormed.copied i
    have hlen := length_copyUid_le (h.map.slot i).id
    rw [hcopied, hi] at hlen
    exact absurd hlong (not_lt.mpr hlen)
  · exact hfind

/-- The ids that were inserted are found as they should be when none of them was cut. -/
theorem sound_iff (hh : h.Consistent) :
    h.Sound ↔ ∀ pair ∈ h.log, pair.1.length ≤ maxUidLen := by
  constructor
  · rintro hsound ⟨id, obj⟩ hmem
    by_contra hlong
    obtain ⟨obj', hfind, -⟩ := hsound.found id obj hmem obj
    rw [hh.mapFind_long (not_le.mp hlong)] at hfind
    cases hfind
  · intro hshort
    -- copying changes none of the ids, so the map holds exactly the pairs of the log
    have hholds : ∀ id obj, h.map.Holds id obj ↔ (id, obj) ∈ h.log := by
      intro id obj
      rw [hh.holds_iff]
      constructor
      · rintro ⟨id', hmem, hcopy⟩
        rw [copyUid_of_le (hshort _ hmem)] at hcopy
        exact hcopy ▸ hmem
      · intro hmem
        exact ⟨id, hmem, copyUid_of_le (hshort _ hmem)⟩
    have hfound : ∀ id obj, (id, obj) ∈ h.log → ∀ fresh,
        ∃ obj', h.map.mapFind id fresh = some (h.map, some obj') ∧ (id, obj') ∈ h.log := by
      intro id obj hmem fresh
      have hid := hh.ne_nil hmem
      rcases Map.mapFind_cases hh.wellFormed hid (hh.kept id hid) fresh with
        ⟨obj', hfind, -, hobj'⟩ | ⟨-, -, hnone⟩
      · exact ⟨obj', hfind, (hholds id obj').mp hobj'⟩
      · exact absurd ((hholds id obj).mpr hmem) (hnone obj)
    have hslot : ∀ id obj, (id, obj) ∈ h.log →
        ∃ s, h.map.findSlot id = some (some s) ∧ (h.map.slot s).id = id := by
      intro id obj hmem
      obtain ⟨found, hfind, hsome, hnone⟩ :=
        Map.findSlot_spec hh.wellFormed (hh.ne_nil hmem)
      cases found with
      | none =>
        obtain ⟨i, hi, -⟩ := (hholds id obj).mpr hmem
        exact absurd hi (hnone rfl i)
      | some s => exact ⟨s, hfind, hsome s rfl⟩
    constructor
    case found => exact hfound
    case own =>
      intro id obj hmem honly fresh
      obtain ⟨obj', hfind, hmem'⟩ := hfound id obj hmem fresh
      rw [hfind, honly obj' hmem']
    case apart =>
      intro id obj id' obj' hmem hmem' hne
      obtain ⟨s, hs, hid⟩ := hslot id obj hmem
      obtain ⟨s', hs', hid'⟩ := hslot id' obj' hmem'
      refine ⟨s, s', hs, hs', ?_⟩
      rintro rfl
      exact hne (hid.symm.trans hid')
    case acyclic =>
      obtain ⟨chain, hchain⟩ := hh.wellFormed.chains
      exact hchain.acyclic

end

/-- In every run whose ids can be told from a free slot and from each other after they are
copied, the map is sound. -/
theorem sound_of_careful (depth : ℕ) (ops : List (MapOp Obj)) (hops : ∀ op ∈ ops, op.Careful) :
    ∃ h, exec (step (depth + 4)) free init ops = some h ∧ h.Sound := by
  obtain ⟨h, hrun, hh, hlog⟩ := consistent_init.exec (fun op hop => (hops op hop).1) depth
  refine ⟨h, hrun, (sound_iff hh).mpr fun pair hpair => ?_⟩
  rcases hlog pair hpair with hstart | ⟨op, hop, hinserts⟩
  · exact absurd hstart List.not_mem_nil
  · exact (hops op hop).2 pair.1 hinserts

/-- Two ids with the same main position, and a larger array. -/
theorem sound_of_careful_collision :
    ∃ h, exec (step 4) free init
      [.insert [97#8] 0, .query [98#8] 1, .rehash, .find [97#8] 2] = some h ∧ h.Sound := by
  apply sound_of_careful 0
  simp [MapOp.Careful, MapOp.NonEmpty, MapOp.Inserts, maxUidLen]

/-- An id of 128 characters is inserted and not found. -/
theorem not_sound_long :
    ∃ h, exec (step 4) free init [.insert (List.replicate 128 97#8) 0] = some h ∧ ¬ h.Sound := by
  have hid : (List.replicate 128 97#8 : Uid) ≠ [] := by decide
  obtain ⟨m, hinsert, hm⟩ := consistent_init.insert hid 0 0
  refine ⟨⟨m, (List.replicate 128 97#8, 0) :: []⟩, ?_, fun hsound => ?_⟩
  · have hfree : free (init : MapHistory ℕ) (MapOp.insert (List.replicate 128 97#8) 0) := trivial
    rw [exec, if_pos hfree, step, hinsert]
    rfl
  · have hshort := (sound_iff hm).mp hsound (List.replicate 128 97#8, 0) List.mem_cons_self
    rw [List.length_replicate] at hshort
    exact absurd hshort (by decide)

/-- The empty id is lost when its slot, which counts as free, is filled again. -/
theorem not_sound_empty :
    ∃ h, exec (step 4) free init [.insert [] 0, .insert [97#8] 1] = some h ∧ ¬ h.Sound := by
  refine ⟨_, rfl, fun hsound => ?_⟩
  obtain ⟨obj, hfind, -⟩ := hsound.found [] 0 (by simp) 2
  have hlost : some none = some (some obj) := congrArg (Option.map Prod.snd) hfind
  cases hlost

end MapHistory

end Aoi
end ArmyRs
