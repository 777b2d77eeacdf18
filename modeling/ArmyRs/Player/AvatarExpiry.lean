import ArmyRs.Foundation.Interruptions
import ArmyRs.Foundation.Tables
import ArmyRs.Player.AvatarData

/-!
# Expired cars and parts

`refresh_avatar` goes through the bag and takes out what has expired.  A car loses
its equipped data; a part is replaced in the schemes of all cars.

`return_default_avatar` replaces avatars, in the slots for which a car has a default
part.  In the other slots, and for decorations, paints, dust and nitrogen, it sets its
own parameter, so that the part stays in the scheme although it left the bag
(`refreshed_iff`).
-/

namespace ArmyRs
namespace Player

open Foundation

/-- `return_default_avatar` knows the key. -/
def Slot.HasDefault : Slot → Prop
  | .body | .wheel | .dust | .notrigen | .tail => True
  | .decorationF | .decorationB | .paint => False

instance Slot.decidableHasDefault (slot : Slot) : Decidable slot.HasDefault := by
  cases slot <;> unfold Slot.HasDefault <;> infer_instance

/-- The default part of a car; there may be no tail. -/
def Hero.default (hero : Hero) : Slot → String
  | .body => hero.bodyId
  | .wheel => hero.wheelId
  | .dust => hero.dustId
  | .notrigen => hero.notrigenId
  | .tail => hero.tailId.getD ""
  | .decorationF | .decorationB | .paint => ""

/-- `return_default_avatar`, on the scheme `eqs` of the car. -/
def returnDefaultAvatar (heroes : Heroes) (value car : String) (key : Slot) (eqs : CarEquipped) :
    CarEquipped × Bool :=
  if lineBegins "ava" value ∧ key.HasDefault then
    match checkDefaultAvatar heroes car with
    | none => (eqs, false)
    | some hero => (eqs.set (hero.default key) key, true)
  -- `value = ''` does not reach the scheme
  else (eqs, true)

/-- The body of the loop over the keys; `ss` is the scheme as it was before. -/
def refreshSlot (heroes : Heroes) (itemId car : String) (ss eqs : CarEquipped) (key : Slot) :
    CarEquipped × Bool :=
  if ss.get key = itemId then returnDefaultAvatar heroes itemId car key eqs else (eqs, true)

/-- A scheme without the item. -/
def refreshScheme (heroes : Heroes) (itemId car : String) (ss : CarEquipped) : CarEquipped × Bool :=
  sweep (refreshSlot heroes itemId car ss) ss Slot.all

/-- The schemes of a car without the item. -/
def refreshCar (heroes : Heroes) (itemId : String) (entry : Σ _ : String, EquippedData) :
    (Σ _ : String, EquippedData) × Bool :=
  (⟨entry.1, { entry.2 with
    schemes := (updateEach (refreshScheme heroes itemId entry.1) entry.2.schemes).1 }⟩,
    (updateEach (refreshScheme heroes itemId entry.1) entry.2.schemes).2)

theorem refreshCar_key (heroes : Heroes) (itemId : String) (entry : Σ _ : String, EquippedData) :
    (refreshCar heroes itemId entry).1.1 = entry.1 := rfl

/-- What is done for an item that has expired. -/
def AvatarData.expire (heroes : Heroes) (s : AvatarData) (itemId : String) : AvatarData × Bool :=
  if lineBegins "car" itemId then
    ({ s with equippedData := s.equippedData.erase itemId, bag := s.bag.erase itemId }, true)
  else
    let cars := updateTable (refreshCar heroes itemId) (refreshCar_key heroes itemId) s.equippedData
    if cars.2 then ({ s with equippedData := cars.1, bag := s.bag.erase itemId }, true)
    else ({ s with equippedData := cars.1 }, false)

/-- The body of the loop over the bag. -/
def AvatarData.refreshItem (heroes : Heroes) (now : Nat) (s : AvatarData)
    (entry : Σ _ : String, AvatarItem) : AvatarData × Bool :=
  if entry.2.Expired now then s.expire heroes entry.1 else (s, true)

/-- `refresh_avatar`, and whether it did not raise. -/
def AvatarData.refreshAvatar (heroes : Heroes) (now : Nat) (s : AvatarData) : AvatarData × Bool :=
  sweep (AvatarData.refreshItem heroes now) s s.bag.entries

/-! ## One slot -/

section

variable {heroes : Heroes} {car itemId : String} {gone : String → Prop} {slot : Slot}
  {ss ss' : CarEquipped}

/-- A part that is taken out of its slot. -/
def Falls (gone : String → Prop) (slot : Slot) (part : String) : Prop :=
  gone part ∧ lineBegins "car" part = false ∧ lineBegins "ava" part = true ∧ slot.HasDefault

/-- What is in a slot after some items are gone. -/
inductive Settles (heroes : Heroes) (car : String) (gone : String → Prop) (slot : Slot)
    (part part' : String) : Prop
  | replaced (falls : Falls gone slot part) (hero : Hero)
      (hhero : checkDefaultAvatar heroes car = some hero) (hdefault : part' = hero.default slot)
  | kept (stays : ¬ Falls gone slot part) (heq : part' = part)

def Settled (heroes : Heroes) (car : String) (gone : String → Prop) (ss ss' : CarEquipped) : Prop :=
  ∀ slot, Settles heroes car gone slot (ss.get slot) (ss'.get slot)

theorem settled_refl (hgone : ∀ x, ¬ gone x) : Settled heroes car gone ss ss :=
  fun _ => .kept (fun falls => hgone _ falls.1) rfl

/-- Items that are gone one after the other. -/
theorem Settled.trans {more : String → Prop} {ss'' : CarEquipped}
    (h : Settled heroes car gone ss ss') (h' : Settled heroes car more ss' ss'') :
    Settled heroes car (fun x => gone x ∨ more x) ss ss'' := by
  intro slot
  rcases h slot with ⟨falls, hero, hhero, hdefault⟩ | ⟨stays, heq⟩
  · -- the default part stays, or is replaced by itself
    refine .replaced ⟨.inl falls.1, falls.2⟩ hero hhero ?_
    rcases h' slot with ⟨-, other, hother, hdefault'⟩ | ⟨-, heq⟩
    · rw [hhero, Option.some.injEq] at hother
      rw [hdefault', hother]
    · rw [heq, hdefault]
  · have hnext := h' slot
    rw [heq] at hnext
    rcases hnext with ⟨falls, hero, hhero, hdefault⟩ | ⟨stays', heq'⟩
    · exact .replaced ⟨.inr falls.1, falls.2⟩ hero hhero hdefault
    · refine .kept ?_ heq'
      rintro ⟨hgone | hmore, hrest⟩
      · exact stays ⟨hgone, hrest⟩
      · exact stays' ⟨hmore, hrest⟩

theorem Settled.congr {gone' : String → Prop} (h : Settled heroes car gone ss ss')
    (hiff : ∀ slot part, Falls gone slot part ↔ Falls gone' slot part) :
    Settled heroes car gone' ss ss' := by
  intro slot
  rcases h slot with ⟨falls, hero, hhero, hdefault⟩ | ⟨stays, heq⟩
  · exact .replaced ((hiff _ _).mp falls) hero hhero hdefault
  · exact .kept (fun falls => stays ((hiff _ _).mpr falls)) heq

/-! ## One scheme -/

/-- What the loop over the keys has done. -/
structure SlotsDone (heroes : Heroes) (itemId car : String) (ss : CarEquipped) (done : List Slot)
    (eqs : CarEquipped) : Prop where
  settled : ∀ slot ∈ done, Settles heroes car (· = itemId) slot (ss.get slot) (eqs.get slot)
  other : ∀ slot ∉ done, eqs.get slot = ss.get slot

/-- A scheme that differs from the one before in the slot of the key alone. -/
theorem SlotsDone.snoc {done : List Slot} {eqs next : CarEquipped} {key : Slot}
    (keys : SlotsDone heroes itemId car ss done eqs)
    (hkey : Settles heroes car (· = itemId) key (ss.get key) (next.get key))
    (hother : ∀ slot, slot ≠ key → next.get slot = eqs.get slot) :
    SlotsDone heroes itemId car ss (done ++ [key]) next := by
  refine ⟨fun slot hslot => ?_, fun slot hslot => ?_⟩
  · by_cases heq : slot = key
    · rw [heq]
      exact hkey
    · rw [hother slot heq]
      exact keys.settled slot (by simpa [heq] using hslot)
  · rw [List.mem_append, List.mem_singleton, not_or] at hslot
    rw [hother slot hslot.2, keys.other slot hslot.1]

theorem SlotsDone.stays {done : List Slot} {eqs : CarEquipped} {key : Slot}
    (keys : SlotsDone heroes itemId car ss done eqs)
    (hstays : ¬ Falls (· = itemId) key (ss.get key)) :
    SlotsDone heroes itemId car ss (done ++ [key]) eqs := by
  refine keys.snoc ?_ fun _ _ => rfl
  by_cases hdone : key ∈ done
  · exact keys.settled key hdone
  · exact .kept hstays (keys.other key hdone)

theorem slotsDone_refreshSlot {done : List Slot} {eqs : CarEquipped} {key : Slot}
    (hcar : lineBegins "car" itemId = false) (keys : SlotsDone heroes itemId car ss done eqs) :
    ((refreshSlot heroes itemId car ss eqs key).2 = true ∧
        SlotsDone heroes itemId car ss (done ++ [key])
          (refreshSlot heroes itemId car ss eqs key).1) ∨
      ((refreshSlot heroes itemId car ss eqs key).2 = false ∧
        Falls (· = itemId) key (ss.get key) ∧ checkDefaultAvatar heroes car = none) := by
  unfold refreshSlot returnDefaultAvatar
  by_cases hitem : ss.get key = itemId
  · by_cases hdefault : lineBegins "ava" itemId ∧ key.HasDefault
    · have falls : Falls (· = itemId) key (ss.get key) :=
        ⟨hitem, by rw [hitem]; exact hcar, by rw [hitem]; exact hdefault.1, hdefault.2⟩
      cases hhero : checkDefaultAvatar heroes car with
      | none => exact .inr ⟨by simp [hitem, hdefault], falls, rfl⟩
      | some hero =>
          simp only [hitem, hdefault, and_self, if_true]
          refine .inl ⟨trivial, keys.snoc ?_ fun slot hne => CarEquipped.get_set_ne _ _ hne⟩
          exact .replaced falls hero hhero (CarEquipped.get_set _ _ _)
    · simp only [hitem, hdefault, if_true, if_false]
      refine .inl ⟨trivial, keys.stays ?_⟩
      rintro ⟨-, -, hava, hslot⟩
      exact hdefault ⟨by rw [← hitem]; exact hava, hslot⟩
  · simp only [hitem, if_false]
    exact .inl ⟨trivial, keys.stays fun falls => hitem falls.1⟩

/-- A scheme settles without the item, or some slot of a car that is not known needs a
default part. -/
theorem refreshScheme_cases (hcar : lineBegins "car" itemId = false) :
    ((refreshScheme heroes itemId car ss).2 = true ∧
        Settled heroes car (· = itemId) ss (refreshScheme heroes itemId car ss).1) ∨
      ((refreshScheme heroes itemId car ss).2 = false ∧
        checkDefaultAvatar heroes car = none ∧
        ∃ slot, Falls (· = itemId) slot (ss.get slot)) := by
  unfold refreshScheme
  have hstart : SlotsDone heroes itemId car ss [] ss := ⟨by simp, fun _ _ => rfl⟩
  have hstep : ∀ done key eqs, SlotsDone heroes itemId car ss done eqs →
      (refreshSlot heroes itemId car ss eqs key).2 = true →
      SlotsDone heroes itemId car ss (done ++ [key])
        (refreshSlot heroes itemId car ss eqs key).1 := by
    intro done key eqs keys hok
    rcases @slotsDone_refreshSlot _ _ _ _ _ _ key hcar keys with ⟨-, next⟩ | ⟨hraise, -⟩
    · exact next
    · rw [hok] at hraise
      cases hraise
  rcases sweep_cases hstart hstep Slot.all with
    ⟨hok, keys⟩ | ⟨done, key, rest, eqs, -, keys, hraise, heq⟩
  · exact .inl ⟨hok, fun slot => keys.settled slot slot.mem_all⟩
  · rcases @slotsDone_refreshSlot _ _ _ _ _ _ key hcar keys with ⟨hok, -⟩ | ⟨-, falls, hhero⟩
    · rw [hok] at hraise
      cases hraise
    · rw [heq]
      exact .inr ⟨rfl, hhero, key, falls⟩

/-! ## One car -/

variable {data data' : EquippedData}

/-- The schemes of a car settle, or the car is not known and some slot needs a default part. -/
theorem refreshCar_cases (hcar : lineBegins "car" itemId = false) :
    ((refreshCar heroes itemId ⟨car, data⟩).2 = true ∧
        List.Forall₂ (Settled heroes car (· = itemId)) data.schemes
          (refreshCar heroes itemId ⟨car, data⟩).1.2.schemes) ∨
      ((refreshCar heroes itemId ⟨car, data⟩).2 = false ∧
        checkDefaultAvatar heroes car = none ∧
        ∃ ss ∈ data.schemes, ∃ slot, Falls (· = itemId) slot (ss.get slot)) := by
  unfold refreshCar
  dsimp only
  cases hok : (updateEach (refreshScheme heroes itemId car) data.schemes).2 with
  | true =>
      refine .inl ⟨rfl, ?_⟩
      rw [updateEach_of_ok hok, List.forall₂_map_right_iff, List.forall₂_same]
      intro ss hss
      have hscheme := updateEach_ok_iff.mp hok ss hss
      rcases refreshScheme_cases hcar with ⟨-, settled⟩ | ⟨hraise, -⟩
      · exact settled
      · rw [hscheme] at hraise
        cases hraise
  | false =>
      have hsome : ¬ ∀ ss ∈ data.schemes, (refreshScheme heroes itemId car ss).2 = true := by
        rw [← updateEach_ok_iff, hok]
        exact Bool.false_ne_true
      push Not at hsome
      obtain ⟨ss, hss, hraise⟩ := hsome
      rcases refreshScheme_cases hcar with ⟨hthrough, -⟩ | ⟨-, hhero, slot, falls⟩
      · exact absurd hthrough hraise
      · exact .inr ⟨rfl, hhero, ss, hss, slot, falls⟩

end

/-! ## The loop over the bag -/

section

variable {heroes : Heroes} {now : Nat} {s t : AvatarData} {gone : String → Prop}

/-- The state after some items of the bag are gone. -/
structure Swept (heroes : Heroes) (s : AvatarData) (gone : String → Prop) (t : AvatarData) :
    Prop where
  selectedCar : t.selectedCar = s.selectedCar
  bag : ∀ tid item, t.bag.lookup tid = some item ↔ s.bag.lookup tid = some item ∧ ¬ gone tid
  mem : ∀ car, car ∈ t.equippedData ↔
    car ∈ s.equippedData ∧ ¬ (gone car ∧ lineBegins "car" car = true)
  schemes : ∀ car data', t.equippedData.lookup car = some data' →
    ∃ data, s.equippedData.lookup car = some data ∧
      List.Forall₂ (Settled heroes car gone) data.schemes data'.schemes

theorem swept_refl (hgone : ∀ tid, ¬ gone tid) : Swept heroes s gone s where
  selectedCar := rfl
  bag tid item := by simp [hgone]
  mem car := by simp [hgone]
  schemes car data' h := ⟨data', h, List.forall₂_same.mpr fun ss _ => settled_refl hgone⟩

theorem Swept.congr {gone' : String → Prop} (swept : Swept heroes s gone t)
    (hiff : ∀ tid, gone tid ↔ gone' tid) : Swept heroes s gone' t := by
  have heq : gone = gone' := funext fun tid => propext (hiff tid)
  rwa [← heq]

theorem Swept.expire_car {itemId : String} (swept : Swept heroes s gone t)
    (hcar : lineBegins "car" itemId = true) :
    Swept heroes s (fun tid => gone tid ∨ tid = itemId) (t.expire heroes itemId).1 := by
  simp only [AvatarData.expire, hcar, if_true]
  refine ⟨swept.selectedCar, fun tid item => ?_, fun car => ?_, fun car data' h => ?_⟩
  · rw [lookup_erase_eq_some, swept.bag]
    tauto
  · rw [AList.mem_erase, swept.mem]
    by_cases heq : car = itemId
    · simp [heq, hcar]
    · simp [heq]
  · obtain ⟨h, hne⟩ := lookup_erase_eq_some.mp h
    obtain ⟨data, hdata, hschemes⟩ := swept.schemes car data' h
    refine ⟨data, hdata, hschemes.imp fun ss ss' settled => settled.congr fun slot part => ?_⟩
    -- a car is in no slot that has to settle
    constructor
    · exact fun falls => ⟨.inl falls.1, falls.2⟩
    · rintro ⟨hgone | rfl, hpart, hrest⟩
      · exact ⟨hgone, hpart, hrest⟩
      · rw [hcar] at hpart
        cases hpart

/-- Taking a part out goes through, or a car that is not known needs a default part. -/
theorem Swept.expire_part {itemId : String} (swept : Swept heroes s gone t)
    (hcar : lineBegins "car" itemId = false) :
    ((t.expire heroes itemId).2 = true ∧
        Swept heroes s (fun tid => gone tid ∨ tid = itemId) (t.expire heroes itemId).1) ∨
      ((t.expire heroes itemId).2 = false ∧ (t.expire heroes itemId).1.bag = t.bag ∧
        ∃ car data', t.equippedData.lookup car = some data' ∧
          checkDefaultAvatar heroes car = none ∧
          ∃ ss ∈ data'.schemes, ∃ slot, Falls (· = itemId) slot (ss.get slot)) := by
  simp only [AvatarData.expire, hcar, Bool.false_eq_true, if_false]
  cases hok : (updateTable (refreshCar heroes itemId) (refreshCar_key heroes itemId)
      t.equippedData).2 with
  | true =>
      refine .inl ⟨rfl, swept.selectedCar, fun tid item => ?_, fun car => ?_,
        fun car data'' h => ?_⟩
      · simp only [if_true]
        rw [lookup_erase_eq_some, swept.bag]
        tauto
      · simp only [if_true]
        rw [mem_updateTable, swept.mem]
        have hne : car = itemId → ¬ lineBegins "car" car = true := by
          rintro rfl
          simp [hcar]
        tauto
      · simp only [if_true] at h
        obtain ⟨data', hdata', hentry⟩ := lookup_updateTable_of_ok hok h
        obtain ⟨data, hdata, hschemes⟩ := swept.schemes car data' hdata'
        refine ⟨data, hdata, ?_⟩
        rcases @refreshCar_cases heroes car itemId data' hcar with ⟨-, hsettled⟩ | ⟨hraise, -⟩
        · rw [hentry] at hsettled
          exact forall₂_comp (fun _ _ _ h h' => h.trans h') hschemes hsettled
        · rw [updateTable_ok_iff.mp hok car data' hdata'] at hraise
          cases hraise
  | false =>
      refine .inr ⟨rfl, rfl, ?_⟩
      have hsome : ¬ ∀ car data', t.equippedData.lookup car = some data' →
          (refreshCar heroes itemId ⟨car, data'⟩).2 = true := by
        rw [← @updateTable_ok_iff _ _ _ (refreshCar_key heroes itemId), hok]
        exact Bool.false_ne_true
      push Not at hsome
      obtain ⟨car, data', hdata', hraise⟩ := hsome
      rcases @refreshCar_cases heroes car itemId data' hcar with ⟨hthrough, -⟩ | ⟨-, hrest⟩
      · exact absurd hthrough hraise
      · exact ⟨car, data', hdata', hrest⟩

/-- An item among the entries has expired. -/
def Gone (now : Nat) (entries : List (Σ _ : String, AvatarItem)) (tid : String) : Prop :=
  ∃ item : AvatarItem, (⟨tid, item⟩ : Σ _ : String, AvatarItem) ∈ entries ∧ item.Expired now

variable {done : List (Σ _ : String, AvatarItem)} {entry : Σ _ : String, AvatarItem}

theorem gone_snoc {tid : String} :
    Gone now (done ++ [entry]) tid ↔
      Gone now done tid ∨ (tid = entry.1 ∧ entry.2.Expired now) := by
  unfold Gone
  constructor
  · rintro ⟨item, hmem, hexpired⟩
    rcases List.mem_append.mp hmem with hdone | hlast
    · exact .inl ⟨item, hdone, hexpired⟩
    · rw [List.mem_singleton] at hlast
      exact .inr (by rw [← hlast]; exact ⟨rfl, hexpired⟩)
  · rintro (⟨item, hdone, hexpired⟩ | ⟨rfl, hexpired⟩)
    · exact ⟨item, List.mem_append_left _ hdone, hexpired⟩
    · exact ⟨entry.2, List.mem_append_right _ List.mem_cons_self, hexpired⟩

theorem gone_entries {tid : String} :
    Gone now s.bag.entries tid ↔ ∃ item ∈ s.bag.lookup tid, item.Expired now := by
  unfold Gone
  simp only [← AList.mem_lookup_iff]

/-- What the loop does for one entry of the bag. -/
theorem Swept.refreshItem (swept : Swept heroes s (Gone now done) t) :
    ((t.refreshItem heroes now entry).2 = true ∧
        Swept heroes s (Gone now (done ++ [entry])) (t.refreshItem heroes now entry).1) ∨
      ((t.refreshItem heroes now entry).2 = false ∧ entry.2.Expired now ∧
        (t.refreshItem heroes now entry).1.bag = t.bag ∧
        ∃ car data', t.equippedData.lookup car = some data' ∧
          checkDefaultAvatar heroes car = none ∧
          ∃ ss ∈ data'.schemes, ∃ slot, Falls (· = entry.1) slot (ss.get slot)) := by
  unfold AvatarData.refreshItem
  by_cases hexpired : entry.2.Expired now
  · simp only [hexpired, if_true]
    have hgone : ∀ tid, Gone now done tid ∨ tid = entry.1 ↔ Gone now (done ++ [entry]) tid := by
      intro tid
      simp [gone_snoc, hexpired]
    cases hcar : lineBegins "car" entry.1 with
    | true =>
        refine .inl ⟨?_, (swept.expire_car hcar).congr hgone⟩
        simp [AvatarData.expire, hcar]
    | false =>
        rcases swept.expire_part hcar with ⟨hok, next⟩ | ⟨hraise, hrest⟩
        · exact .inl ⟨hok, next.congr hgone⟩
        · exact .inr ⟨hraise, trivial, hrest⟩
  · simp only [hexpired, if_false]
    refine .inl ⟨trivial, swept.congr fun tid => ?_⟩
    simp [gone_snoc, hexpired]

/-- The loop over some entries went through, or one of them made a car that is not
known need a default part. -/
theorem swept_cases (entries : List (Σ _ : String, AvatarItem)) :
    ((sweep (AvatarData.refreshItem heroes now) s entries).2 = true ∧
        Swept heroes s (Gone now entries)
          (sweep (AvatarData.refreshItem heroes now) s entries).1) ∨
      ∃ done entry rest t, entries = done ++ entry :: rest ∧ Swept heroes s (Gone now done) t ∧
        entry.2.Expired now ∧
        (sweep (AvatarData.refreshItem heroes now) s entries).2 = false ∧
        (sweep (AvatarData.refreshItem heroes now) s entries).1.bag = t.bag ∧
        ∃ car data', t.equippedData.lookup car = some data' ∧
          checkDefaultAvatar heroes car = none ∧
          ∃ ss ∈ data'.schemes, ∃ slot, Falls (· = entry.1) slot (ss.get slot) := by
  have hstart : Swept heroes s (Gone now []) s := swept_refl (by simp [Gone])
  have hstep : ∀ done entry t, Swept heroes s (Gone now done) t →
      (t.refreshItem heroes now entry).2 = true →
      Swept heroes s (Gone now (done ++ [entry])) (t.refreshItem heroes now entry).1 := by
    intro done entry t swept hok
    rcases @Swept.refreshItem _ _ _ _ _ entry swept with ⟨-, next⟩ | ⟨hraise, -⟩
    · exact next
    · rw [hok] at hraise
      cases hraise
  rcases sweep_cases hstart hstep entries with
    hthrough | ⟨done, entry, rest, t, heq, swept, hraise, hfinal⟩
  · exact .inl hthrough
  · rcases @Swept.refreshItem _ _ _ _ _ entry swept with ⟨hok, -⟩ | ⟨-, hexpired, hbag, hrest⟩
    · rw [hok] at hraise
      cases hraise
    · rw [hfinal]
      exact .inr ⟨done, entry, rest, t, heq, swept, hexpired, rfl, hbag, hrest⟩

/-! ## After the loop -/

/-- What should be in the slots of a scheme when some items were removed: a part that was
not removed stays, the other ones are replaced by the default part or by nothing. -/
def Replaced (heroes : Heroes) (car : String) (removed : String → Prop) (ss ss' : CarEquipped) :
    Prop :=
  ∀ slot, ¬ removed (ss'.get slot) ∧ (¬ removed (ss.get slot) → ss'.get slot = ss.get slot) ∧
    (removed (ss.get slot) → ss'.get slot = "" ∨
      ∃ hero, checkDefaultAvatar heroes car = some hero ∧ ss'.get slot = hero.default slot)

/-- What should hold after `refresh_avatar` has taken `s` to `s'`. -/
structure Refreshed (heroes : Heroes) (now : Nat) (s s' : AvatarData) : Prop where
  noExpired : ∀ tid item, s'.bag.lookup tid = some item → ¬ item.Expired now
  equipped : ∀ car after, s'.equippedData.lookup car = some after →
    ∃ before, s.equippedData.lookup car = some before ∧
      List.Forall₂ (Replaced heroes car fun tid => tid ∈ s.bag ∧ tid ∉ s'.bag)
        before.schemes after.schemes
  selected : (s'.getCurrEquipped none none).isSome

/-- The car loses its equipped data. -/
def GoneCar (now : Nat) (entries : List (Σ _ : String, AvatarItem)) (car : String) : Prop :=
  Gone now entries car ∧ lineBegins "car" car = true

/-- What has to hold before. -/
structure Refreshable (heroes : Heroes) (now : Nat) (s : AvatarData) : Prop where
  /-- A car that needs a default part when the turn of an item comes is known. -/
  known : ∀ done entry rest, s.bag.entries = done ++ entry :: rest → entry.2.Expired now →
    ∀ car data, s.equippedData.lookup car = some data → ¬ GoneCar now done car →
      ∀ ss ∈ data.schemes, ∀ slot, Falls (· = entry.1) slot (ss.get slot) →
        ∃ hero, checkDefaultAvatar heroes car = some hero
  /-- An expired item is equipped only where it is replaced, by a part that has not expired. -/
  falls : ∀ car data, s.equippedData.lookup car = some data →
    ¬ GoneCar now s.bag.entries car → ∀ ss ∈ data.schemes, ∀ slot,
      Gone now s.bag.entries (ss.get slot) →
      Falls (Gone now s.bag.entries) slot (ss.get slot) ∧
        ∀ hero, checkDefaultAvatar heroes car = some hero →
          ¬ Gone now s.bag.entries (hero.default slot)
  /-- The selected car has equipped data and is not an expired one. -/
  selected : ∃ car, s.selectedCar = some car ∧ car ∈ s.equippedData ∧
    ¬ GoneCar now s.bag.entries car

/-- A car that is left and needed a default part is known. -/
theorem Swept.known (swept : Swept heroes s gone t) {car : String} {data : EquippedData}
    (hdata : s.equippedData.lookup car = some data) (hcar : car ∈ t.equippedData)
    {ss : CarEquipped} (hss : ss ∈ data.schemes) {slot : Slot}
    (hfalls : Falls gone slot (ss.get slot)) :
    ∃ hero, checkDefaultAvatar heroes car = some hero := by
  obtain ⟨data', hdata'⟩ := exists_lookup hcar
  obtain ⟨before, hbefore, hschemes⟩ := swept.schemes car data' hdata'
  rw [hdata, Option.some.injEq] at hbefore
  subst hbefore
  obtain ⟨ss', -, settled⟩ := exists_right_of_forall₂ hschemes hss
  rcases settled slot with ⟨-, hero, hhero, -⟩ | ⟨stays, -⟩
  · exact ⟨hero, hhero⟩
  · exact absurd hfalls stays

/-- The items that are gone are the ones that were removed. -/
theorem Swept.removed_iff (swept : Swept heroes s (Gone now s.bag.entries) t) (tid : String) :
    tid ∈ s.bag ∧ tid ∉ t.bag ↔ Gone now s.bag.entries tid := by
  constructor
  · rintro ⟨hmem, hnot⟩
    obtain ⟨item, hitem⟩ := exists_lookup hmem
    by_contra hgone
    exact hnot (mem_of_lookup ((swept.bag tid item).mpr ⟨hitem, hgone⟩))
  · intro hgone
    obtain ⟨item, hitem, -⟩ := gone_entries.mp hgone
    refine ⟨mem_of_lookup (Option.mem_def.mp hitem), fun hmem => ?_⟩
    obtain ⟨kept, hkept⟩ := exists_lookup hmem
    exact ((swept.bag tid kept).mp hkept).2 hgone

theorem isSome_getCurrEquipped :
    (s.getCurrEquipped none none).isSome ↔
      ∃ car, s.selectedCar = some car ∧ car ∈ s.equippedData := by
  unfold AvatarData.getCurrEquipped
  cases hcar : s.selectedCar with
  | none => simp
  | some car =>
      cases hdata : s.equippedData.lookup car with
      | none =>
          have hnot : car ∉ s.equippedData := AList.lookup_eq_none.mp hdata
          simp [hdata, hnot]
      | some data =>
          have hmem : car ∈ s.equippedData := mem_of_lookup hdata
          simp [hdata, hmem]

/-- Where the loop went through, the state has what it should have when it had to. -/
theorem Swept.refreshed (swept : Swept heroes s (Gone now s.bag.entries) t)
    (refreshable : Refreshable heroes now s) : Refreshed heroes now s t where
  noExpired tid item hitem hexpired := by
    obtain ⟨hbefore, hgone⟩ := (swept.bag tid item).mp hitem
    exact hgone (gone_entries.mpr ⟨item, hbefore, hexpired⟩)
  equipped car after hafter := by
    obtain ⟨before, hbefore, hschemes⟩ := swept.schemes car after hafter
    have hcar : ¬ GoneCar now s.bag.entries car := by
      have hmem : car ∈ t.equippedData := mem_of_lookup hafter
      exact ((swept.mem car).mp hmem).2
    have hboth := (List.forall₂_and_left before.schemes after.schemes).mpr
      ⟨fun ss hss => hss, hschemes⟩
    refine ⟨before, hbefore, hboth.imp fun ss ss' ⟨hss, settled⟩ slot => ?_⟩
    simp only [swept.removed_iff]
    rcases settled slot with ⟨falls, hero, hhero, hdefault⟩ | ⟨stays, heq⟩
    · refine ⟨?_, fun hnot => absurd falls.1 hnot, fun _ => .inr ⟨hero, hhero, hdefault⟩⟩
      rw [hdefault]
      exact (refreshable.falls car before hbefore hcar ss hss slot falls.1).2 hero hhero
    · have hnot : ¬ Gone now s.bag.entries (ss.get slot) := fun hgone =>
        stays (refreshable.falls car before hbefore hcar ss hss slot hgone).1
      rw [heq]
      exact ⟨hnot, fun _ => rfl, fun hgone => absurd hgone hnot⟩
  selected := by
    obtain ⟨car, hselected, hmem, hcar⟩ := refreshable.selected
    refine isSome_getCurrEquipped.mpr ⟨car, ?_, (swept.mem car).mpr ⟨hmem, hcar⟩⟩
    rw [swept.selectedCar, hselected]

/-- The parts that fall were replaced, by parts that are not removed. -/
theorem Refreshed.falls (refreshed : Refreshed heroes now s t)
    (swept : Swept heroes s (Gone now s.bag.entries) t) {car : String} {data : EquippedData}
    (hdata : s.equippedData.lookup car = some data) (hcar : ¬ GoneCar now s.bag.entries car)
    {ss : CarEquipped} (hss : ss ∈ data.schemes) {slot : Slot}
    (hgone : Gone now s.bag.entries (ss.get slot)) :
    Falls (Gone now s.bag.entries) slot (ss.get slot) ∧
      ∀ hero, checkDefaultAvatar heroes car = some hero →
        ¬ Gone now s.bag.entries (hero.default slot) := by
  have hmem : car ∈ t.equippedData :=
    (swept.mem car).mpr ⟨mem_of_lookup hdata, hcar⟩
  obtain ⟨after, hafter⟩ := exists_lookup hmem
  obtain ⟨before, hbefore, hsettled⟩ := swept.schemes car after hafter
  obtain ⟨before', hbefore', hreplaced⟩ := refreshed.equipped car after hafter
  obtain rfl : before = data := by rw [hdata, Option.some.injEq] at hbefore; exact hbefore.symm
  obtain rfl : before' = before := by rw [hdata, Option.some.injEq] at hbefore'; exact hbefore'.symm
  obtain ⟨ss', -, replaced, settled⟩ :=
    exists_right_of_forall₂ (hsettled.mp (fun _ _ h h' => And.intro h' h) hreplaced) hss
  have hnot : ¬ Gone now s.bag.entries (ss'.get slot) := fun h =>
    (replaced slot).1 ((swept.removed_iff _).mpr h)
  rcases settled slot with ⟨falls, hero, hhero, hdefault⟩ | ⟨stays, heq⟩
  · refine ⟨falls, fun other hother => ?_⟩
    obtain rfl : hero = other := by rw [hhero, Option.some.injEq] at hother; exact hother
    rw [← hdefault]
    exact hnot
  · rw [heq] at hnot
    exact absurd hgone hnot

/-- A loop that went through makes no car that is not known need a default part. -/
theorem known_of_ok (hok : (s.refreshAvatar heroes now).2 = true) {rest}
    (heq : s.bag.entries = done ++ entry :: rest) (hexpired : entry.2.Expired now) {car : String}
    {data : EquippedData} (hdata : s.equippedData.lookup car = some data)
    (hcar : ¬ GoneCar now done car) {ss : CarEquipped} (hss : ss ∈ data.schemes) {slot : Slot}
    (hfalls : Falls (· = entry.1) slot (ss.get slot)) :
    ∃ hero, checkDefaultAvatar heroes car = some hero := by
  unfold AvatarData.refreshAvatar at hok
  rw [heq, ← List.singleton_append, ← List.append_assoc] at hok
  -- what the loop has done up to the item
  rcases @swept_cases heroes now s (done ++ [entry]) with
    ⟨-, swept⟩ | ⟨_, _, _, _, _, _, _, hraise, _⟩
  · refine swept.known hdata ((swept.mem car).mpr ⟨?_, ?_⟩) hss ⟨?_, hfalls.2⟩
    · exact mem_of_lookup hdata
    · rintro ⟨hgone, hbegins⟩
      rcases gone_snoc.mp hgone with hbefore | ⟨heq, -⟩
      · exact hcar ⟨hbefore, hbegins⟩
      · have hpart := hfalls.2.1
        rw [hfalls.1, ← heq, hbegins] at hpart
        cases hpart
    · exact gone_snoc.mpr (.inr ⟨hfalls.1, hexpired⟩)
  · rw [sweep_ok_left hok] at hraise
    cases hraise

/-- The item whose turn it is is still in the bag. -/
theorem Swept.lookup_next (swept : Swept heroes s (Gone now done) t) {rest}
    (heq : s.bag.entries = done ++ entry :: rest) : t.bag.lookup entry.1 = some entry.2 := by
  refine (swept.bag entry.1 entry.2).mpr ⟨?_, ?_⟩
  · exact AList.mem_lookup_iff.mpr (by simp [heq])
  · rintro ⟨item, hmem, -⟩
    have hnodup := List.nodupKeys_iff_pairwise.mp s.bag.nodupKeys
    rw [heq, List.pairwise_append] at hnodup
    exact hnodup.2.2 _ hmem entry List.mem_cons_self rfl

/-- After `refresh_avatar` no expired item is in the bag, the schemes of the cars that
are left hold no removed part and otherwise what they held before, and the selected
car has equipped data, exactly when every car that needs a default part is known, expired
items are equipped only where they are replaced by a part that has not expired, and
the selected car has equipped data and has not expired. -/
theorem refreshed_iff :
    Refreshed heroes now s (s.refreshAvatar heroes now).1 ↔ Refreshable heroes now s := by
  rcases @swept_cases heroes now s s.bag.entries with
    ⟨hok, swept⟩ | ⟨done, entry, rest, t, heq, swept, hexpired, -, hbag, car, data', hdata', hhero,
      ss', hss', slot, hfalls⟩
  · refine ⟨fun refreshed => ⟨?_, ?_, ?_⟩, swept.refreshed⟩
    · intro done entry rest heq hexpired car data hdata hcar ss hss slot
      exact known_of_ok hok heq hexpired hdata hcar hss
    · intro car data hdata hcar ss hss slot
      exact refreshed.falls swept hdata hcar hss
    · obtain ⟨car, hselected, hmem⟩ := isSome_getCurrEquipped.mp refreshed.selected
      rw [AvatarData.refreshAvatar, swept.selectedCar] at hselected
      exact ⟨car, hselected, (swept.mem car).mp hmem⟩
  · constructor
    · -- the item that was not taken out has expired
      intro refreshed
      refine absurd hexpired (refreshed.noExpired entry.1 entry.2 ?_)
      rw [AvatarData.refreshAvatar, hbag, swept.lookup_next heq]
    · -- no part of a car that is not known was replaced before
      intro refreshable
      obtain ⟨data, hdata, hschemes⟩ := swept.schemes car data' hdata'
      obtain ⟨ss, hss, settled⟩ := exists_left_of_forall₂ hschemes hss'
      rcases settled slot with ⟨-, hero, hsome, -⟩ | ⟨-, hkept⟩
      · rw [hhero] at hsome
        cases hsome
      · rw [hkept] at hfalls
        have hmem : car ∈ t.equippedData := mem_of_lookup hdata'
        obtain ⟨hero, hsome⟩ := refreshable.known done entry rest heq hexpired car data hdata
          ((swept.mem car).mp hmem).2 ss hss slot hfalls
        rw [hhero] at hsome
        cases hsome

end

/-! ## A car with an expired paint -/

def flamingo : Hero :=
  ⟨"avatar00401001", "avatar00402001", some "avatar00403001", "dust00040001", "notrigen00030001"⟩

def paintedScheme : CarEquipped :=
  { flamingo.dress CarEquipped.new with paint := "paint00404001" }

/-- The car is for ever, its paint has expired. -/
def paintedCar : AvatarData where
  selectedCar := some "car004"
  schemeCar := some 0
  bag := (AList.singleton "car004" (.new 0 "car004" none)).insert "paint00404001"
    (.new 1546300800 "paint00404001" (some 86400))
  equippedData := AList.singleton "car004" ⟨0, [paintedScheme]⟩

/-- The paint leaves the bag and stays on the car. -/
theorem not_refreshed_paintedCar :
    ¬ Refreshed [("car004", flamingo)] 1550102400 paintedCar
      (paintedCar.refreshAvatar [("car004", flamingo)] 1550102400).1 := by
  intro refreshed
  have hafter : (paintedCar.refreshAvatar [("car004", flamingo)] 1550102400).1.equippedData.lookup
      "car004" = some ⟨0, [paintedScheme]⟩ := by decide
  obtain ⟨before, -, hschemes⟩ := refreshed.equipped "car004" _ hafter
  obtain ⟨ss, -, replaced⟩ := exists_left_of_forall₂ hschemes List.mem_cons_self
  exact (replaced .paint).1 (by decide)

end Player
end ArmyRs
