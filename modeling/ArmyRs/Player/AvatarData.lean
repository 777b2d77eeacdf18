import ArmyRs.Foundation.Tables
import Mathlib.Data.List.AList
import Mathlib.Tactic

/-!
# Cars and their parts

The bag of a player holds cars and parts.  An item is kept for ever or until an end
time, which adding days moves further; the end time of an item that has expired
starts again from now (`AvatarItem`).  A player who gets a car gets its default
parts too, and two schemes that are equipped with them.

A method that raises answers nothing; what it has changed until then stays.
-/

namespace ArmyRs
namespace Player

/-- Some line of the text after the first one begins so. -/
def laterLineBegins (start : List Char) : List Char → Bool
  | [] => false
  | c :: rest => (c == '\n' && start.isPrefixOf rest) || laterLineBegins start rest

/-- What `/^car/` and the like ask of a text: a line of it begins so. -/
def lineBegins (start text : String) : Bool :=
  start.toList.isPrefixOf text.toList || laterLineBegins start.toList text.toList

/-! ## Items of the bag -/

/-- A number of days, as the seconds `(60 * 60 * 24 * day).ceil`. -/
abbrev Duration := ℕ+

/-- One day is a duration. -/
instance neZero_day : NeZero (86400 : ℕ) := ⟨by decide⟩

/-- So is the time a part of an avatar lasts. -/
instance neZero_partTime : NeZero (260 : ℕ) := ⟨by decide⟩

/-- An item of the bag: for ever, or until its end time. -/
structure AvatarItem where
  tid : String
  count : Int
  endTime : Int
  forEver_or_timed : (endTime = -1 ∧ count = 1) ∨ (0 < endTime ∧ count = 0)
  deriving DecidableEq

/-- The item, until some days after `start`. -/
def AvatarItem.endsAfter (item : AvatarItem) (start : Nat) (day : Duration) : AvatarItem :=
  { item with
    endTime := start + (day : ℕ)
    count := 0
    forEver_or_timed := .inr ⟨by have := day.pos; omega, rfl⟩ }

/-- `buy` -/
def AvatarItem.buy (item : AvatarItem) : AvatarItem :=
  { item with endTime := -1, count := 1, forEver_or_timed := .inl ⟨rfl, rfl⟩ }

/-- `AvatarItem.new` -/
def AvatarItem.new (now : Nat) (tid : String) (day : Option Duration) : AvatarItem :=
  let item : AvatarItem := ⟨tid, 1, -1, .inl ⟨rfl, rfl⟩⟩
  match day with
  | none => item
  | some day => item.endsAfter now day

/-- `expired?` -/
def AvatarItem.Expired (now : Nat) (item : AvatarItem) : Prop :=
  0 < item.endTime ∧ item.endTime < now ∧ item.count = 0

instance AvatarItem.decidableExpired (now : Nat) (item : AvatarItem) :
    Decidable (item.Expired now) :=
  inferInstanceAs (Decidable (_ ∧ _))

/-- `add_end_time`; it raises when there are no days to add. -/
def AvatarItem.addEndTime (now : Nat) (item : AvatarItem) (day : Option Duration) :
    Option AvatarItem :=
  if 0 ≤ item.endTime then
    day.map fun day =>
      if item.Expired now then item.endsAfter now day
      else item.endsAfter item.endTime.toNat day
  else some item

theorem AvatarItem.count_eq_one_iff (item : AvatarItem) : item.count = 1 ↔ item.endTime < 0 := by
  rcases item.forEver_or_timed with h | h <;> omega

/-! ## Schemes of a car -/

/-- The keys of `change_to_hash`. -/
inductive Slot
  | body
  | wheel
  | tail
  | decorationF
  | decorationB
  | paint
  | dust
  | notrigen
  deriving DecidableEq, Repr

/-- The keys in their order. -/
def Slot.all : List Slot := [body, wheel, tail, decorationF, decorationB, paint, dust, notrigen]

theorem Slot.mem_all (slot : Slot) : slot ∈ Slot.all := by cases slot <;> decide

structure CarEquipped where
  schemeName : String
  body : String
  wheel : String
  tail : String
  decorationF : String
  decorationB : String
  paint : String
  dust : String
  notrigen : String
  deriving DecidableEq, Repr

def CarEquipped.new : CarEquipped := ⟨"", "", "", "", "", "", "", "", ""⟩

/-- What `change_to_hash` has under a key. -/
def CarEquipped.get (ss : CarEquipped) : Slot → String
  | .body => ss.body
  | .wheel => ss.wheel
  | .tail => ss.tail
  | .decorationF => ss.decorationF
  | .decorationB => ss.decorationB
  | .paint => ss.paint
  | .dust => ss.dust
  | .notrigen => ss.notrigen

/-- The accessor of a key. -/
def CarEquipped.set (ss : CarEquipped) (part : String) : Slot → CarEquipped
  | .body => { ss with body := part }
  | .wheel => { ss with wheel := part }
  | .tail => { ss with tail := part }
  | .decorationF => { ss with decorationF := part }
  | .decorationB => { ss with decorationB := part }
  | .paint => { ss with paint := part }
  | .dust => { ss with dust := part }
  | .notrigen => { ss with notrigen := part }

@[simp] theorem CarEquipped.get_set (ss : CarEquipped) (part : String) (slot : Slot) :
    (ss.set part slot).get slot = part := by
  cases slot <;> rfl

theorem CarEquipped.get_set_ne (ss : CarEquipped) (part : String) {slot other : Slot}
    (h : other ≠ slot) : (ss.set part slot).get other = ss.get other := by
  cases slot <;> cases other <;> first | rfl | exact absurd rfl h

structure EquippedData where
  selectedScheme : Int
  schemes : List CarEquipped
  deriving DecidableEq, Repr

def EquippedData.new : EquippedData :=
  ⟨0, [{ CarEquipped.new with schemeName := "装备方案01" },
    { CarEquipped.new with schemeName := "装备方案02" }]⟩

/-- An entry of `GameConfig.config['heroes']`. -/
structure Hero where
  bodyId : String
  wheelId : String
  tailId : Option String
  dustId : String
  notrigenId : String
  deriving DecidableEq, Repr

abbrev Heroes := List (String × Hero)

/-- `check_default_avatar`; it raises when the car is not among the heroes. -/
def checkDefaultAvatar (heroes : Heroes) (tid : String) : Option Hero := heroes.lookup tid

/-- The default parts, in the order in which they are purchased. -/
def Hero.parts (hero : Hero) : List String :=
  [hero.bodyId, hero.wheelId, hero.dustId, hero.notrigenId] ++ hero.tailId.toList

/-- The scheme with the default parts of the car. -/
def Hero.dress (hero : Hero) (info : CarEquipped) : CarEquipped :=
  { info with
    body := hero.bodyId
    wheel := hero.wheelId
    dust := hero.dustId
    notrigen := hero.notrigenId
    tail := hero.tailId.getD info.tail }

/-! ## The cars and parts of a player -/

abbrev Bag := AList fun _ : String => AvatarItem

structure AvatarData where
  selectedCar : Option String
  schemeCar : Option Int
  bag : Bag
  equippedData : AList fun _ : String => EquippedData

/-- The item is kept for ever. -/
def AvatarData.ForEver (s : AvatarData) (tid : String) : Prop :=
  ∃ item ∈ s.bag.lookup tid, item.endTime < 0

/-- `purchase_item` -/
def AvatarData.purchaseItem (now : Nat) (s : AvatarData) (tid : String)
    (day : Option Duration) : AvatarData :=
  match s.bag.lookup tid, day with
  | none, day => { s with bag := s.bag.insert tid (.new now tid day) }
  | some _, some _ => s
  | some item, none =>
      if 0 ≤ item.endTime ∧ item.count ≠ 1 then { s with bag := s.bag.insert tid item.buy }
      else s

/-- `purchase_item` for each of them. -/
def AvatarData.purchaseItems (now : Nat) (s : AvatarData) (tids : List String)
    (day : Option Duration) : AvatarData :=
  tids.foldl (fun s tid => s.purchaseItem now tid day) s

/-- The schemes of the car with its default parts. -/
def AvatarData.equipDefaults (s : AvatarData) (tid : String) (hero : Hero) : AvatarData :=
  match s.equippedData.lookup tid with
  | none => s
  | some equipped =>
      { s with
        equippedData := s.equippedData.insert tid
          { equipped with schemes := equipped.schemes.map hero.dress } }

/-- What `purchase_car` answers: the schemes of the car and the items. -/
structure CarPurchase where
  schemes : List CarEquipped
  items : List (Option String)
  deriving DecidableEq, Repr

/-- A car that is not known to `heroes` is purchased all the same, before the method raises. -/
def AvatarData.purchaseCar (heroes : Heroes) (now : Nat) (s : AvatarData) (tid : String)
    (day : Option Duration) : AvatarData × Option CarPurchase :=
  let purchased := s.purchaseItem now tid day
  let garaged :=
    if tid ∈ purchased.equippedData then purchased
    else { purchased with equippedData := purchased.equippedData.insert tid .new }
  match checkDefaultAvatar heroes tid with
  | none => (garaged, none)
  | some hero =>
      let equipped := garaged.equipDefaults tid hero
      let schemes := ((equipped.equippedData.lookup tid).map EquippedData.schemes).getD []
      ((equipped.purchaseItems now hero.parts day).purchaseItems now hero.parts day,
        some ⟨schemes, [some hero.bodyId, some hero.wheelId, hero.tailId, some hero.dustId,
          some hero.notrigenId, some tid]⟩)

/-- `xs[i]`; a negative number counts from the end. -/
def arrayGet {α : Type*} (xs : List α) (i : Int) : Option α :=
  if 0 ≤ i then xs[i.toNat]?
  else if 0 ≤ xs.length + i then xs[(xs.length + i).toNat]?
  else none

/-- `get_curr_equipped`; it raises when the car has no equipped data. -/
def AvatarData.getCurrEquipped (s : AvatarData) (car : Option String) (scheme : Option Int) :
    Option (Option CarEquipped) := do
  let car ← car.or s.selectedCar
  let equipped ← s.equippedData.lookup car
  return arrayGet equipped.schemes (scheme.getD equipped.selectedScheme)

/-- `device_save_scheme` -/
def AvatarData.deviceSaveScheme (s : AvatarData) (car : String) (scheme : Int) : AvatarData :=
  { s with selectedCar := some car, schemeCar := some scheme }

/-! ## What purchases do -/

section

variable {now : Nat} {s : AvatarData} {tid : String} {day : Option Duration}

/-- The item after it was purchased. -/
def AvatarItem.purchased (now : Nat) (tid : String) (day : Option Duration) :
    Option AvatarItem → AvatarItem
  | none => .new now tid day
  | some item => if day = none ∧ 0 ≤ item.endTime then item.buy else item

theorem lookup_purchaseItem (x : String) :
    (s.purchaseItem now tid day).bag.lookup x =
      if x = tid then some (.purchased now tid day (s.bag.lookup tid)) else s.bag.lookup x := by
  unfold AvatarData.purchaseItem AvatarItem.purchased
  by_cases hx : x = tid
  · subst hx
    cases hitem : s.bag.lookup x with
    | none => simp
    | some item =>
        have hcount := item.count_eq_one_iff
        cases day with
        | some day => simp [hitem]
        | none =>
            by_cases hend : 0 ≤ item.endTime
            · have hne : item.count ≠ 1 := fun h => by omega
              simp [hend, hne]
            · simp [hend, hitem]
  · cases hitem : s.bag.lookup tid with
    | none => simp [hx, AList.lookup_insert_ne hx]
    | some item =>
        cases day with
        | some day => simp [hx]
        | none =>
            simp only [hx, if_false]
            split <;> simp [AList.lookup_insert_ne hx]

@[simp] theorem equippedData_purchaseItem :
    (s.purchaseItem now tid day).equippedData = s.equippedData := by
  unfold AvatarData.purchaseItem
  repeat' split
  all_goals rfl

@[simp] theorem equippedData_purchaseItems (tids : List String) :
    (s.purchaseItems now tids day).equippedData = s.equippedData := by
  unfold AvatarData.purchaseItems
  induction tids generalizing s with
  | nil => rfl
  | cons tid tids ih => rw [List.foldl_cons, ih, equippedData_purchaseItem]

/-- Purchasing an item again changes nothing. -/
theorem purchased_purchased (before : Option AvatarItem) :
    AvatarItem.purchased now tid day (some (.purchased now tid day before)) =
      .purchased now tid day before := by
  cases before with
  | none => cases day <;> simp [AvatarItem.purchased, AvatarItem.new]
  | some item =>
      by_cases h : day = none ∧ 0 ≤ item.endTime <;>
        simp [AvatarItem.purchased, AvatarItem.buy, h]

theorem lookup_purchaseItems (tids : List String) (x : String) :
    (s.purchaseItems now tids day).bag.lookup x =
      if x ∈ tids then some (.purchased now x day (s.bag.lookup x)) else s.bag.lookup x := by
  unfold AvatarData.purchaseItems
  induction tids generalizing s with
  | nil => simp
  | cons tid tids ih =>
      rw [List.foldl_cons, ih, lookup_purchaseItem]
      by_cases hx : x = tid
      · subst hx
        simp [purchased_purchased]
      · simp [hx]

theorem bag_equipDefaults (hero : Hero) : (s.equipDefaults tid hero).bag = s.bag := by
  unfold AvatarData.equipDefaults
  split <;> rfl

/-- A car that is not known is purchased without parts. -/
theorem purchaseCar_of_unknown {heroes : Heroes} (hhero : checkDefaultAvatar heroes tid = none) :
    (s.purchaseCar heroes now tid day).2 = none ∧
      ∀ x, (s.purchaseCar heroes now tid day).1.bag.lookup x =
        (s.purchaseItem now tid day).bag.lookup x := by
  unfold AvatarData.purchaseCar
  simp only [hhero, true_and]
  intro x
  split <;> rfl

/-- A known car is purchased with its default parts, and nothing else is. -/
theorem lookup_purchaseCar {heroes : Heroes} {hero : Hero}
    (hhero : checkDefaultAvatar heroes tid = some hero) (x : String) :
    (s.purchaseCar heroes now tid day).1.bag.lookup x =
      if x ∈ tid :: hero.parts then some (.purchased now x day (s.bag.lookup x))
      else s.bag.lookup x := by
  unfold AvatarData.purchaseCar
  simp only [hhero, lookup_purchaseItems, bag_equipDefaults]
  have hgaraged : ∀ t : AvatarData, (if tid ∈ t.equippedData then t
      else { t with equippedData := t.equippedData.insert tid .new }).bag = t.bag := by
    intro t
    split <;> rfl
  simp only [hgaraged, lookup_purchaseItem]
  by_cases hx : x = tid
  · subst hx
    by_cases hpart : x ∈ hero.parts <;> simp [hpart, purchased_purchased]
  · by_cases hpart : x ∈ hero.parts <;> simp [hx, hpart, purchased_purchased]

theorem purchased_endTime (before : Option AvatarItem) :
    (AvatarItem.purchased now tid none before).endTime < 0 := by
  cases before with
  | none => exact (by decide : (-1 : Int) < 0)
  | some item =>
      by_cases hend : 0 ≤ item.endTime
      · simp [AvatarItem.purchased, AvatarItem.buy, hend]
      · rw [AvatarItem.purchased, if_neg fun h => hend h.2]
        exact not_le.mp hend

theorem dress_dress (hero : Hero) (ss : CarEquipped) :
    hero.dress (hero.dress ss) = hero.dress ss := by
  unfold Hero.dress
  cases hero.tailId <;> rfl

/-- The schemes of a car that was purchased have its default parts; the other cars are
as they were. -/
theorem equipped_purchaseCar {heroes : Heroes} {hero : Hero}
    (hhero : checkDefaultAvatar heroes tid = some hero) :
    (∃ data, (s.purchaseCar heroes now tid day).1.equippedData.lookup tid = some data ∧
        ∀ ss ∈ data.schemes, hero.dress ss = ss) ∧
      ∀ other ≠ tid, (s.purchaseCar heroes now tid day).1.equippedData.lookup other =
        s.equippedData.lookup other := by
  unfold AvatarData.purchaseCar
  simp only [hhero, equippedData_purchaseItems, equippedData_purchaseItem]
  -- the car has equipped data, of before or new
  generalize hgaraged : (if tid ∈ s.equippedData then s.purchaseItem now tid day
    else { s.purchaseItem now tid day with
      equippedData := s.equippedData.insert tid .new }) = garaged
  have hother : ∀ other ≠ tid,
      garaged.equippedData.lookup other = s.equippedData.lookup other := by
    intro other hne
    rw [← hgaraged]
    split
    · rw [equippedData_purchaseItem]
    · exact AList.lookup_insert_ne hne
  have hmem : tid ∈ garaged.equippedData := by
    rw [← hgaraged]
    split
    · next h => rwa [equippedData_purchaseItem]
    · exact (AList.mem_insert _).mpr (.inl rfl)
  obtain ⟨equipped, hequipped⟩ := Foundation.exists_lookup hmem
  simp only [AvatarData.equipDefaults, hequipped]
  constructor
  · refine ⟨_, AList.lookup_insert _, fun ss hss => ?_⟩
    obtain ⟨before, -, rfl⟩ := List.mem_map.mp hss
    exact dress_dress hero before
  · intro other hne
    rw [AList.lookup_insert_ne hne, hother other hne]

end

end Player
end ArmyRs
