import Mathlib.Algebra.Order.Floor.Ring
import ArmyRs.Player.AvatarData
import ArmyRs.Player.Levels

/-!
# Currencies and items of a player

`add_item` credits a currency or adds to an item, `sell_items` turns an item into a
currency and `use_items` turns one into time for a car or a part.  All of them change
the model that is cached, and none takes back what it has changed when it raises.

The credits belong to the chief of the player, level and exp to the instance.  The other
fields of `Model` are attributes that the methods read and write and that the class of
the instance has to declare; `Instances` makes them a parameter.  A client may send any
number as a count, so that the count of an item is of any ordered ring `N`.
-/

namespace ArmyRs
namespace Player

/-! ## Tables -/

/-- An entry of `GameConfig.items`, or of a table of parts.  `effDurType` is the time that
the text of `eff_dur_type` stands for. -/
structure ItemType where
  funcCat : Option String
  addAttr : Option String
  sellPrice : Option Int
  sellType : Option String
  useableDur : Option Duration
  effDurType : Option Int
  deriving DecidableEq, Repr

abbrev ItemTable := List (String × ItemType)

/-- A good of the shop: its prices, and until when it is sold. -/
structure Good where
  coins : Option Int
  fragments : Option Int
  credits : Option Int
  endTime : Option Int
  deriving DecidableEq, Repr

inductive Currency
  | credits
  | coins
  | fragments
  deriving DecidableEq, Repr

/-- The `add_attr` of a currency. -/
def Currency.attr : Currency → String
  | .credits => "credits"
  | .coins => "coins"
  | .fragments => "fragments"

/-- The id of a currency. -/
def Currency.tid : Currency → String
  | .credits => "ite1000001"
  | .coins => "ite1000002"
  | .fragments => "ite1000003"

/-- `GameConfig`.  There is no table of props when the file has none. -/
structure GameConfig where
  items : ItemTable
  props : Option ItemTable
  avatar : ItemTable
  decoration : ItemTable
  paint : ItemTable
  heroes : Heroes
  levelup : LevelTable
  shop : List (String × List (String × Good))
  /-- The currencies are among the items. -/
  currency_mem : ∀ currency : Currency, ∃ t, items.lookup currency.tid = some t ∧
    t.funcCat = some "currency" ∧ t.addAttr = some currency.attr
  /-- The default parts of a car are no cars. -/
  parts_not_car : ∀ car hero, heroes.lookup car = some hero →
    ∀ part ∈ hero.parts, lineBegins "car" part = false

/-- `get_type`; it raises when there is no table to look into. -/
def GameConfig.getType (config : GameConfig) (tid : String) : Option (Option ItemType) :=
  if lineBegins "ite" tid then some (config.items.lookup tid)
  else if lineBegins "pro" tid then config.props.map fun props => props.lookup tid
  else if lineBegins "avatar" tid then some (config.avatar.lookup tid)
  else if lineBegins "deco" tid then some (config.decoration.lookup tid)
  else if lineBegins "paint" tid then some (config.paint.lookup tid)
  else some none

/-! ## Items -/

structure Item (N : Type*) where
  tid : String
  count : N
  endTime : Int
  deriving DecidableEq, Repr

/-- `expired?` -/
def Item.Expired {N : Type*} (now : Nat) (item : Item N) : Prop :=
  0 < item.endTime ∧ item.endTime < now

instance Item.decidableExpired {N : Type*} (now : Nat) (item : Item N) :
    Decidable (item.Expired now) :=
  inferInstanceAs (Decidable (_ ∧ _))

/-- `Item.new`; it raises when the item is not in the table. -/
def Item.new {N : Type*} [Zero N] (config : GameConfig) (tid : String) : Option (Item N) :=
  (config.items.lookup tid).map fun t => ⟨tid, 0, t.effDurType.getD (-1)⟩

/-- `operate`: the item that is left, and how much of it was taken. -/
def Item.operate {N : Type*} [Ring N] [LinearOrder N] (item : Item N) (num : N) : Item N × N :=
  if num < item.count then ({ item with count := item.count - num }, num)
  else ({ item with count := 0 }, item.count)

/-- What the methods read and write of a player. -/
structure Model (N : Type*) where
  credits : Int
  coins : Int
  fragments : Int
  progress : Progress
  items : AList fun _ : String => Item N
  avatarData : AvatarData

def Model.balance {N : Type*} (s : Model N) : Currency → Int
  | .credits => s.credits
  | .coins => s.coins
  | .fragments => s.fragments

/-- `alter_credits`, `alter_coins` and `alter_fragments` -/
def Model.alter {N : Type*} (s : Model N) (num : Int) : Currency → Model N
  | .credits => { s with credits := s.credits + num }
  | .coins => { s with coins := s.coins + num }
  | .fragments => { s with fragments := s.fragments + num }

/-- How much of an item there is. -/
def Model.owned {N : Type*} [Zero N] (s : Model N) (tid : String) : N :=
  ((s.items.lookup tid).map Item.count).getD 0

/-- What `add_item` answers. -/
inductive Bonus
  | nothing
  | currency (tid : String) (count : Int) (exp : Option Int) (level : Option Nat)
  | item (item : Item Int)
  deriving DecidableEq, Repr

/-- `add_item`, without an answer when it raises. -/
def Model.addItem (config : GameConfig) (s : Model Int) (tid : Option String) (count : Int) :
    Model Int × Option Bonus :=
  match tid with
  | none => (s, some .nothing)
  | some tid =>
    match config.getType tid with
    | none => (s, none)
    -- no type for the id: the answer is an empty list
    | some none => (s, some .nothing)
    | some (some t) =>
      if t.funcCat = some "currency" then
        if t.addAttr = some Currency.credits.attr then
          (s.alter count .credits, some (.currency tid count none none))
        else if t.addAttr = some Currency.coins.attr then
          (s.alter count .coins, some (.currency tid count none none))
        else if t.addAttr = some Currency.fragments.attr then
          (s.alter count .fragments, some (.currency tid count none none))
        else if t.addAttr = some "exp" then
          match s.progress.alterExp config.levelup count with
          | (progress, none) => ({ s with progress := progress }, none)
          | (progress, some change) =>
              ({ s with progress := progress }, some (.currency tid count (some change.diffExp)
                (if change.levelUp then some progress.level else none)))
        else (s, some (.currency tid count none none))
      else
        -- an item that is not there yet is made first; without a profile that raises
        match (s.items.lookup tid).or (Item.new config tid) with
        | none => (s, none)
        | some item =>
            let added := { item with count := item.count + count }
            ({ s with items := s.items.insert tid added }, some (.item added))

/-- What `sell_items` answers: the count of the currency and its id. -/
structure Gain where
  count : Int
  tid : Option String
  deriving DecidableEq, Repr

/-- The item of an id, after it was operated on. -/
def Model.keepItem {N : Type*} (s : Model N) (tid : String) (item : Item N) : Model N :=
  { s with items := s.items.insert tid item }

/-- `sell_items`: `some none` when there is no such item, and no answer when it raises.
The count may be missing. -/
def Model.sellItems (config : GameConfig) (s : Model Int) (tid : String) (count : Option Int) :
    Model Int × Option (Option Gain) :=
  match s.items.lookup tid, count with
  | none, _ => (s, some none)
  -- `operate` compares the count, so it raises without one
  | some _, none => (s, none)
  | some item, some count =>
    let (left, num) := item.operate count
    let operated := s.keepItem tid left
    match config.items.lookup tid with
    | none => (operated, none)
    | some profile =>
      match profile.sellPrice with
      | none => (operated, none)
      | some price =>
        -- the price is paid after the item is taken
        match operated.addItem config profile.sellType (price * num) with
        | (paid, none) => (paid, none)
        | (paid, some _) =>
            (if left.count ≤ 0 then { paid with items := paid.items.erase tid } else paid,
              some (some ⟨price * num, profile.sellType⟩))

/-! ## Counts -/

section

variable {N : Type*} [Ring N] [LinearOrder N] {item : Item N}

theorem operate_snd (num : N) : (item.operate num).2 = min num item.count := by
  unfold Item.operate
  split
  · next hlt => exact (min_eq_left hlt.le).symm
  · next hge => exact (min_eq_right (not_lt.mp hge)).symm

theorem operate_fst_count (num : N) :
    (item.operate num).1.count = item.count - min num item.count := by
  unfold Item.operate
  split
  · next hlt => rw [min_eq_left hlt.le]
  · next hge => rw [min_eq_right (not_lt.mp hge), sub_self]

end

section

variable {N : Type*} [Zero N] {s : Model N} {tid : String} {item : Item N}

theorem owned_of_lookup (hitem : s.items.lookup tid = some item) : s.owned tid = item.count := by
  simp [Model.owned, hitem]

theorem owned_of_notMem (hnot : tid ∉ s.items) : s.owned tid = 0 := by
  simp [Model.owned, AList.lookup_eq_none.mpr hnot]

theorem owned_congr {t : Model N} (h : t.items.lookup tid = s.items.lookup tid) :
    t.owned tid = s.owned tid := by
  simp [Model.owned, h]

end

/-! ## Balances -/

section

variable {N : Type*} {config : GameConfig} {s : Model N}

@[simp] theorem items_alter (num : Int) (currency : Currency) :
    (s.alter num currency).items = s.items := by
  cases currency <;> rfl

@[simp] theorem progress_alter (num : Int) (currency : Currency) :
    (s.alter num currency).progress = s.progress := by
  cases currency <;> rfl

@[simp] theorem avatarData_alter (num : Int) (currency : Currency) :
    (s.alter num currency).avatarData = s.avatarData := by
  cases currency <;> rfl

theorem balance_alter (num : Int) (currency other : Currency) :
    (s.alter num currency).balance other =
      s.balance other + if other = currency then num else 0 := by
  cases currency <;> cases other <;> simp [Model.alter, Model.balance]

/-- The item of the id is this currency. -/
def GameConfig.IsCurrency (config : GameConfig) (tid : String) (currency : Currency) : Prop :=
  ∃ t, config.getType tid = some (some t) ∧ t.funcCat = some "currency" ∧
    t.addAttr = some currency.attr

/-- Adding a currency alters its balance and nothing else. -/
theorem addItem_currency {s : Model Int} {tid : String} {currency : Currency}
    (hcurrency : config.IsCurrency tid currency) (count : Int) :
    s.addItem config (some tid) count =
      (s.alter count currency, some (.currency tid count none none)) := by
  obtain ⟨t, htype, hcat, hattr⟩ := hcurrency
  cases currency <;> simp [Model.addItem, htype, hcat, hattr, Currency.attr]

theorem isCurrency_tid (currency : Currency) : config.IsCurrency currency.tid currency := by
  obtain ⟨t, hitem, hcat, hattr⟩ := config.currency_mem currency
  have hite : lineBegins "ite" currency.tid = true := by cases currency <;> decide
  exact ⟨t, by simp [GameConfig.getType, hite, hitem], hcat, hattr⟩

end

/-! ## A config -/

/-- The three currencies, a part and a car for some time, and a shop. -/
def smallConfig : GameConfig where
  items := [
    ("ite1000001", ⟨some "currency", some "credits", some 1, none, none, none⟩),
    ("ite1000002", ⟨some "currency", some "coins", some 1, none, none, none⟩),
    ("ite1000003", ⟨some "currency", some "fragments", some 1, none, none, none⟩),
    ("ite1000007", ⟨some "item", some "avatar00101004", some 3, some "ite1000003", some 260,
      some 1552003200⟩),
    ("ite20010000001", ⟨some "item", some "car001", some 1, some "ite1000001", some 86400, none⟩)]
  props := none
  avatar := []
  decoration := []
  paint := []
  heroes := [("car001",
    ⟨"avatar00101001", "avatar00102001", none, "dust00040001", "notrigen00030001"⟩)]
  levelup := []
  shop := [
    ("car", [("car001", ⟨some 2888, none, some 108, none⟩)]),
    ("paint", [("paint00404001", ⟨none, some 18, some 450, none⟩)])]
  currency_mem currency := by cases currency <;> exact ⟨_, rfl, rfl, rfl⟩
  parts_not_car car hero hhero part hpart := by
    rw [List.lookup_cons] at hhero
    split at hhero
    · cases hhero
      revert part
      decide
    · cases hhero

end Player
end ArmyRs
