import ArmyRs.Player.ItemSales
import ArmyRs.Player.ItemUses
import ArmyRs.Player.ShopPurchases

/-!
# The class of the instance

`InstanceAlter` and the handlers work on `items`, `avatar_data`, `coins` and `fragments`
of the instance.  The class that includes `InstanceAlter` has to declare them, and
`Instance` does not: its `initialize` sets `@coins`, and that is all.  So the
attributes are a parameter here.  What is known of them is what `attr_accessor` makes,
that a value is read back as it was written.

A class without the attributes is covered too.  There the methods raise when they
first come to one of them, before anything has changed.
-/

namespace ArmyRs
namespace Player

variable {P N α : Type*}

/-- The attributes as a class with the instances `P` declares them; the credits of the
chief, the level and the exp are read and written with them. -/
structure Attributes (P N : Type*) where
  read : P → Model N
  write : P → Model N → P
  read_write : ∀ p s, read (write p s) = s
  write_read : ∀ p, write p (read p) = p

/-- A class that includes `InstanceAlter`, `none` when it does not declare the attributes,
like `Instance`. -/
abbrev InstanceClass (P N : Type*) := Option (Attributes P N)

/-- A method that is called for an instance.  `early` is the answer of what it checks before
it comes to the attributes, or no answer when it comes to them and raises. -/
def InstanceClass.call (cls : InstanceClass P N) (early : Option α)
    (method : Model N → Model N × Option α) (p : P) : P × Option α :=
  match cls with
  | none => (p, early)
  | some attributes =>
      let done := method (attributes.read p)
      (attributes.write p done.1, done.2)

section

variable {early : Option α} {method : Model N → Model N × Option α} {p : P}

@[simp] theorem read_call (attributes : Attributes P N) :
    attributes.read (InstanceClass.call (some attributes) early method p).1 =
      (method (attributes.read p)).1 :=
  attributes.read_write _ _

/-- A method that changes no attribute leaves the instance as it is. -/
theorem call_eq_self {cls : InstanceClass P N}
    (hsame : ∀ attributes ∈ cls, (method (attributes.read p)).1 = attributes.read p) :
    (cls.call early method p).1 = p := by
  cases cls with
  | none => rfl
  | some attributes =>
      have hwrite : (InstanceClass.call (some attributes) early method p).1 =
          attributes.write p (method (attributes.read p)).1 := rfl
      rw [hwrite, hsame attributes rfl]
      exact attributes.write_read p

end

/-- A class that declares the attributes and nothing else. -/
def plainClass (N : Type*) : InstanceClass (Model N) N :=
  some ⟨id, fun _ s => s, fun _ _ => rfl, fun _ => rfl⟩

/-! ## Using items -/

section

variable [Ring N] [LinearOrder N] [FloorRing N]

/-- `use_items` -/
def InstanceClass.useItems (cls : InstanceClass P N) (config : GameConfig) (now : Nat) (p : P)
    (tid : String) (count : N) : P × Option (Option (Gift N)) :=
  cls.call none (fun s => s.useItems config now tid count) p

/-- The checks of `UseItem` before it comes to the items. -/
def checkUse (id : Option String) (count : Option N) : Option (UseAnswer N) :=
  match id, count with
  | none, _ => some (.ng "error_id")
  | some _, none => some (.ng "error_count")
  | some _, some count => if count ≤ 0 then some (.ng "error_count") else none

/-- `UseItem.process` -/
def InstanceClass.useItem (cls : InstanceClass P N) (config : GameConfig) (now : Nat) (p : P)
    (id : Option String) (count : Option N) : P × Option (UseAnswer N) :=
  cls.call (checkUse id count) (fun s => Player.useItem config now s id count) p

/-- What `UseItem` changes, `use_items` changes. -/
theorem InstanceClass.useItem_cases {cls : InstanceClass P N} {config : GameConfig} {now : Nat}
    {p : P} {id : Option String} {count : Option N} :
    (cls.useItem config now p id count).1 = p ∨
      ∃ tid num, id = some tid ∧ count = some num ∧ 0 < num ∧
        (cls.useItem config now p id count).1 = (cls.useItems config now p tid num).1 := by
  cases cls with
  | none => exact .inl rfl
  | some attributes =>
      rcases @Player.useItem_cases N _ _ _ config now (attributes.read p) id count with
        hsame | ⟨tid, num, item, hid, hcount, hpos, -, -, hused⟩
      · refine .inl (call_eq_self fun other hother => ?_)
        cases hother
        exact hsame
      · exact .inr ⟨tid, num, hid, hcount, hpos, congrArg (attributes.write p) hused⟩

/-- As much was granted as was consumed, or nothing at all; without the attributes the
instance is the same. -/
def InstanceClass.UsedExactly (cls : InstanceClass P N) (now : Nat) (p : P) (tid : String)
    (profile : ItemType) (day : Duration) (count : N) (after : P) : Prop :=
  match cls with
  | none => after = p
  | some attributes =>
      Player.UsedExactly now (attributes.read p) tid profile day count (attributes.read after)

/-- For any class, using a stocked item with a duration consumes as much as it grants, or
does nothing, exactly when in a class with the attributes the count is a whole number
that does not exceed the stock and a car is ready. -/
theorem instanceUses_iff [IsStrictOrderedRing N] {cls : InstanceClass P N} {config : GameConfig}
    {now : Nat} {p : P} {tid : String} {profile : ItemType} {day : Duration} {count : N}
    (hstock : ∀ attributes ∈ cls, ∃ item, (attributes.read p).items.lookup tid = some item ∧
      0 ≤ item.count)
    (hprofile : config.items.lookup tid = some profile) (hdur : profile.useableDur = some day)
    (hcount : 0 < count) :
    cls.UsedExactly now p tid profile day count (cls.useItems config now p tid count).1 ↔
      ∀ attributes ∈ cls, ∀ attr ∈ profile.addAttr,
        Usable config (attributes.read p) tid attr count := by
  cases cls with
  | none => exact ⟨fun _ attributes hmem => (by cases hmem), fun _ => rfl⟩
  | some attributes =>
      obtain ⟨item, hitem, hnonneg⟩ := hstock attributes rfl
      have hread : attributes.read
          (InstanceClass.useItems (some attributes) config now p tid count).1 =
            ((attributes.read p).useItems config now tid count).1 := read_call attributes
      unfold InstanceClass.UsedExactly
      dsimp only
      rw [hread, usedExactly_iff hitem hnonneg hprofile hdur hcount]
      simp

/-- Two of three are used. -/
theorem instanceUses_onePart :
    (plainClass Int).UsedExactly 1550102400 (onePart 3) "ite1000007" partProfile 260 2
        ((plainClass Int).useItems smallConfig 1550102400 (onePart 3) "ite1000007" 2).1 ↔
      ∀ attributes ∈ plainClass Int, ∀ attr ∈ partProfile.addAttr,
        Usable smallConfig (attributes.read (onePart 3)) "ite1000007" attr 2 := by
  refine instanceUses_iff (fun attributes hmem => ?_) rfl rfl (by decide)
  cases hmem
  exact ⟨⟨"ite1000007", 3, 1552003200⟩, rfl, by decide⟩

/-- One item is used three times. -/
theorem not_instanceUses_onePart :
    ¬ (plainClass Int).UsedExactly 1550102400 (onePart 1) "ite1000007" partProfile 260 3
      ((plainClass Int).useItems smallConfig 1550102400 (onePart 1) "ite1000007" 3).1 :=
  not_usedExactly_onePart

end

/-! ## Selling items -/

section

variable (cls : InstanceClass P Int) (config : GameConfig) (p : P) (its : List SellEntry)

/-- `SellExpiredItems.process` -/
def InstanceClass.sellExpiredItems : P × Option SellAnswer :=
  cls.call none (fun s => Player.sellExpiredItems config s its) p

/-- The instance after the loop has come past these entries, if it does. -/
def InstanceClass.sellEntries : P × Option SellAnswer :=
  cls.call none
    (fun s => let done := Player.sellEntries config s its
      (done.1.1, if done.2 then some done.1.2 else none)) p

/-- Each entry that is processed is an exact sale, and the rest of the method changes
nothing. -/
def InstanceClass.SoldExactly : Prop :=
  (∀ done entry rest, its = done ++ entry :: rest →
    (cls.sellEntries config p done).2.isSome → ∃ attributes ∈ cls,
      ExactSale config (attributes.read (cls.sellEntries config p done).1) entry.itemID
        (attributes.read (cls.sellEntries config p (done ++ [entry])).1)) ∧
  (cls.sellExpiredItems config p its).1 = (cls.sellEntries config p its).1 ∧
    (cls = none → (cls.sellExpiredItems config p its).1 = p)

variable {cls config p its}

theorem isSome_sellEntries {attributes : Attributes P Int} (done : List SellEntry) :
    (InstanceClass.sellEntries (some attributes) config p done).2.isSome ↔
      (Player.sellEntries config (attributes.read p) done).2 = true := by
  have heq : (InstanceClass.sellEntries (some attributes) config p done).2 =
      if (Player.sellEntries config (attributes.read p) done).2
        then some (Player.sellEntries config (attributes.read p) done).1.2 else none := rfl
  rw [heq]
  cases (Player.sellEntries config (attributes.read p) done).2 <;> simp

theorem read_sellEntries (attributes : Attributes P Int) (done : List SellEntry) :
    attributes.read (InstanceClass.sellEntries (some attributes) config p done).1 =
      (Player.sellEntries config (attributes.read p) done).1.1 :=
  read_call attributes

/-- For any class, every entry that is processed is an exact sale exactly when in a class
with the attributes none that is processed has a negative count for an item that is
there; the worth of the items and the currency together is the same in any case. -/
theorem instanceSales_iff
    (stocked : ∀ attributes ∈ cls, Stocked config (attributes.read p)) :
    (cls.SoldExactly config p its ↔
      ∀ attributes ∈ cls, ∀ done entry rest, its = done ++ entry :: rest →
        (cls.sellEntries config p done).2.isSome →
          entry.itemID ∈ (attributes.read (cls.sellEntries config p done).1).items →
            ∀ count ∈ entry.count, 0 ≤ count) ∧
    ∀ attributes ∈ cls, ∀ currency ids, Covers config currency ids (attributes.read p) →
      (attributes.read (cls.sellExpiredItems config p its).1).worth config currency ids =
        (attributes.read p).worth config currency ids := by
  cases cls with
  | none =>
      -- no attributes: the first entry raises, and nothing is sold
      refine ⟨⟨fun _ attributes hmem => (by cases hmem), fun _ => ⟨?_, rfl, fun _ => rfl⟩⟩,
        fun attributes hmem => (by cases hmem)⟩
      intro done entry rest _ hok
      cases hok
  | some attributes =>
      obtain ⟨hentries, hworth⟩ := exactSales_iff (stocked attributes rfl) its
      have hsome : ∀ {motive : Attributes P Int → Prop},
          (∀ other ∈ (some attributes : InstanceClass P Int), motive other) ↔
            motive attributes := by simp
      rw [hsome, hsome]
      refine ⟨?_, fun currency ids covers => ?_⟩
      · simp only [isSome_sellEntries, read_sellEntries]
        rw [← hentries]
        constructor
        · rintro ⟨exact_, -⟩ done entry rest heq hok
          obtain ⟨other, hother, hsale⟩ :=
            exact_ done entry rest heq ((isSome_sellEntries done).mpr hok)
          cases hother
          rwa [read_sellEntries, read_sellEntries] at hsale
        · intro exact_
          refine ⟨fun done entry rest heq hok => ⟨attributes, rfl, ?_⟩, rfl, fun h => by cases h⟩
          rw [read_sellEntries, read_sellEntries]
          exact exact_ done entry rest heq ((isSome_sellEntries done).mp hok)
      · have hread : attributes.read
            (InstanceClass.sellExpiredItems (some attributes) config p its).1 =
              (Player.sellExpiredItems config (attributes.read p) its).1 := read_call attributes
        rw [hread]
        exact hworth currency ids covers

/-- Two are sold, then more than there are. -/
theorem instanceSales_threeParts :
    ((plainClass Int).SoldExactly smallConfig threeParts
        [⟨"ite1000007", some 2⟩, ⟨"ite1000007", some 5⟩] ↔
      ∀ attributes ∈ plainClass Int, ∀ done entry rest,
        [⟨"ite1000007", some 2⟩, ⟨"ite1000007", some 5⟩] = done ++ entry :: rest →
        ((plainClass Int).sellEntries smallConfig threeParts done).2.isSome →
        entry.itemID ∈
            (attributes.read ((plainClass Int).sellEntries smallConfig threeParts done).1).items →
          ∀ count ∈ entry.count, 0 ≤ count) ∧
    ∀ attributes ∈ plainClass Int, ∀ currency ids,
      Covers smallConfig currency ids (attributes.read threeParts) →
      (attributes.read ((plainClass Int).sellExpiredItems smallConfig threeParts
        [⟨"ite1000007", some 2⟩, ⟨"ite1000007", some 5⟩]).1).worth smallConfig currency ids =
        (attributes.read threeParts).worth smallConfig currency ids := by
  refine instanceSales_iff fun attributes hmem => ?_
  cases hmem
  exact stocked_threeParts

/-- With a negative count the player has more of the item afterwards, and a debt. -/
theorem not_instanceSales_threeParts :
    ¬ (plainClass Int).SoldExactly smallConfig threeParts [⟨"ite1000007", some (-5)⟩] := by
  rintro ⟨exact_, -⟩
  obtain ⟨attributes, hmem, hsale⟩ := exact_ [] ⟨"ite1000007", some (-5)⟩ [] rfl rfl
  cases hmem
  exact not_exactSale_threeParts hsale

end

/-! ## Buying in the shop -/

section

/-- The checks of `ShopBuyItem` before it comes to the bag. -/
def checkBuy (msg : BuyRequest) : Option BuyAnswer :=
  match msg.id, msg.type, msg.cata with
  | none, _, _ => some (.ng "error_good_id")
  | some _, none, _ => some (.ng "error_currency")
  | some _, some type, cata =>
    if 3 < type ∨ type < 1 then some (.ng "error_currency")
    else if cata = none then some (.ng "error_cata")
    else none

variable (cls : InstanceClass P Int) (config : GameConfig) (now : Nat) (p : P) (msg : BuyRequest)

/-- `ShopBuyItem.process` -/
def InstanceClass.shopBuyItem : P × Option BuyAnswer :=
  cls.call (checkBuy msg) (fun s => Player.shopBuyItem config now s msg) p

/-- Nothing has changed, or an order was bought. -/
def InstanceClass.Atomic (after : P) : Prop :=
  after = p ∨ ∃ attributes ∈ cls, ∃ order,
    checkOrder config now (attributes.read p) msg = .ok order ∧
      Bought config (attributes.read p) order (attributes.read after)

variable {cls config now p msg}

/-- For any class, either nothing changes, or the price is taken and the good granted,
exactly when in a class with the attributes an order that passes the checks and can be
paid is for a currency and a part or a car that is known, or is for an item and takes
nothing. -/
theorem instancePurchases_iff :
    cls.Atomic config now p msg (cls.shopBuyItem config now p msg).1 ↔
      ∀ attributes ∈ cls, ∀ order, checkOrder config now (attributes.read p) msg = .ok order →
        Affordable (attributes.read p) order → Sellable config order := by
  cases cls with
  | none => exact ⟨fun _ attributes hmem => (by cases hmem), fun _ => .inl rfl⟩
  | some attributes =>
      -- what the handler leaves in the object is what it leaves in the values
      have hread : attributes.read
          (InstanceClass.shopBuyItem (some attributes) config now p msg).1 =
            (Player.shopBuyItem config now (attributes.read p) msg).1 := read_call attributes
      have hiff := @purchases_atomic_iff config now (attributes.read p) msg
      unfold InstanceClass.Atomic
      constructor
      · rintro hatomic other hother
        cases hother
        refine hiff.mp ?_
        rcases hatomic with hsame | ⟨other, hother, order, hcheck, hbought⟩
        · left
          rw [← hread, hsame]
        · cases hother
          rw [hread] at hbought
          exact .inr ⟨order, hcheck, hbought⟩
      · intro sellable
        rcases hiff.mpr (sellable attributes rfl) with hsame | ⟨order, hcheck, hbought⟩
        · refine .inl (call_eq_self fun other hother => ?_)
          cases hother
          exact hsame
        · refine .inr ⟨attributes, rfl, order, hcheck, ?_⟩
          rw [hread]
          exact hbought

/-- A paint is granted for nothing. -/
theorem not_instancePurchases_betweenTypes :
    ¬ (plainClass Int).Atomic smallConfig 1550102400 penniless betweenTypes
      ((plainClass Int).shopBuyItem smallConfig 1550102400 penniless betweenTypes).1 := by
  rintro (hsame | ⟨attributes, hmem, horder⟩)
  · exact not_atomic_betweenTypes (.inl hsame)
  · cases hmem
    exact not_atomic_betweenTypes (.inr horder)

end

end Player
end ArmyRs
