import ArmyRs.Player.InstanceAlter

/-!
# Buying in the shop

`ShopBuyItem` checks the request, takes the price and grants the good.  The price is
taken first, and the model is kept when the method raises afterwards.

Two branches raise: for the catalogue of items the count is a name that is not
defined, and a car may be unknown to `heroes`.  The check of the currency lets
fractions pass, for which the `case` takes no price (`purchases_atomic_iff`).
-/

namespace ArmyRs
namespace Player

/-- The message of the client.  The type is any number. -/
structure BuyRequest where
  id : Option String
  type : Option ℚ
  cata : Option String

/-- What `ShopBuyItem` answers; `items` has the ids of what was granted, each once and for ever. -/
inductive BuyAnswer
  | ng (reason : String)
  | success (bonuses : List (Option Bonus)) (equips : List (List CarEquipped)) (items : List String)

/-- A request that has passed the checks of the good. -/
structure Order where
  id : String
  type : ℚ
  cata : String
  good : Good

/-- The currency that the `case` takes for a type. -/
def currencyOfType (type : ℚ) : Option Currency :=
  if type = 1 then some .coins
  else if type = 2 then some .fragments
  else if type = 3 then some .credits
  else none

/-- The price of a good in a currency. -/
def Good.price (good : Good) : Currency → Option Int
  | .coins => good.coins
  | .fragments => good.fragments
  | .credits => good.credits

/-- The bag has the good for ever. -/
def Model.hasGood (s : Model Int) (id : String) : Prop :=
  ∃ avatar ∈ s.avatarData.bag.lookup id, avatar.count = 1

instance Model.decidableHasGood (s : Model Int) (id : String) : Decidable (s.hasGood id) :=
  inferInstanceAs (Decidable (∃ avatar ∈ s.avatarData.bag.lookup id, avatar.count = 1))

/-- The checks before the price. -/
def checkOrder (config : GameConfig) (now : Nat) (s : Model Int) (msg : BuyRequest) :
    Except String Order :=
  match msg.id, msg.type, msg.cata with
  | none, _, _ => .error "error_good_id"
  | some _, none, _ => .error "error_currency"
  | some id, some type, cata =>
    if 3 < type ∨ type < 1 then .error "error_currency"
    else
      match cata with
      | none => .error "error_cata"
      | some cata =>
        if s.hasGood id then .error "have_good_yet"
        else
          match config.shop.lookup cata with
          | none => .error "error_cata"
          | some c =>
            match c.lookup id with
            | none => .error "error_good_id"
            | some good =>
              if ∃ endTime ∈ good.endTime, endTime < (now : Int) then .error "expired_good"
              else .ok ⟨id, type, cata, good⟩

/-- What is granted for an order, after the price was taken. -/
def Model.grantOrder (config : GameConfig) (now : Nat) (s : Model Int) (order : Order)
    (it : Option Bonus) : Model Int × Option BuyAnswer :=
  -- `count` is not defined here
  if order.cata = "items" then (s, none)
  else if order.cata = "car" then
    let purchased := s.avatarData.purchaseCar config.heroes now order.id none
    ({ s with avatarData := purchased.1 },
      purchased.2.map fun purchase =>
        .success [it] [purchase.schemes] (purchase.items.filterMap id))
  else
    ({ s with avatarData := s.avatarData.purchaseItem now order.id none },
      some (.success [it] [] [order.id]))

/-- The `case` of the price, and what follows. -/
def Model.buyOrder (config : GameConfig) (now : Nat) (s : Model Int) (order : Order) :
    Model Int × Option BuyAnswer :=
  match currencyOfType order.type with
  | none => s.grantOrder config now order none
  | some currency =>
    match order.good.price currency with
    | none => (s, some (.ng (currency.attr ++ "_cannot_buy")))
    | some price =>
      if s.balance currency < price then (s, some (.ng (currency.attr ++ "_not_enough")))
      else
        match s.addItem config (some currency.tid) (-price) with
        | (paid, none) => (paid, none)
        | (paid, some it) => paid.grantOrder config now order (some it)

/-- `ShopBuyItem.process`, without an answer when it raises. -/
def shopBuyItem (config : GameConfig) (now : Nat) (s : Model Int) (msg : BuyRequest) :
    Model Int × Option BuyAnswer :=
  match checkOrder config now s msg with
  | .error reason => (s, some (.ng reason))
  | .ok order => s.buyOrder config now order

/-! ## What a purchase should do -/

section

variable {config : GameConfig} {now : Nat} {s t : Model Int} {msg : BuyRequest} {order : Order}

/-- The ids that come with an order. -/
def Order.tids (config : GameConfig) (order : Order) : List String :=
  if order.cata = "car" then
    order.id :: ((checkDefaultAvatar config.heroes order.id).map Hero.parts).getD []
  else [order.id]

/-- The good of an order: more of an item; or a car with its default parts, or a part,
for ever. -/
structure Granted (config : GameConfig) (s : Model Int) (order : Order) (t : Model Int) : Prop where
  item : order.cata = "items" → s.owned order.id < t.owned order.id
  car : order.cata = "car" → ∃ hero, checkDefaultAvatar config.heroes order.id = some hero ∧
    ∃ data, t.avatarData.equippedData.lookup order.id = some data ∧
      ∀ ss ∈ data.schemes, hero.dress ss = ss
  bag : order.cata ≠ "items" → ∀ tid, if tid ∈ order.tids config then t.avatarData.ForEver tid
    else t.avatarData.bag.lookup tid = s.avatarData.bag.lookup tid
  items : order.cata ≠ "items" → t.items = s.items
  progress : t.progress = s.progress

/-- The price of the good was taken and the good granted. -/
def Bought (config : GameConfig) (s : Model Int) (order : Order) (t : Model Int) : Prop :=
  (∃ currency price, currencyOfType order.type = some currency ∧
    order.good.price currency = some price ∧ price ≤ s.balance currency ∧
    ∀ other, t.balance other = s.balance other - if other = currency then price else 0) ∧
  Granted config s order t

/-- Nothing has changed, or an order was bought. -/
def Atomic (config : GameConfig) (now : Nat) (s : Model Int) (msg : BuyRequest) (t : Model Int) :
    Prop :=
  t = s ∨ ∃ order, checkOrder config now s msg = .ok order ∧ Bought config s order t

/-- There is enough of the currency, if the type stands for one. -/
def Affordable (s : Model Int) (order : Order) : Prop :=
  ∀ currency, currencyOfType order.type = some currency →
    ∃ price, order.good.price currency = some price ∧ price ≤ s.balance currency

/-- No branch is taken that goes wrong. -/
structure Sellable (config : GameConfig) (order : Order) : Prop where
  /-- An item costs nothing. -/
  item : order.cata = "items" →
    ∀ currency, currencyOfType order.type = some currency → order.good.price currency = some 0
  /-- Other goods are paid for. -/
  type : order.cata ≠ "items" → (currencyOfType order.type).isSome
  car : order.cata = "car" → (checkDefaultAvatar config.heroes order.id).isSome

/-- What passes the checks is not kept for ever before. -/
theorem not_hasGood_of_checkOrder (hcheck : checkOrder config now s msg = .ok order) :
    ¬ s.hasGood order.id := by
  unfold checkOrder at hcheck
  split at hcheck
  · cases hcheck
  · cases hcheck
  split at hcheck
  · cases hcheck
  split at hcheck
  · cases hcheck
  split at hcheck
  · cases hcheck
  next hgood =>
    split at hcheck
    · cases hcheck
    split at hcheck
    · cases hcheck
    split at hcheck
    · cases hcheck
    · cases hcheck
      exact hgood

theorem hasGood_of_forEver {id : String} (h : s.avatarData.ForEver id) : s.hasGood id := by
  obtain ⟨item, hitem, hend⟩ := h
  exact ⟨item, hitem, item.count_eq_one_iff.mpr hend⟩

/-! ## What is granted -/

theorem balance_grantOrder (it : Option Bonus) (currency : Currency) :
    (s.grantOrder config now order it).1.balance currency = s.balance currency := by
  unfold Model.grantOrder
  split
  · rfl
  · split <;> cases currency <;> rfl

theorem items_grantOrder (it : Option Bonus) :
    (s.grantOrder config now order it).1.items = s.items := by
  unfold Model.grantOrder
  split
  · rfl
  · split <;> rfl

theorem progress_grantOrder (it : Option Bonus) :
    (s.grantOrder config now order it).1.progress = s.progress := by
  unfold Model.grantOrder
  split
  · rfl
  · split <;> rfl

/-- Also where the method raises, the good itself is in the bag for ever. -/
theorem forEver_grantOrder (it : Option Bonus) (hitems : order.cata ≠ "items") :
    (s.grantOrder config now order it).1.avatarData.ForEver order.id := by
  have hpurchased : ∀ a : AvatarData,
      a.bag.lookup order.id =
        some (.purchased now order.id none (s.avatarData.bag.lookup order.id)) →
      a.ForEver order.id := fun a h => ⟨_, h, purchased_endTime _⟩
  unfold Model.grantOrder
  rw [if_neg hitems]
  by_cases hcar : order.cata = "car"
  · rw [if_pos hcar]
    apply hpurchased
    cases hhero : checkDefaultAvatar config.heroes order.id with
    | none =>
        dsimp only
        rw [(purchaseCar_of_unknown hhero).2, lookup_purchaseItem, if_pos rfl]
    | some hero =>
        dsimp only
        rw [lookup_purchaseCar hhero, if_pos List.mem_cons_self]
  · rw [if_neg hcar]
    apply hpurchased
    dsimp only
    rw [lookup_purchaseItem, if_pos rfl]

/-- A part, or a car that is known, is granted. -/
theorem granted_grantOrder (it : Option Bonus) (hitems : order.cata ≠ "items")
    (hcar : order.cata = "car" → (checkDefaultAvatar config.heroes order.id).isSome) :
    Granted config s order (s.grantOrder config now order it).1 where
  item h := absurd h hitems
  car h := by
    obtain ⟨hero, hhero⟩ := Option.isSome_iff_exists.mp (hcar h)
    refine ⟨hero, hhero, ?_⟩
    have heq := (@equipped_purchaseCar now s.avatarData order.id none config.heroes hero hhero).1
    simpa [Model.grantOrder, hitems, h] using heq
  bag _ tid := by
    unfold Order.tids Model.grantOrder
    rw [if_neg hitems]
    by_cases h : order.cata = "car"
    · obtain ⟨hero, hhero⟩ := Option.isSome_iff_exists.mp (hcar h)
      simp only [h, if_true, hhero, Option.map_some, Option.getD_some]
      have hlookup := @lookup_purchaseCar now s.avatarData order.id none _ _ hhero tid
      split
      · next hmem =>
        rw [if_pos hmem] at hlookup
        exact ⟨_, hlookup, purchased_endTime _⟩
      · next hmem => rw [hlookup, if_neg hmem]
    · simp only [h, if_false, List.mem_singleton]
      have hlookup := @lookup_purchaseItem now s.avatarData order.id none tid
      split
      · next heq =>
        rw [if_pos heq] at hlookup
        refine ⟨_, hlookup, purchased_endTime _⟩
      · next heq => rw [hlookup, if_neg heq]
  items _ := items_grantOrder it
  progress := progress_grantOrder it

/-- What is granted after the price was taken is granted to the player of before. -/
theorem Granted.of_alter {num : Int} {currency : Currency}
    (granted : Granted config (s.alter num currency) order t) : Granted config s order t where
  item h := by
    have hless := granted.item h
    rwa [@owned_congr _ _ s _ (s.alter num currency) (by rw [items_alter])] at hless
  car := granted.car
  bag h tid := by
    have hbag := granted.bag h tid
    rwa [avatarData_alter] at hbag
  items h := (granted.items h).trans (items_alter num currency)
  progress := granted.progress.trans (progress_alter num currency)

/-! ## Orders -/

/-- An order that cannot be paid changes nothing. -/
theorem buyOrder_of_not_affordable (hnot : ¬ Affordable s order) :
    (s.buyOrder config now order).1 = s := by
  unfold Model.buyOrder
  cases htype : currencyOfType order.type with
  | none => exact absurd (fun currency h => by rw [htype] at h; cases h) hnot
  | some currency =>
      cases hprice : order.good.price currency with
      | none => simp [hprice]
      | some price =>
          by_cases hless : s.balance currency < price
          · simp [hprice, hless]
          · refine absurd (fun other h => ?_) hnot
            obtain rfl : currency = other := Option.some.inj (htype.symm.trans h)
            exact ⟨price, hprice, not_lt.mp hless⟩

/-- An order that can be paid takes the price first. -/
theorem buyOrder_of_affordable {currency : Currency} {price : Int}
    (htype : currencyOfType order.type = some currency)
    (hprice : order.good.price currency = some price) (hle : price ≤ s.balance currency) :
    ∃ it, (s.buyOrder config now order).1 =
      ((s.alter (-price) currency).grantOrder config now order it).1 := by
  simp only [Model.buyOrder, htype, hprice, if_neg (not_lt.mpr hle),
    addItem_currency (isCurrency_tid currency)]
  exact ⟨_, rfl⟩

/-- The price is taken for an item that is not granted. -/
theorem atomic_items_iff {it : Option Bonus} {currency : Currency} {price : Int}
    (htype : currencyOfType order.type = some currency)
    (hprice : order.good.price currency = some price) (hitems : order.cata = "items") :
    (((s.alter (-price) currency).grantOrder config now order it).1 = s ∨
        Bought config s order ((s.alter (-price) currency).grantOrder config now order it).1) ↔
      Sellable config order := by
  have hpaid : ((s.alter (-price) currency).grantOrder config now order it).1 =
      s.alter (-price) currency := by
    simp [Model.grantOrder, hitems]
  rw [hpaid]
  constructor
  · rintro (hsame | ⟨-, granted⟩)
    · have hbalance := @balance_alter Int s (-price) currency currency
      rw [hsame, if_pos rfl] at hbalance
      have hzero : price = 0 := by omega
      refine ⟨fun _ other h => ?_, fun h => absurd hitems h, fun h => ?_⟩
      · obtain rfl : currency = other := Option.some.inj (htype.symm.trans h)
        rw [hprice, hzero]
      · rw [hitems] at h
        exact absurd h (by decide)
    · have hless := granted.item hitems
      rw [@owned_congr _ _ s _ (s.alter (-price) currency) (by rw [items_alter])] at hless
      exact absurd hless (lt_irrefl _)
  · intro sellable
    have hzero : price = 0 :=
      Option.some.inj (hprice.symm.trans (sellable.item hitems currency htype))
    left
    cases currency <;> simp [Model.alter, hzero]

/-- A part is bought, and so is a car that is known. -/
theorem atomic_goods_iff {it : Option Bonus} {currency : Currency} {price : Int}
    (hgood : ¬ s.hasGood order.id) (htype : currencyOfType order.type = some currency)
    (hprice : order.good.price currency = some price) (hle : price ≤ s.balance currency)
    (hitems : order.cata ≠ "items") :
    (((s.alter (-price) currency).grantOrder config now order it).1 = s ∨
        Bought config s order ((s.alter (-price) currency).grantOrder config now order it).1) ↔
      Sellable config order := by
  constructor
  · rintro (hsame | ⟨-, granted⟩)
    · have hforEver := @forEver_grantOrder config now (s.alter (-price) currency) order it hitems
      rw [hsame] at hforEver
      exact absurd (hasGood_of_forEver hforEver) hgood
    · refine ⟨fun h => absurd h hitems, fun _ => by rw [htype]; rfl, fun hcar => ?_⟩
      obtain ⟨hero, hhero, -⟩ := granted.car hcar
      rw [hhero]
      rfl
  · intro sellable
    refine .inr ⟨⟨currency, price, htype, hprice, hle, fun other => ?_⟩, ?_⟩
    · rw [balance_grantOrder, balance_alter]
      split <;> omega
    · exact (granted_grantOrder it hitems sellable.car).of_alter

/-- Without a currency nothing is taken. -/
theorem atomic_free_iff {it : Option Bonus} (hgood : ¬ s.hasGood order.id)
    (htype : currencyOfType order.type = none) :
    ((s.grantOrder config now order it).1 = s ∨
        Bought config s order (s.grantOrder config now order it).1) ↔ Sellable config order := by
  by_cases hitems : order.cata = "items"
  · have hsame : (s.grantOrder config now order it).1 = s := by simp [Model.grantOrder, hitems]
    refine ⟨fun _ => ⟨fun _ currency h => ?_, fun h => absurd hitems h, fun h => ?_⟩,
      fun _ => .inl hsame⟩
    · rw [htype] at h
      cases h
    · rw [hitems] at h
      exact absurd h (by decide)
  · constructor
    · rintro (hsame | ⟨⟨currency, price, h, -⟩, -⟩)
      · have hforEver := @forEver_grantOrder config now s order it hitems
        rw [hsame] at hforEver
        exact absurd (hasGood_of_forEver hforEver) hgood
      · rw [htype] at h
        cases h
    · intro sellable
      have hsome := sellable.type hitems
      rw [htype] at hsome
      cases hsome

theorem buyOrder_atomic_iff (hgood : ¬ s.hasGood order.id) :
    ((s.buyOrder config now order).1 = s ∨ Bought config s order (s.buyOrder config now order).1) ↔
      (Affordable s order → Sellable config order) := by
  by_cases haffordable : Affordable s order
  · simp only [haffordable, true_implies]
    cases htype : currencyOfType order.type with
    | none =>
        have heq : s.buyOrder config now order = s.grantOrder config now order none := by
          simp [Model.buyOrder, htype]
        rw [heq]
        exact atomic_free_iff hgood htype
    | some currency =>
        obtain ⟨price, hprice, hle⟩ := haffordable currency htype
        obtain ⟨it, heq⟩ := @buyOrder_of_affordable config now s order _ _ htype hprice hle
        rw [heq]
        by_cases hitems : order.cata = "items"
        · exact atomic_items_iff htype hprice hitems
        · exact atomic_goods_iff hgood htype hprice hle hitems
  · simp [buyOrder_of_not_affordable haffordable, haffordable]

/-- Either nothing changes, or the price is taken and the good granted, exactly when an
order that passes the checks and can be paid is for a currency and a part or a car that
is known, or is for an item and takes nothing. -/
theorem purchases_atomic_iff :
    Atomic config now s msg (shopBuyItem config now s msg).1 ↔
      ∀ order, checkOrder config now s msg = .ok order → Affordable s order →
        Sellable config order := by
  unfold Atomic shopBuyItem
  cases hcheck : checkOrder config now s msg with
  | error reason => simp
  | ok order =>
      have hiff := @buyOrder_atomic_iff config now s order (not_hasGood_of_checkOrder hcheck)
      constructor
      · rintro h other heq
        obtain rfl : order = other := Except.ok.inj heq
        refine hiff.mp ?_
        rcases h with hsame | ⟨other, hother, hbought⟩
        · exact .inl hsame
        · obtain rfl : order = other := Except.ok.inj hother
          exact .inr hbought
      · intro h
        rcases hiff.mpr (h order rfl) with hsame | hbought
        · exact .inl hsame
        · exact .inr ⟨order, rfl, hbought⟩

end

/-! ## A type between two currencies -/

def penniless : Model Int where
  credits := 0
  coins := 0
  fragments := 0
  progress := ⟨1, 0⟩
  items := ∅
  avatarData := ⟨some "car001", some 1, ∅, ∅⟩

def betweenTypes : BuyRequest := ⟨some "paint00404001", some (3 / 2), some "paint"⟩

theorem checkOrder_betweenTypes :
    checkOrder smallConfig 1550102400 penniless betweenTypes =
      .ok ⟨"paint00404001", 3 / 2, "paint", ⟨none, some 18, some 450, none⟩⟩ := by
  have hrange : ¬ ((3 : ℚ) < 3 / 2 ∨ (3 / 2 : ℚ) < 1) := by norm_num
  unfold checkOrder betweenTypes
  dsimp only
  rw [if_neg hrange]
  rfl

/-- The paint is granted for nothing. -/
theorem not_atomic_betweenTypes :
    ¬ Atomic smallConfig 1550102400 penniless betweenTypes
      (shopBuyItem smallConfig 1550102400 penniless betweenTypes).1 := by
  have htype : currencyOfType (3 / 2) = none := by norm_num [currencyOfType]
  have hafter : (shopBuyItem smallConfig 1550102400 penniless betweenTypes).1 =
      { penniless with
        avatarData := penniless.avatarData.purchaseItem 1550102400 "paint00404001" none } := by
    simp [shopBuyItem, checkOrder_betweenTypes, Model.buyOrder, htype, Model.grantOrder]
  rintro (hsame | ⟨order, hcheck, ⟨currency, price, hcurrency, -⟩, -⟩)
  · rw [hafter] at hsame
    have hbag := congrArg (fun s => s.avatarData.bag.lookup "paint00404001") hsame
    exact absurd hbag (by decide)
  · rw [checkOrder_betweenTypes] at hcheck
    cases hcheck
    rw [htype] at hcurrency
    cases hcurrency

end Player
end ArmyRs
