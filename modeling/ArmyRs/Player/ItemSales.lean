import ArmyRs.Foundation.Interruptions
import ArmyRs.Player.InstanceAlter

/-!
# Selling expired items

`SellExpiredItems` sells one entry of its message after the other.  What is sold is paid
for at its price, so that the worth of the items and the currency together never
changes (`worth_sold`).

`operate` takes as much as the count says and there is.  The handler passes the counts
of the client on, and with a negative one the player buys (`exactSales_iff`);
`SellItem` refuses such counts.
-/

namespace ArmyRs
namespace Player

open Foundation

/-- An entry of the message. -/
structure SellEntry where
  itemID : String
  count : Option Int
  deriving DecidableEq, Repr

/-- What `SellExpiredItems` answers. -/
structure SellAnswer where
  gain : List (Option Gain)
  items : AList fun _ : String => Int

/-- The body of the loop. -/
def sellEntry (config : GameConfig) (s : Model Int × SellAnswer) (entry : SellEntry) :
    (Model Int × SellAnswer) × Bool :=
  if entry.itemID ∈ s.1.items then
    match s.1.sellItems config entry.itemID entry.count with
    | (sold, none) => ((sold, s.2), false)
    | (sold, some profit) =>
        ((sold, ⟨s.2.gain ++ [profit], s.2.items.insert entry.itemID 0⟩), true)
  else (s, true)

/-- The loop of the handler. -/
def sellEntries (config : GameConfig) (s : Model Int) (its : List SellEntry) :
    (Model Int × SellAnswer) × Bool :=
  sweep (sellEntry config) (s, ⟨[], ∅⟩) its

/-- `SellExpiredItems.process`, without an answer when it raises. -/
def sellExpiredItems (config : GameConfig) (s : Model Int) (its : List SellEntry) :
    Model Int × Option SellAnswer :=
  let done := sellEntries config s its
  (done.1.1, if done.2 then some done.1.2 else none)

/-! ## Prices -/

section

variable {config : GameConfig} {s t : Model Int} {tid : String} {currency : Currency}

/-- The price at which an item is sold. -/
def GameConfig.sellPrice (config : GameConfig) (tid : String) : Int :=
  ((config.items.lookup tid).bind ItemType.sellPrice).getD 0

/-- The item is sold for this currency. -/
def GameConfig.SoldFor (config : GameConfig) (tid : String) (currency : Currency) : Prop :=
  ∃ profile, config.items.lookup tid = some profile ∧ profile.sellPrice.isSome ∧
    ∃ sellType, profile.sellType = some sellType ∧ config.IsCurrency sellType currency

theorem GameConfig.SoldFor.unique {other : Currency} (h : config.SoldFor tid currency)
    (h' : config.SoldFor tid other) : other = currency := by
  obtain ⟨profile, hprofile, -, sellType, htype, ⟨u, hu, -, hattr⟩⟩ := h
  obtain ⟨profile', hprofile', -, sellType', htype', ⟨u', hu', -, hattr'⟩⟩ := h'
  simp_all
  cases currency <;> cases other <;> simp_all [Currency.attr]

/-- The items of a player: each has a price in some currency. -/
def Stocked (config : GameConfig) (s : Model Int) : Prop :=
  ∀ tid item, s.items.lookup tid = some item →
    0 ≤ item.count ∧ ∃ currency, config.SoldFor tid currency

theorem Stocked.owned_nonneg (stocked : Stocked config s) (tid : String) : 0 ≤ s.owned tid := by
  cases hitem : s.items.lookup tid with
  | none => rw [owned_of_notMem (AList.lookup_eq_none.mp hitem)]
  | some item =>
      rw [owned_of_lookup hitem]
      exact (stocked tid item hitem).1

/-! ## One sale -/

/-- `t` is `s` after `num` of an item were sold. -/
structure Sold (config : GameConfig) (s : Model Int) (tid : String) (num : Int) (t : Model Int) :
    Prop where
  owned : t.owned tid = s.owned tid - num
  other : ∀ other ≠ tid, t.items.lookup other = s.items.lookup other
  paid : ∀ currency, config.SoldFor tid currency →
    t.balance currency = s.balance currency + num * config.sellPrice tid
  unpaid : ∀ currency, ¬ config.SoldFor tid currency → t.balance currency = s.balance currency
  progress : t.progress = s.progress
  avatarData : t.avatarData = s.avatarData

theorem sold_refl : Sold config s tid 0 s where
  owned := (sub_zero _).symm
  other _ _ := rfl
  paid _ _ := by rw [zero_mul, add_zero]
  unpaid _ _ := rfl
  progress := rfl
  avatarData := rfl

/-- What is left of an item is kept unless there is nothing left of it. -/
theorem lookup_left {items : AList fun _ : String => Item Int} {left : Item Int} (other : String) :
    (if left.count ≤ 0 then (items.insert tid left).erase tid else items.insert tid left).lookup
        other =
      if other = tid then (if left.count ≤ 0 then none else some left) else items.lookup other := by
  by_cases heq : other = tid
  · subst heq
    by_cases hleft : left.count ≤ 0 <;> simp [hleft]
  · by_cases hleft : left.count ≤ 0
    · simp [hleft, heq, AList.lookup_erase_ne heq, AList.lookup_insert_ne heq]
    · simp [hleft, heq, AList.lookup_insert_ne heq]

theorem sellItems_eq {item : Item Int} (hsold : config.SoldFor tid currency)
    (hitem : s.items.lookup tid = some item) (count : Int) :
    let left := (item.operate count).1
    let paid := s.alter (config.sellPrice tid * (item.operate count).2) currency
    ∃ profit, s.sellItems config tid (some count) =
      ({ paid with
        items := if left.count ≤ 0 then (s.items.insert tid left).erase tid
          else s.items.insert tid left }, some profit) := by
  obtain ⟨profile, hprofile, hprice, sellType, htype, hcurrency⟩ := hsold
  obtain ⟨price, hprice⟩ := Option.isSome_iff_exists.mp hprice
  have heq : config.sellPrice tid = price := by simp [GameConfig.sellPrice, hprofile, hprice]
  intro left paid
  refine ⟨some ⟨price * (item.operate count).2, profile.sellType⟩, ?_⟩
  simp only [Model.sellItems, hitem, hprofile, hprice, htype, addItem_currency hcurrency]
  cases currency <;> by_cases hleft : left.count ≤ 0 <;>
    simp [left, paid, hleft, heq, Model.alter, Model.keepItem]

/-- What selling does to a stock, for any number the client sends. -/
theorem sold_sellItems {item : Item Int} (stocked : Stocked config s)
    (hitem : s.items.lookup tid = some item) (count : Int) :
    ∃ t profit, s.sellItems config tid (some count) = (t, some profit) ∧
      Sold config s tid (min count (s.owned tid)) t ∧ Stocked config t := by
  obtain ⟨hcount, currency, hsold⟩ := stocked tid item hitem
  obtain ⟨profit, hsell⟩ := sellItems_eq hsold hitem count
  have hnum : (item.operate count).2 = min count (s.owned tid) := by
    rw [operate_snd, owned_of_lookup hitem]
  have hleft : (item.operate count).1.count = s.owned tid - min count (s.owned tid) := by
    rw [operate_fst_count, owned_of_lookup hitem]
  refine ⟨_, profit, hsell, ⟨?_, ?_, ?_, ?_, ?_, ?_⟩, ?_⟩
  · -- nothing is left exactly when the entry is gone
    simp only [Model.owned, lookup_left, if_true]
    rw [← Model.owned, ← hleft]
    have hnonneg : 0 ≤ (item.operate count).1.count := by
      rw [hleft, owned_of_lookup hitem]
      omega
    split
    · simp
      omega
    · simp
  · intro other hne
    simp only [lookup_left, if_neg hne]
  · -- the balance of the sell type
    intro other hother
    obtain rfl := hsold.unique hother
    change (s.alter _ other).balance other = _
    rw [balance_alter, if_pos rfl, hnum, mul_comm]
  · -- any other balance
    intro other hother
    have hne : other ≠ currency := by
      rintro rfl
      exact hother hsold
    change (s.alter _ currency).balance other = _
    rw [balance_alter, if_neg hne, add_zero]
  · exact progress_alter _ _
  · exact avatarData_alter _ _
  · -- what is left of the item is positive, or its entry is gone
    intro other left hother
    simp only [lookup_left] at hother
    split at hother
    · next heq =>
      subst heq
      split at hother
      · cases hother
      · next hpos =>
        cases hother
        exact ⟨by omega, currency, hsold⟩
    · exact stocked other left hother

/-- The player sold as much of the item as there was, or less. -/
def ExactSale (config : GameConfig) (s : Model Int) (tid : String) (t : Model Int) : Prop :=
  ∃ num, 0 ≤ num ∧ num ≤ s.owned tid ∧ Sold config s tid num t

/-! ## One entry -/

variable {res : SellAnswer} {entry : SellEntry}

/-- An entry is for an item that is there, with a count, or it does nothing. -/
theorem sold_sellEntry (stocked : Stocked config s) :
    (∃ count t, entry.itemID ∈ s.items ∧ entry.count = some count ∧
        (sellEntry config (s, res) entry).1.1 = t ∧
        Sold config s entry.itemID (min count (s.owned entry.itemID)) t ∧ Stocked config t) ∨
      (entry.itemID ∈ s.items → entry.count = none) ∧
        (sellEntry config (s, res) entry).1.1 = s := by
  unfold sellEntry
  by_cases hmem : entry.itemID ∈ s.items
  · obtain ⟨item, hitem⟩ := exists_lookup hmem
    cases hcount : entry.count with
    | none => exact .inr ⟨fun _ => rfl, by simp [hmem, Model.sellItems, hitem]⟩
    | some count =>
        obtain ⟨t, profit, hsell, hsold, hstocked⟩ := sold_sellItems stocked hitem count
        exact .inl ⟨count, t, hmem, rfl, by simp [hmem, hsell], hsold, hstocked⟩
  · exact .inr ⟨fun h => absurd h hmem, by simp [hmem]⟩

theorem stocked_sellEntry (stocked : Stocked config s) :
    Stocked config (sellEntry config (s, res) entry).1.1 := by
  rcases @sold_sellEntry _ _ res entry stocked with ⟨-, t, -, -, rfl, -, next⟩ | ⟨-, heq⟩
  · exact next
  · rw [heq]
    exact stocked

/-- A sale is exact unless the count is negative. -/
theorem exactSale_sellEntry_iff (stocked : Stocked config s) :
    ExactSale config s entry.itemID (sellEntry config (s, res) entry).1.1 ↔
      (entry.itemID ∈ s.items → ∀ count ∈ entry.count, 0 ≤ count) := by
  have howned := stocked.owned_nonneg entry.itemID
  rcases @sold_sellEntry _ _ res entry stocked with
    ⟨count, t, hmem, hcount, rfl, hsold, -⟩ | ⟨hnone, heq⟩
  · constructor
    · rintro ⟨num, hnonneg, -, hnum⟩ - other hother
      obtain rfl : count = other := by simpa [hcount] using hother
      have hsame := hnum.owned.symm.trans hsold.owned
      omega
    · intro honest
      have hnonneg : 0 ≤ count := honest hmem count hcount
      exact ⟨_, le_min hnonneg howned, min_le_right _ _, hsold⟩
  · rw [heq]
    refine ⟨fun _ hmem count hcount => ?_, fun _ => ⟨0, le_rfl, howned, sold_refl⟩⟩
    rw [hnone hmem] at hcount
    cases hcount

/-! ## The worth of everything -/

/-- The balance of a currency, and what the items bring that are sold for it. -/
def Model.worth (config : GameConfig) (currency : Currency) (ids : Finset String)
    (s : Model Int) : Int :=
  s.balance currency + ∑ tid ∈ ids, s.owned tid * config.sellPrice tid

/-- Among the items of the player, these are sold for the currency. -/
def Covers (config : GameConfig) (currency : Currency) (ids : Finset String) (s : Model Int) :
    Prop :=
  ∀ tid ∈ s.items, tid ∈ ids ↔ config.SoldFor tid currency

theorem Sold.worth_eq {num : Int} {ids : Finset String} (hsold : Sold config s tid num t)
    (hids : tid ∈ ids ↔ config.SoldFor tid currency) :
    t.worth config currency ids = s.worth config currency ids := by
  have hother : ∀ other ∈ ids.erase tid, t.owned other * config.sellPrice other =
      s.owned other * config.sellPrice other := fun other hmem => by
    rw [owned_congr (hsold.other other (Finset.ne_of_mem_erase hmem))]
  unfold Model.worth
  by_cases hmem : tid ∈ ids
  · rw [← Finset.add_sum_erase ids _ hmem, ← Finset.add_sum_erase ids _ hmem,
      Finset.sum_congr rfl hother, hsold.paid currency (hids.mp hmem), hsold.owned]
    ring
  · rw [← Finset.erase_eq_of_notMem hmem, Finset.sum_congr rfl hother,
      hsold.unpaid currency fun h => hmem (hids.mpr h)]

/-- A sale takes nothing of the worth away, whatever the count is. -/
theorem worth_sellEntry {ids : Finset String} (stocked : Stocked config s)
    (covers : Covers config currency ids s) :
    Covers config currency ids (sellEntry config (s, res) entry).1.1 ∧
      (sellEntry config (s, res) entry).1.1.worth config currency ids =
        s.worth config currency ids := by
  rcases @sold_sellEntry _ _ res entry stocked with
    ⟨count, t, hmem, -, rfl, hsold, -⟩ | ⟨-, heq⟩
  · refine ⟨fun tid htid => covers tid ?_, hsold.worth_eq (covers _ hmem)⟩
    by_cases heq : tid = entry.itemID
    · rw [heq]
      exact hmem
    · rw [← AList.lookup_isSome, hsold.other tid heq, AList.lookup_isSome] at htid
      exact htid
  · rw [heq]
    exact ⟨covers, rfl⟩

/-! ## The loop -/

theorem stocked_sellEntries (stocked : Stocked config s) (its : List SellEntry) :
    Stocked config (sellEntries config s its).1.1 :=
  sweep_keeps (P := fun state : Model Int × SellAnswer => Stocked config state.1)
    (fun _ _ stocked => stocked_sellEntry stocked) stocked its

/-- Also when the handler raises, the items and the currency together are worth what they
were. -/
theorem worth_sellEntries {ids : Finset String} (stocked : Stocked config s)
    (covers : Covers config currency ids s) (its : List SellEntry) :
    (sellEntries config s its).1.1.worth config currency ids = s.worth config currency ids := by
  refine (sweep_keeps (P := fun state : Model Int × SellAnswer => Stocked config state.1 ∧
    Covers config currency ids state.1 ∧
      state.1.worth config currency ids = s.worth config currency ids) ?_
    ⟨stocked, covers, rfl⟩ its).2.2
  rintro state entry ⟨stocked, covers, hworth⟩
  obtain ⟨hcovers, heq⟩ := @worth_sellEntry _ _ _ state.2 entry _ stocked covers
  exact ⟨stocked_sellEntry stocked, hcovers, heq.trans hworth⟩

/-- Every entry that is processed is an exact sale exactly when none that is processed
has a negative count for an item that is there; the worth of the items and the
currency together is the same in any case. -/
theorem exactSales_iff (stocked : Stocked config s) (its : List SellEntry) :
    ((∀ done entry rest, its = done ++ entry :: rest → (sellEntries config s done).2 = true →
        ExactSale config (sellEntries config s done).1.1 entry.itemID
          (sellEntries config s (done ++ [entry])).1.1) ↔
      ∀ done entry rest, its = done ++ entry :: rest → (sellEntries config s done).2 = true →
        entry.itemID ∈ (sellEntries config s done).1.1.items →
          ∀ count ∈ entry.count, 0 ≤ count) ∧
    ∀ currency ids, Covers config currency ids s →
      (sellExpiredItems config s its).1.worth config currency ids =
        s.worth config currency ids := by
  constructor
  · have hentry : ∀ done entry, (sellEntries config s done).2 = true →
        (ExactSale config (sellEntries config s done).1.1 entry.itemID
            (sellEntries config s (done ++ [entry])).1.1 ↔
          (entry.itemID ∈ (sellEntries config s done).1.1.items →
            ∀ count ∈ entry.count, 0 ≤ count)) := by
      intro done entry hok
      have hlast : sellEntries config s (done ++ [entry]) =
          sellEntry config (sellEntries config s done).1 entry := sweep_snoc entry hok
      rw [hlast]
      exact exactSale_sellEntry_iff (stocked_sellEntries stocked done)
    constructor
    · intro exact_ done entry rest heq hok
      exact (hentry done entry hok).mp (exact_ done entry rest heq hok)
    · intro honest done entry rest heq hok
      exact (hentry done entry hok).mpr (honest done entry rest heq hok)
  · intro currency ids covers
    exact worth_sellEntries stocked covers its

end

/-! ## A part for some time -/

/-- A player with three of an item. -/
def threeParts : Model Int where
  credits := 0
  coins := 1000
  fragments := 0
  progress := ⟨1, 0⟩
  items := AList.singleton "ite1000007" ⟨"ite1000007", 3, 1552003200⟩
  avatarData := ⟨none, none, ∅, ∅⟩

theorem stocked_threeParts : Stocked smallConfig threeParts := by
  intro tid item hitem
  obtain ⟨rfl, rfl⟩ : tid = "ite1000007" ∧ item = ⟨"ite1000007", 3, 1552003200⟩ := by
    have hentry := AList.mem_lookup_iff.mp hitem
    simpa [threeParts] using hentry
  exact ⟨by decide, .fragments, _, rfl, rfl, _, rfl, isCurrency_tid .fragments⟩

/-- With a negative count the player has more of the item afterwards, and a debt. -/
theorem not_exactSale_threeParts :
    ¬ ExactSale smallConfig threeParts "ite1000007"
      (sellExpiredItems smallConfig threeParts [⟨"ite1000007", some (-5)⟩]).1 := by
  rintro ⟨num, hnonneg, -, hsold⟩
  have hafter : (sellExpiredItems smallConfig threeParts
      [⟨"ite1000007", some (-5)⟩]).1.owned "ite1000007" = 8 := by decide
  have hbefore : threeParts.owned "ite1000007" = 3 := by decide
  have howned := hsold.owned
  omega

end Player
end ArmyRs
