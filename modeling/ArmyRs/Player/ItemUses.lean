import ArmyRs.Foundation.Interruptions
import ArmyRs.Player.InstanceAlter

/-!
# Using items

`use_items` redeems an item for time of a car or a part and takes it out of the stock
afterwards.  The loop of `redeem_item` counts up to the number that the client sends,
`operate` takes at most what there is, so that the two agree only when there is enough
(`usedExactly_iff`).
-/

namespace ArmyRs
namespace Player

/-! ## Redeeming -/

/-- `@bag[tid].add_end_time(day)`; it raises when there is no such item, or no days. -/
def AvatarData.extend (now : Nat) (s : AvatarData) (tid : String) (day : Option Duration) :
    AvatarData × Bool :=
  match (s.bag.lookup tid).bind fun item => item.addEndTime now day with
  | none => (s, false)
  | some item => ({ s with bag := s.bag.insert tid item }, true)

/-- `add_end_time` for each of them. -/
def AvatarData.extendEach (now : Nat) (day : Option Duration) (s : AvatarData)
    (tids : List String) : AvatarData × Bool :=
  Foundation.sweep (fun s tid => s.extend now tid day) s tids

/-- How a turn of the loop in `redeem_item` ends. -/
inductive Turn
  | granted (equipped : Option EquippedData)
  | refused
  | raised

/-- The parts that are extended with the car. -/
def Hero.extendedParts (hero : Hero) : List String :=
  hero.bodyId :: hero.wheelId :: hero.tailId.toList

/-- The body of the loop in `redeem_item`. -/
def AvatarData.redeemOnce (heroes : Heroes) (now : Nat) (s : AvatarData) (tid : String)
    (day : Option Duration) : AvatarData × Turn :=
  match s.bag.lookup tid with
  | some item =>
      -- an end before 0 means for ever
      if 0 ≤ item.endTime then
        let extended := s.extend now tid day
        if extended.2 = false then (extended.1, .raised)
        else if lineBegins "car" tid then
          match checkDefaultAvatar heroes tid with
          | none => (extended.1, .raised)
          | some hero =>
              let parts := extended.1.extendEach now day hero.extendedParts
              (parts.1, if parts.2 then .granted none else .raised)
        else (extended.1, .granted none)
      else (s, .refused)
  | none =>
      -- a new part is looked up again in the next turn
      if lineBegins "car" tid then
        let purchased := s.purchaseCar heroes now tid day
        (purchased.1, if purchased.2.isSome then .granted (purchased.1.equippedData.lookup tid)
          else .raised)
      else (s.purchaseItem now tid day, .granted none)

/-- What `redeem_item` answers. -/
inductive Redeemed
  | refused
  | granted (item : Option AvatarItem) (equipped : Option EquippedData)

/-- `redeem_item` for a number of turns, without an answer when it raises. -/
def AvatarData.redeemItem (heroes : Heroes) (now : Nat) (tid : String) (day : Option Duration) :
    Nat → AvatarData → Option EquippedData → AvatarData × Option Redeemed
  | 0, s, ed => (s, some (.granted (s.bag.lookup tid) ed))
  | turns + 1, s, ed =>
      match s.redeemOnce heroes now tid day with
      | (t, .granted equipped) => t.redeemItem heroes now tid day turns (equipped.or ed)
      | (t, .refused) => (t, some .refused)
      | (t, .raised) => (t, none)

/-- What `use_items` answers. -/
structure Gift (N : Type*) where
  count : N
  tid : String
  detail : Option AvatarItem
  equippedData : Option EquippedData

variable {N : Type*} [Ring N] [LinearOrder N]

/-- `use_items`: `some none` when nothing is granted, and no answer when it raises.  The loop
runs as often as `i <= count` for `i` from one on. -/
def Model.useItems [FloorRing N] (config : GameConfig) (now : Nat) (s : Model N) (tid : String)
    (count : N) :
    Model N × Option (Option (Gift N)) :=
  match config.items.lookup tid with
  | none => (s, none)
  | some profile =>
    match profile.addAttr, s.items.lookup tid with
    | none, _ => (s, some none)
    | some _, none => (s, some none)
    | some attr, some item =>
      match s.avatarData.redeemItem config.heroes now attr profile.useableDur ⌊count⌋.toNat none
        with
      | (avatarData, none) => ({ s with avatarData := avatarData }, none)
      | (avatarData, some .refused) => ({ s with avatarData := avatarData }, some none)
      | (avatarData, some (.granted detail equipped)) =>
          -- the stock is taken only now, and cut to what there is
          let (left, num) := item.operate count
          ({ s with avatarData := avatarData }.keepItem tid left,
            some (some ⟨num, tid, detail, equipped⟩))

/-- What `UseItem` answers. -/
inductive UseAnswer (N : Type*)
  | ng (reason : String)
  | success (gift : Option (Gift N)) (left : Option (Item N))

/-- `UseItem.process`, without an answer when it raises. -/
def useItem [FloorRing N] (config : GameConfig) (now : Nat) (s : Model N)
    (id : Option String) (count : Option N) : Model N × Option (UseAnswer N) :=
  match id, count with
  | none, _ => (s, some (.ng "error_id"))
  | some _, none => (s, some (.ng "error_count"))
  | some id, some count =>
    if count ≤ 0 then (s, some (.ng "error_count"))
    else
      match s.items.lookup id with
      | none => (s, some (.ng "error_item"))
      | some item =>
        if item.Expired now then (s, some (.ng "expired_item"))
        else
          match config.items.lookup id with
          | none => (s, none)
          | some profile =>
            if ∃ attr ∈ profile.addAttr, ∃ avatar ∈ s.avatarData.bag.lookup attr,
                avatar.count = 1 then (s, some (.ng "have_yet"))
            else
              match s.useItems config now id count with
              | (t, none) => (t, none)
              | (t, some gift) => (t, some (.success gift (t.items.lookup id)))

/-- A request that `UseItem` refuses changes nothing; one that it lets through is for a
positive count of an item that is there and has not expired. -/
theorem useItem_cases [FloorRing N] {config : GameConfig} {now : Nat} {s : Model N}
    {id : Option String} {count : Option N} :
    (useItem config now s id count).1 = s ∨
      ∃ tid num item, id = some tid ∧ count = some num ∧ 0 < num ∧
        s.items.lookup tid = some item ∧ ¬ item.Expired now ∧
        (useItem config now s id count).1 = (s.useItems config now tid num).1 := by
  unfold useItem
  cases id with
  | none => exact .inl rfl
  | some tid =>
    cases count with
    | none => exact .inl rfl
    | some num =>
      by_cases hnum : num ≤ 0
      · exact .inl (by simp [hnum])
      cases hitem : s.items.lookup tid with
      | none => exact .inl (by simp [hnum, hitem])
      | some item =>
        by_cases hexpired : item.Expired now
        · exact .inl (by simp [hnum, hitem, hexpired])
        cases hprofile : config.items.lookup tid with
        | none => exact .inl (by simp [hnum, hitem, hexpired, hprofile])
        | some profile =>
          by_cases hyet : ∃ attr ∈ profile.addAttr, ∃ avatar ∈ s.avatarData.bag.lookup attr,
              avatar.count = 1
          · exact .inl (by simp only [hnum, hitem, hexpired, hprofile, hyet, if_false, if_true])
          · -- all checks are passed; the answer does not change the model
            refine .inr ⟨tid, num, item, rfl, rfl, not_le.mp hnum, hitem, hexpired, ?_⟩
            simp only [hnum, hitem, hexpired, hprofile, hyet, if_false]
            split
            · next heq => rw [heq]
            · next heq => rw [heq]

/-! ## Time of a part -/

section

variable {heroes : Heroes} {now : Nat} {s : AvatarData} {tid : String} {day : Duration}

/-- From when on days are added to a part: from now when it is new or has expired. -/
def startTime (now : Nat) : Option AvatarItem → Int
  | none => now
  | some item => if item.Expired now then now else item.endTime

theorem now_le_startTime (htimed : ¬ s.ForEver tid) : now ≤ startTime now (s.bag.lookup tid) := by
  cases hitem : s.bag.lookup tid with
  | none => exact le_rfl
  | some item =>
      have hend : ¬ item.endTime < 0 := fun h => htimed ⟨item, hitem, h⟩
      rw [startTime]
      split
      · exact le_rfl
      · next hexpired =>
        unfold AvatarItem.Expired at hexpired
        rcases item.forEver_or_timed with h | h <;> omega

theorem endTime_le_startTime {item : AvatarItem} (hitem : s.bag.lookup tid = some item) :
    item.endTime ≤ startTime now (s.bag.lookup tid) := by
  rw [hitem, startTime]
  split
  · next hexpired => exact hexpired.2.1.le
  · exact le_rfl

theorem addEndTime_of_timed {item : AvatarItem} (hend : 0 ≤ item.endTime) :
    ∃ after, item.addEndTime now (some day) = some after ∧
      after.endTime = startTime now (some item) + (day : ℕ) := by
  unfold AvatarItem.addEndTime startTime
  by_cases hexpired : item.Expired now
  · exact ⟨item.endsAfter now day, by simp [hend, hexpired], by simp [hexpired]; rfl⟩
  · refine ⟨item.endsAfter item.endTime.toNat day, by simp [hend, hexpired], ?_⟩
    simp [hexpired, AvatarItem.endsAfter, hend]

/-- A part that is in the bag is extended, and no other item changes. -/
theorem extend_of_mem (hmem : tid ∈ s.bag) :
    ∃ after, s.extend now tid (some day) = ({ s with bag := s.bag.insert tid after }, true) ∧
      ∀ item ∈ s.bag.lookup tid, 0 ≤ item.endTime →
        after.endTime = startTime now (some item) + (day : ℕ) := by
  obtain ⟨item, hitem⟩ := Foundation.exists_lookup hmem
  unfold AvatarData.extend
  by_cases hend : 0 ≤ item.endTime
  · obtain ⟨after, hadd, hafter⟩ := @addEndTime_of_timed now day item hend
    refine ⟨after, by simp [hitem, hadd], fun other hother _ => ?_⟩
    rw [hitem] at hother
    cases hother
    exact hafter
  · refine ⟨item, by simp [hitem, AvatarItem.addEndTime, hend], fun other hother hend' => ?_⟩
    rw [hitem] at hother
    cases hother
    exact absurd hend' hend

theorem extend_of_notMem (hnot : tid ∉ s.bag) :
    s.extend now tid (some day) = (s, false) := by
  simp [AvatarData.extend, AList.lookup_eq_none.mpr hnot]

/-- What extending other parts keeps. -/
theorem lookup_extend_ne {other : String} (hne : tid ≠ other) :
    (s.extend now other (some day)).1.bag.lookup tid = s.bag.lookup tid := by
  by_cases hmem : other ∈ s.bag
  · obtain ⟨after, heq, -⟩ := @extend_of_mem now s other day hmem
    rw [heq, AList.lookup_insert_ne hne]
  · rw [extend_of_notMem hmem]

theorem mem_extend (other x : String) :
    x ∈ (s.extend now other (some day)).1.bag ↔ x ∈ s.bag := by
  by_cases hmem : other ∈ s.bag
  · obtain ⟨after, heq, -⟩ := @extend_of_mem now s other day hmem
    rw [heq]
    exact Foundation.mem_insert_of_mem hmem _ _
  · rw [extend_of_notMem hmem]

/-- Extending other parts one after the other goes through when all of them are there. -/
theorem extendEach_spec {parts : List String} (hnot : tid ∉ parts) :
    (s.extendEach now (some day) parts).1.bag.lookup tid = s.bag.lookup tid ∧
      (∀ x, x ∈ (s.extendEach now (some day) parts).1.bag ↔ x ∈ s.bag) ∧
      ((s.extendEach now (some day) parts).2 = true ↔ ∀ part ∈ parts, part ∈ s.bag) := by
  unfold AvatarData.extendEach
  induction parts generalizing s with
  | nil => simp
  | cons part rest ih =>
      rw [List.mem_cons, not_or] at hnot
      by_cases hmem : part ∈ s.bag
      · obtain ⟨after, heq, -⟩ := @extend_of_mem now s part day hmem
        have hok : (s.extend now part (some day)).2 = true := by rw [heq]
        rw [Foundation.sweep_cons_of_ok hok]
        obtain ⟨hlookup, hbag, hthrough⟩ := @ih (s.extend now part (some day)).1 hnot.2
        refine ⟨hlookup.trans (lookup_extend_ne hnot.1), fun x => (hbag x).trans (mem_extend _ x),
          ?_⟩
        rw [hthrough, List.forall_mem_cons]
        simp only [mem_extend, hmem, true_and]
      · have hraise : (s.extend now part (some day)).2 = false := by rw [extend_of_notMem hmem]
        rw [Foundation.sweep_cons_of_raise hraise]
        refine ⟨lookup_extend_ne hnot.1, mem_extend part, ?_⟩
        simp [hmem]

/-! ## Turns of the loop -/

/-- A car is known, and its parts are there when the car is. -/
def AvatarData.CarReady (heroes : Heroes) (s : AvatarData) (tid : String) : Prop :=
  lineBegins "car" tid = true → ∃ hero, checkDefaultAvatar heroes tid = some hero ∧
    (tid ∈ s.bag → ∀ part ∈ hero.extendedParts, part ∈ s.bag)

/-- The default parts of a car are no cars. -/
def PartsNotCar (heroes : Heroes) : Prop :=
  ∀ car hero, heroes.lookup car = some hero → ∀ part ∈ hero.parts, lineBegins "car" part = false

/-- The parts that are extended with a car are default parts of it. -/
theorem mem_parts_of_mem {hero : Hero} {part : String}
    (hpart : part ∈ hero.extendedParts) : part ∈ hero.parts := by
  unfold Hero.parts
  simp only [Hero.extendedParts, List.mem_append, List.mem_cons, List.not_mem_nil, or_false]
    at hpart ⊢
  tauto

theorem redeemOnce_of_forEver (hforEver : s.ForEver tid) :
    s.redeemOnce heroes now tid (some day) = (s, .refused) := by
  obtain ⟨item, hitem, hend⟩ := hforEver
  have hnot : ¬ 0 ≤ item.endTime := not_le.mpr hend
  simp [AvatarData.redeemOnce, Option.mem_def.mp hitem, hnot]

/-- A turn adds the days to the part.  It is granted when a car is ready, and raises
otherwise. -/
structure Turned (heroes : Heroes) (now : Nat) (s : AvatarData) (tid : String) (day : Duration)
    (t : AvatarData) (turn : Turn) : Prop where
  extended : ∃ after, t.bag.lookup tid = some after ∧
    after.endTime = startTime now (s.bag.lookup tid) + (day : ℕ)
  ending : (∃ equipped, turn = .granted equipped) ∧ s.CarReady heroes tid ∧ t.CarReady heroes tid ∨
    turn = .raised ∧ ¬ s.CarReady heroes tid

theorem carReady_of_not_car (hcar : lineBegins "car" tid = false) : s.CarReady heroes tid := by
  intro h
  rw [hcar] at h
  cases h

theorem not_carReady_of_unknown (hcar : lineBegins "car" tid = true)
    (hhero : checkDefaultAvatar heroes tid = none) : ¬ s.CarReady heroes tid := by
  intro hready
  obtain ⟨hero, hsome, -⟩ := hready hcar
  rw [hhero] at hsome
  cases hsome

/-- A car is ready when its parts are there, or when there is no such car. -/
theorem carReady_iff {hero : Hero} (hcar : lineBegins "car" tid = true)
    (hhero : checkDefaultAvatar heroes tid = some hero) :
    s.CarReady heroes tid ↔
      (tid ∈ s.bag → ∀ part ∈ hero.extendedParts, part ∈ s.bag) := by
  constructor
  · intro hready
    obtain ⟨other, hsome, hparts⟩ := hready hcar
    rw [hhero, Option.some.injEq] at hsome
    rwa [hsome]
  · exact fun hparts _ => ⟨hero, hhero, hparts⟩

/-- A turn for a part that is there until some time. -/
theorem turned_of_mem (hparts : PartsNotCar heroes) {item : AvatarItem}
    (hitem : s.bag.lookup tid = some item) (hend : 0 ≤ item.endTime) :
    ∃ t turn, s.redeemOnce heroes now tid (some day) = (t, turn) ∧
      Turned heroes now s tid day t turn := by
  have hmem : tid ∈ s.bag := Foundation.mem_of_lookup hitem
  obtain ⟨after, hextend, hafter⟩ := @extend_of_mem now s tid day hmem
  have htime : after.endTime = startTime now (s.bag.lookup tid) + (day : ℕ) := by
    rw [hitem]
    exact hafter item hitem hend
  unfold AvatarData.redeemOnce
  simp only [hitem, hend, if_true, hextend]
  cases hcar : lineBegins "car" tid with
  | false =>
      exact ⟨_, _, rfl, ⟨after, AList.lookup_insert _, htime⟩,
        .inl ⟨⟨none, rfl⟩, carReady_of_not_car hcar, carReady_of_not_car hcar⟩⟩
  | true =>
      cases hhero : checkDefaultAvatar heroes tid with
      | none =>
          exact ⟨_, _, rfl, ⟨after, AList.lookup_insert _, htime⟩,
            .inr ⟨rfl, not_carReady_of_unknown hcar hhero⟩⟩
      | some hero =>
          -- no part of a car is a car, so its own entry stays
          have hnot : tid ∉ hero.extendedParts := by
            intro hpart
            rw [hparts tid hero hhero tid (mem_parts_of_mem hpart)] at hcar
            cases hcar
          obtain ⟨hlookup, hbag, hthrough⟩ :=
            @extendEach_spec now { s with bag := s.bag.insert tid after } tid day _ hnot
          simp only [Foundation.mem_insert_of_mem hmem] at hbag hthrough
          have htid := hlookup.trans (AList.lookup_insert _)
          refine ⟨_, _, rfl, ⟨after, htid, htime⟩, ?_⟩
          by_cases hthere : ∀ part ∈ hero.extendedParts, part ∈ s.bag
          · refine .inl ⟨⟨none, if_pos (hthrough.mpr hthere)⟩, ?_, ?_⟩
            · exact (carReady_iff hcar hhero).mpr fun _ => hthere
            · exact (carReady_iff hcar hhero).mpr fun _ part hpart =>
                (hbag part).mpr (hthere part hpart)
          · -- a part is missing, where `extend` raises
            refine .inr ⟨if_neg fun hok => hthere (hthrough.mp hok), fun hready => ?_⟩
            exact hthere ((carReady_iff hcar hhero).mp hready hmem)

/-- A turn for a new part. -/
theorem turned_of_notMem (hnone : s.bag.lookup tid = none) :
    ∃ t turn, s.redeemOnce heroes now tid (some day) = (t, turn) ∧
      Turned heroes now s tid day t turn := by
  have hnot : tid ∉ s.bag := AList.lookup_eq_none.mp hnone
  have htime : (AvatarItem.purchased now tid (some day) none).endTime =
      startTime now (s.bag.lookup tid) + (day : ℕ) := by
    rw [hnone]
    rfl
  unfold AvatarData.redeemOnce
  simp only [hnone]
  cases hcar : lineBegins "car" tid with
  | false =>
      refine ⟨_, _, rfl, ⟨_, ?_, htime⟩,
        .inl ⟨⟨none, rfl⟩, carReady_of_not_car hcar, carReady_of_not_car hcar⟩⟩
      simp [lookup_purchaseItem, hnone]
  | true =>
      cases hhero : checkDefaultAvatar heroes tid with
      | none =>
          obtain ⟨hraise, hlookup⟩ := @purchaseCar_of_unknown now s tid (some day) heroes hhero
          refine ⟨_, _, rfl, ⟨_, ?_, htime⟩, .inr ⟨?_, not_carReady_of_unknown hcar hhero⟩⟩
          · simp [hlookup, lookup_purchaseItem, hnone]
          · simp [hraise]
      | some hero =>
          have hlookup := @lookup_purchaseCar now s tid (some day) heroes hero hhero
          have hthrough : (s.purchaseCar heroes now tid (some day)).2.isSome := by
            simp [AvatarData.purchaseCar, hhero]
          refine ⟨_, _, rfl, ⟨_, ?_, htime⟩, .inl ⟨⟨_, if_pos hthrough⟩,
            (carReady_iff hcar hhero).mpr fun h => absurd h hnot, ?_⟩⟩
          · simp [hlookup, hnone]
          · refine (carReady_iff hcar hhero).mpr fun _ part hpart => ?_
            rw [← AList.lookup_isSome, hlookup,
              if_pos (List.mem_cons_of_mem _ (mem_parts_of_mem hpart))]
            rfl

theorem turned (hparts : PartsNotCar heroes) (htimed : ¬ s.ForEver tid) :
    ∃ t turn, s.redeemOnce heroes now tid (some day) = (t, turn) ∧
      Turned heroes now s tid day t turn := by
  cases hitem : s.bag.lookup tid with
  | none => exact turned_of_notMem hitem
  | some item => exact turned_of_mem hparts hitem (not_lt.mp fun h => htimed ⟨item, hitem, h⟩)

/-- After a turn the part has neither expired nor is it kept for ever. -/
theorem Turned.startTime_eq {t : AvatarData} {turn : Turn} (htimed : ¬ s.ForEver tid)
    (turned : Turned heroes now s tid day t turn) :
    ¬ t.ForEver tid ∧
      startTime now (t.bag.lookup tid) = startTime now (s.bag.lookup tid) + (day : ℕ) := by
  obtain ⟨after, hafter, htime⟩ := turned.extended
  have hnow := @now_le_startTime now s tid htimed
  constructor
  · rintro ⟨item, hitem, hend⟩
    rw [hafter, Option.mem_def, Option.some.injEq] at hitem
    subst hitem
    omega
  · have hexpired : ¬ after.Expired now := fun h => by
      have := h.2.1
      omega
    rw [hafter, ← htime]
    simp [startTime, hexpired]

/-- As many turns as wanted, for a part whose car is ready. -/
theorem redeemItem_of_ready (hparts : PartsNotCar heroes) (htimed : ¬ s.ForEver tid)
    (hready : s.CarReady heroes tid) (turns : Nat) (ed : Option EquippedData) :
    ∃ t detail equipped, s.redeemItem heroes now tid (some day) turns ed =
        (t, some (.granted detail equipped)) ∧ (turns = 0 → t = s) ∧
      (0 < turns → ∃ after, t.bag.lookup tid = some after ∧
        after.endTime = startTime now (s.bag.lookup tid) + turns * (day : ℕ)) := by
  induction turns generalizing s ed with
  | zero => exact ⟨s, _, ed, rfl, fun _ => rfl, fun h => absurd h (Nat.lt_irrefl 0)⟩
  | succ turns ih =>
      obtain ⟨u, turn, hturn, hturned⟩ := @turned heroes now s tid day hparts htimed
      rcases hturned.ending with ⟨⟨equipped, rfl⟩, -, hready'⟩ | ⟨-, hnot⟩
      · obtain ⟨htimed', hstart⟩ := hturned.startTime_eq htimed
        obtain ⟨t, detail, equipped', hredeem, hzero, hpos⟩ := ih htimed' hready' (equipped.or ed)
        refine ⟨t, detail, equipped', ?_, fun h => absurd h (Nat.succ_ne_zero _), fun _ => ?_⟩
        · rw [AvatarData.redeemItem, hturn]
          exact hredeem
        · rcases Nat.eq_zero_or_pos turns with rfl | hturns
          · obtain rfl := hzero rfl
            simpa using hturned.extended
          · obtain ⟨after, hafter, htime⟩ := hpos hturns
            refine ⟨after, hafter, ?_⟩
            rw [htime, hstart]
            push_cast
            ring
      · exact absurd hready hnot

/-- The first turn raises when the car is not ready. -/
theorem redeemItem_of_not_ready (hparts : PartsNotCar heroes) (htimed : ¬ s.ForEver tid)
    (hready : ¬ s.CarReady heroes tid) (turns : Nat) (ed : Option EquippedData) :
    ∃ t after, s.redeemItem heroes now tid (some day) (turns + 1) ed = (t, none) ∧
      t.bag.lookup tid = some after ∧
      after.endTime = startTime now (s.bag.lookup tid) + (day : ℕ) := by
  obtain ⟨t, turn, hturn, hturned⟩ := @turned heroes now s tid day hparts htimed
  rcases hturned.ending with ⟨-, hready', -⟩ | ⟨rfl, -⟩
  · exact absurd hready' hready
  · obtain ⟨after, hafter, htime⟩ := hturned.extended
    exact ⟨t, after, by rw [AvatarData.redeemItem, hturn], hafter, htime⟩

theorem redeemItem_of_forEver (hforEver : s.ForEver tid) (turns : Nat) (ed : Option EquippedData) :
    s.redeemItem heroes now tid (some day) (turns + 1) ed = (s, some .refused) := by
  rw [AvatarData.redeemItem, redeemOnce_of_forEver hforEver]

end

/-! ## Using exactly what is consumed -/

section

variable {config : GameConfig} {now : Nat} {s t : Model N} {tid attr : String}
  {item : Item N} {profile : ItemType} {day : Duration} {count num : N}

/-- `num` of the item were consumed, and the part was extended as many times. -/
structure Consumed (now : Nat) (s : Model N) (tid attr : String) (day : Duration) (num : N)
    (t : Model N) : Prop where
  owned : t.owned tid = s.owned tid - num
  other : ∀ other ≠ tid, t.items.lookup other = s.items.lookup other
  extended : ∃ after, t.avatarData.bag.lookup attr = some after ∧
    (after.endTime : N) = startTime now (s.avatarData.bag.lookup attr) + num * (day : ℕ)

/-- Nothing was granted and nothing consumed. -/
def Untouched (s t : Model N) : Prop :=
  t.avatarData = s.avatarData ∧ ∀ tid, t.items.lookup tid = s.items.lookup tid

/-- What using an item should do. -/
def UsedExactly (now : Nat) (s : Model N) (tid : String) (profile : ItemType) (day : Duration)
    (count : N) (t : Model N) : Prop :=
  (∃ attr ∈ profile.addAttr, Consumed now s tid attr day (min count (s.owned tid)) t) ∨
    Untouched s t

/-- There is enough of the item, and the car is ready; a part that is kept for ever refuses. -/
def Usable [FloorRing N] (config : GameConfig) (s : Model N) (tid attr : String) (count : N) :
    Prop :=
  (s.avatarData.ForEver attr → 1 ≤ count ∨ min count (s.owned tid) = 0) ∧
    (¬ s.avatarData.ForEver attr → (⌊count⌋ : N) = min count (s.owned tid) ∧
      (1 ≤ count → s.avatarData.CarReady config.heroes attr))

/-- The model after the item was redeemed and taken out of the stock. -/
def Model.used (s : Model N) (tid : String) (item : Item N) (count : N) (avatarData : AvatarData) :
    Model N :=
  { s with avatarData := avatarData }.keepItem tid (item.operate count).1

theorem owned_used (hitem : s.items.lookup tid = some item) (avatarData : AvatarData) :
    (s.used tid item count avatarData).owned tid = s.owned tid - min count (s.owned tid) := by
  rw [owned_of_lookup hitem, ← operate_fst_count]
  exact owned_of_lookup (AList.lookup_insert _)

theorem lookup_used_ne {other : String} (hne : other ≠ tid) (avatarData : AvatarData) :
    (s.used tid item count avatarData).items.lookup other = s.items.lookup other :=
  AList.lookup_insert_ne hne

/-- When nothing is consumed the item is as it was. -/
theorem lookup_used_of_eq_zero (hitem : s.items.lookup tid = some item) (hcount : 0 < count)
    (hnum : min count (s.owned tid) = 0) (avatarData : AvatarData) (other : String) :
    (s.used tid item count avatarData).items.lookup other = s.items.lookup other := by
  by_cases hne : other = tid
  · subst hne
    rw [owned_of_lookup hitem] at hnum
    have hle : item.count ≤ 0 := by
      rcases min_choice count item.count with h | h
      · exact absurd (h.symm.trans hnum) hcount.ne'
      · exact (h.symm.trans hnum).le
    have hzero : item.count = 0 := by
      rw [← hnum, min_eq_right (hle.trans hcount.le)]
    have hleft : (item.operate count).1 = item := by
      unfold Item.operate
      rw [if_neg (not_lt.mpr (hle.trans hcount.le)), ← hzero]
    rw [hitem]
    refine (AList.lookup_insert _).trans ?_
    rw [hleft]
  · exact lookup_used_ne hne avatarData

/-! ### What the loop grants -/

theorem useItems_of_granted [FloorRing N] {avatarData : AvatarData} {detail equipped}
    (hitem : s.items.lookup tid = some item) (hprofile : config.items.lookup tid = some profile)
    (hattr : profile.addAttr = some attr)
    (hredeem : s.avatarData.redeemItem config.heroes now attr profile.useableDur ⌊count⌋.toNat
      none = (avatarData, some (.granted detail equipped))) :
    (s.useItems config now tid count).1 = s.used tid item count avatarData := by
  simp [Model.useItems, hitem, hprofile, hattr, hredeem, Model.used]

variable [IsStrictOrderedRing N]

/-- A count below one consumes what it says, and grants nothing. -/
theorem usedExactly_of_lt_one (hattr : profile.addAttr = some attr)
    (hitem : s.items.lookup tid = some item) (hstock : 0 ≤ item.count) (hcount : 0 < count) :
    UsedExactly now s tid profile day count (s.used tid item count s.avatarData) ↔
      min count (s.owned tid) = 0 := by
  have hnonneg : 0 ≤ min count (s.owned tid) := by
    rw [owned_of_lookup hitem]
    exact le_min hcount.le hstock
  have hday : (0 : N) < (day : ℕ) := Nat.cast_pos.mpr day.pos
  constructor
  · rintro (⟨other, hother, consumed⟩ | ⟨-, hsame⟩)
    · obtain rfl : attr = other := by rw [hattr] at hother; exact Option.some.inj hother
      obtain ⟨after, hafter, htime⟩ := consumed.extended
      -- the part is not extended, so that there is nothing to extend it by
      have hle : (after.endTime : N) ≤ startTime now (s.avatarData.bag.lookup attr) :=
        Int.cast_le.mpr (endTime_le_startTime hafter)
      rw [htime, add_le_iff_nonpos_right] at hle
      have hnum : min count (s.owned tid) ≤ 0 := nonpos_of_mul_nonpos_left hle hday
      exact le_antisymm hnum hnonneg
    · have howned : _ = s.owned tid - min count (s.owned tid) := owned_used hitem s.avatarData
      rw [owned_congr (hsame tid)] at howned
      exact sub_eq_self.mp howned.symm
  · intro hnum
    exact .inr ⟨rfl, lookup_used_of_eq_zero hitem hcount hnum s.avatarData⟩

/-- After some turns as much was consumed as was granted when there was enough. -/
theorem usedExactly_of_turns {avatarData : AvatarData} {turns : Nat}
    (hattr : profile.addAttr = some attr) (hitem : s.items.lookup tid = some item)
    (hturns : 0 < turns)
    (hextended : ∃ after, avatarData.bag.lookup attr = some after ∧
      after.endTime = startTime now (s.avatarData.bag.lookup attr) + turns * (day : ℕ)) :
    UsedExactly now s tid profile day count (s.used tid item count avatarData) ↔
      (turns : N) = min count (s.owned tid) := by
  obtain ⟨after, hafter, htime⟩ := hextended
  have hday : (0 : N) < (day : ℕ) := Nat.cast_pos.mpr day.pos
  have hcast : (after.endTime : N) =
      startTime now (s.avatarData.bag.lookup attr) + turns * (day : ℕ) := by
    rw [htime]
    push_cast
    rfl
  constructor
  · rintro (⟨other, hother, consumed⟩ | ⟨hsame, -⟩)
    · obtain rfl : attr = other := by rw [hattr] at hother; exact Option.some.inj hother
      -- two times of the same part: the turns are as many as were consumed
      obtain ⟨after', hafter', htime'⟩ := consumed.extended
      obtain rfl : after = after' := Option.some.inj (hafter.symm.trans hafter')
      rw [hcast, add_right_inj] at htime'
      exact mul_right_cancel₀ hday.ne' htime'
    · -- the part would have to end when it ended before
      have hafter' : s.avatarData.bag.lookup attr = some after := by
        rw [← hafter, ← hsame]
        rfl
      have hle := @endTime_le_startTime now _ _ _ hafter'
      have hpos : (0 : Int) < turns * (day : ℕ) :=
        Int.mul_pos (Int.natCast_pos.mpr hturns) (Int.natCast_pos.mpr day.pos)
      omega
  · intro hnum
    refine .inl ⟨attr, hattr, owned_used hitem avatarData, fun other hne => ?_, after, hafter, ?_⟩
    · exact lookup_used_ne hne avatarData
    · rw [hcast, hnum]

/-- A car that is not ready has got time when the method raises, and nothing is consumed. -/
theorem not_usedExactly_of_raised {avatarData : AvatarData} (hattr : profile.addAttr = some attr)
    (hextended : ∃ after, avatarData.bag.lookup attr = some after ∧
      after.endTime = startTime now (s.avatarData.bag.lookup attr) + (day : ℕ)) :
    ¬ UsedExactly now s tid profile day count { s with avatarData := avatarData } := by
  obtain ⟨after, hafter, htime⟩ := hextended
  have hpos := day.pos
  rintro (⟨other, hother, consumed⟩ | ⟨hsame, -⟩)
  · obtain rfl : attr = other := by rw [hattr] at hother; exact Option.some.inj hother
    have hnum : min count (s.owned tid) = 0 := sub_eq_self.mp consumed.owned.symm
    obtain ⟨after', hafter', htime'⟩ := consumed.extended
    obtain rfl : after = after' := Option.some.inj (hafter.symm.trans hafter')
    rw [hnum, zero_mul, add_zero, Int.cast_inj] at htime'
    omega
  · have hafter' : s.avatarData.bag.lookup attr = some after := by
      rw [← hafter, ← hsame]
    have hle := @endTime_le_startTime now _ _ _ hafter'
    omega

variable [FloorRing N]

/-- A count from one on: the loop has a first turn. -/
theorem usedExactly_of_one_le (hitem : s.items.lookup tid = some item)
    (hprofile : config.items.lookup tid = some profile) (hdur : profile.useableDur = some day)
    (hattr : profile.addAttr = some attr) (hone : 1 ≤ count) :
    UsedExactly now s tid profile day count (s.useItems config now tid count).1 ↔
      Usable config s tid attr count := by
  have hfloor : 1 ≤ ⌊count⌋ := Int.le_floor.mpr (by simpa using hone)
  obtain ⟨turns, hturns⟩ : ∃ turns : Nat, ⌊count⌋.toNat = turns + 1 :=
    ⟨⌊count⌋.toNat - 1, by omega⟩
  have hcast : ((turns + 1 : Nat) : N) = (⌊count⌋ : N) := by
    have hint : ((turns + 1 : Nat) : Int) = ⌊count⌋ := by omega
    rw [← hint, Int.cast_natCast]
  by_cases hforEver : s.avatarData.ForEver attr
  · have hredeem := @redeemItem_of_forEver config.heroes now _ attr day hforEver turns none
    have hnothing : (s.useItems config now tid count).1 = s := by
      simp [Model.useItems, hprofile, hattr, hitem, hdur, hturns, hredeem]
    rw [hnothing]
    exact ⟨fun _ => ⟨fun _ => .inl hone, fun h => absurd hforEver h⟩,
      fun _ => .inr ⟨rfl, fun _ => rfl⟩⟩
  by_cases hready : s.avatarData.CarReady config.heroes attr
  · obtain ⟨t, detail, equipped, hredeem, -, hextended⟩ :=
      @redeemItem_of_ready config.heroes now _ attr day config.parts_not_car hforEver hready
        (turns + 1) none
    have hused : (s.useItems config now tid count).1 = s.used tid item count t :=
      useItems_of_granted hitem hprofile hattr (by rw [hturns, hdur, hredeem])
    rw [hused, usedExactly_of_turns hattr hitem (Nat.succ_pos turns)
      (hextended (Nat.succ_pos turns)), hcast]
    exact ⟨fun h => ⟨fun h' => absurd h' hforEver, fun _ => ⟨h, fun _ => hready⟩⟩,
      fun h => (h.2 hforEver).1⟩
  · -- the first turn raises after it has extended the car
    obtain ⟨t, after, hredeem, hextended⟩ :=
      @redeemItem_of_not_ready config.heroes now _ attr day config.parts_not_car hforEver
        hready turns none
    have hraised : (s.useItems config now tid count).1 = { s with avatarData := t } := by
      simp [Model.useItems, hprofile, hattr, hitem, hdur, hturns, hredeem]
    rw [hraised]
    exact ⟨fun h => absurd h (not_usedExactly_of_raised hattr ⟨after, hextended⟩),
      fun h => absurd ((h.2 hforEver).2 hone) hready⟩

/-- Using a stocked item with a duration consumes what there is of the count and extends
the part by just as much, or does nothing, exactly when the count does not exceed the
stock and is a whole number and a car is ready; a part that is kept for ever is left
alone by every count from one on. -/
theorem usedExactly_iff (hitem : s.items.lookup tid = some item) (hstock : 0 ≤ item.count)
    (hprofile : config.items.lookup tid = some profile) (hdur : profile.useableDur = some day)
    (hcount : 0 < count) :
    UsedExactly now s tid profile day count (s.useItems config now tid count).1 ↔
      ∀ attr ∈ profile.addAttr, Usable config s tid attr count := by
  cases hattr : profile.addAttr with
  | none =>
      have hnothing : (s.useItems config now tid count).1 = s := by
        simp [Model.useItems, hprofile, hattr]
      rw [hnothing]
      exact ⟨fun _ attr h => (by cases h), fun _ => .inr ⟨rfl, fun _ => rfl⟩⟩
  | some attr =>
      have hforall : (∀ a ∈ some attr, Usable config s tid a count) ↔
          Usable config s tid attr count := by simp
      rw [hforall]
      by_cases hone : 1 ≤ count
      · exact usedExactly_of_one_le hitem hprofile hdur hattr hone
      · -- the loop has no turn at all
        have hfloor : ⌊count⌋ = 0 := Int.floor_eq_zero_iff.mpr ⟨hcount.le, not_le.mp hone⟩
        have hused : (s.useItems config now tid count).1 = s.used tid item count s.avatarData :=
          useItems_of_granted hitem hprofile hattr (by rw [hfloor]; rfl)
        rw [hused, usedExactly_of_lt_one hattr hitem hstock hcount]
        simp only [Usable, hfloor, hone, Int.cast_zero, false_or, IsEmpty.forall_iff, and_true]
        constructor
        · exact fun hnum => ⟨fun _ => hnum, fun _ => hnum.symm⟩
        · rintro ⟨hforEver, htimed⟩
          by_cases h : s.avatarData.ForEver attr
          · exact hforEver h
          · exact (htimed h).symm

end

/-! ## A part for some time -/

/-- A player with some of an item that stands for a part. -/
def onePart (count : Int) : Model Int where
  credits := 0
  coins := 1000
  fragments := 0
  progress := ⟨1, 0⟩
  items := AList.singleton "ite1000007" ⟨"ite1000007", count, 1552003200⟩
  avatarData := ⟨none, none, ∅, ∅⟩

def partProfile : ItemType :=
  ⟨some "item", some "avatar00101004", some 3, some "ite1000003", some 260, some 1552003200⟩

/-- One item is used three times. -/
theorem not_usedExactly_onePart :
    ¬ UsedExactly 1550102400 (onePart 1) "ite1000007" partProfile 260 3
      ((onePart 1).useItems smallConfig 1550102400 "ite1000007" 3).1 := by
  rintro (⟨attr, hattr, consumed⟩ | ⟨-, hsame⟩)
  · cases hattr
    obtain ⟨after, hafter, htime⟩ := consumed.extended
    have hend :
        (((onePart 1).useItems smallConfig 1550102400 "ite1000007" 3).1.avatarData.bag.lookup
          "avatar00101004").map AvatarItem.endTime = some (1550102400 + 3 * 260) := by decide
    rw [hafter, Option.map_some, Option.some.injEq] at hend
    have hstart : startTime 1550102400 ((onePart 1).avatarData.bag.lookup "avatar00101004") =
        1550102400 := rfl
    have hnum : min 3 ((onePart 1).owned "ite1000007") = 1 := rfl
    rw [hend, hstart, hnum] at htime
    exact absurd htime (by decide)
  · exact absurd (hsame "ite1000007") (by decide)

end Player
end ArmyRs
