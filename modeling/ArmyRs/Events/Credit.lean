import ArmyRs.Foundation.SparseArrays
import ArmyRs.Foundation.Transition

/-!
# Credit events

A credit event gives rewards for payments.  `total_times` counts, for each reward, how
often a user has earned it, and `redeemed_times` how often he has got it.

A single payment earns the best reward that it reaches and that has times left
(`single_credit`); the other types look at the sum of the payments and give each reward
once.  In every run of payments and redeemed rewards, no reward is redeemed more often
than it was earned, nor earned more often than it may be (`lawful_of_run`).
-/

namespace ArmyRs
namespace Events

open Foundation

structure Reward where
  times : ℤ
  credits : ℤ
  packageId : Option String
  deriving DecidableEq, Repr

inductive CreditType
  | singleCredit
  | totalCredit
  | totalPaid
  | other
  deriving DecidableEq, Repr

structure CreditRecord where
  credits : ℤ
  time : ℤ
  totalTimes : List (Option ℤ)
  redeemedTimes : List (Option ℤ)
  deriving DecidableEq, Repr

namespace CreditRecord

/-- The record that `one` creates. -/
def new : CreditRecord := ⟨0, 0, [], []⟩

/-- `total_times[index]`, where nothing is zero. -/
def total (r : CreditRecord) (index : Nat) : ℤ := (slot r.totalTimes index).getD 0

/-- `redeemed_times[index]`, where nothing is zero. -/
def redeemed (r : CreditRecord) (index : Nat) : ℤ := (slot r.redeemedTimes index).getD 0

/-- `total_times[index] ||= 0` -/
def initTotal (r : CreditRecord) (index : Nat) : CreditRecord :=
  { r with totalTimes := placeMissing r.totalTimes index 0 }

/-- `redeemed_times[index] ||= 0` -/
def initRedeemed (r : CreditRecord) (index : Nat) : CreditRecord :=
  { r with redeemedTimes := placeMissing r.redeemedTimes index 0 }

def setTotalTimes (r : CreditRecord) (index : Nat) (value : ℤ) : CreditRecord :=
  { r with totalTimes := place r.totalTimes index value }

def incrTotalTimes (r : CreditRecord) (index : Nat) : CreditRecord :=
  (r.initTotal index).setTotalTimes index (r.total index + 1)

/-- `can_redeem?`, with the record that it leaves. -/
def canRedeem (r : CreditRecord) (index : Nat) : Bool × CreditRecord :=
  let read := (r.initRedeemed index).initTotal index
  (decide (read.redeemed index < read.total index), read)

def redeem (r : CreditRecord) (index : Nat) : CreditRecord :=
  let read := r.initRedeemed index
  { read with redeemedTimes := place read.redeemedTimes index (read.redeemed index + 1) }

end CreditRecord

/-- A check that fails has a text; one that calls a method of `nil` raises. -/
inductive Refusal
  | invalid (text : String)
  | raised
  deriving DecidableEq, Repr

structure Credit where
  type : CreditType
  startTime : ℤ
  endTime : ℤ
  closeTime : ℤ
  rewards : List (Option Reward)
  deriving DecidableEq, Repr

namespace Credit

/-- `show_only?` -/
def ShowOnly (e : Credit) (now : ℤ) : Prop := e.endTime ≤ now ∧ now ≤ e.closeTime

/-- `opened?` -/
def Opened (e : Credit) (now : ℤ) : Prop := now ≤ e.closeTime ∧ e.startTime ≤ now

instance decidableShowOnly (e : Credit) (now : ℤ) : Decidable (e.ShowOnly now) :=
  inferInstanceAs (Decidable (_ ∧ _))

instance decidableOpened (e : Credit) (now : ℤ) : Decidable (e.Opened now) :=
  inferInstanceAs (Decidable (_ ∧ _))

/-- `valid_time?` -/
def validTime (e : Credit) : Except Refusal Unit :=
  if e.endTime ≤ e.startTime then .error (.invalid "invalid_start_end_time")
  else if e.closeTime ≤ e.endTime then .error (.invalid "invalid_end_close_time")
  else .ok ()

/-- There is no package of this id; `hasPackage` tells which ids are configured. -/
def noPackage (hasPackage : String → Bool) : Option String → Bool
  | none => true
  | some id => id.isEmpty || !hasPackage id

/-- What `valid_data?` asks of each reward, from the place `index` on. -/
def checkRewards (hasPackage : String → Bool) : Nat → List (Option Reward) → Except Refusal Unit
  | _, [] => .ok ()
  | _, none :: _ => .error .raised
  | index, some x :: rewards =>
      if x.credits ≤ 0 then
        .error (.invalid
          s!"error_credit_requirement credits={toString x.credits} @Reward{toString (index + 1)}")
      else if x.times < 1 then
        .error (.invalid
          s!"error_redeem_times times={toString x.times} @Reward{toString (index + 1)}")
      else if noPackage hasPackage x.packageId then
        let packageId := x.packageId.getD ""
        .error (.invalid s!"error_package_id package_id={packageId} @Reward{toString (index + 1)}")
      else checkRewards hasPackage (index + 1) rewards

/-- What `valid_data?` asks of the order of the rewards. -/
def checkIncrement : List (Option Reward) → Except Refusal Unit
  | some x :: some next :: rewards =>
      if next.credits < x.credits then .error (.invalid "error_credit_increment")
      else checkIncrement (some next :: rewards)
  | _ :: rewards => checkIncrement rewards
  | [] => .ok ()

/-- `valid_data?` -/
def validData (hasPackage : String → Bool) (e : Credit) : Except Refusal Unit :=
  if e.rewards.isEmpty then .error (.invalid "error_no_rewards")
  else
    match checkRewards hasPackage 0 e.rewards with
    | .error refusal => .error refusal
    | .ok () => checkIncrement e.rewards

/-- The place of the last reward that the amount reaches. -/
def largestIndex (rewards : List (Option Reward)) (amount : ℤ) : Option Nat :=
  (rewards.reverse.findIdx? fun x => x.any fun reward => reward.credits ≤ amount).map
    fun i => rewards.length - 1 - i

/-- The loop of `single_credit` from the place before `index` down to the first. -/
def earnDownto (rewards : List (Option Reward)) : Nat → CreditRecord → CreditRecord
  | 0, record => record
  | index + 1, record =>
      match slot rewards index with
      | none => earnDownto rewards index record
      | some reward =>
          let read := (record.initRedeemed index).initTotal index
          if read.redeemed index < reward.times ∧ read.total index < reward.times then
            read.incrTotalTimes index
          else earnDownto rewards index read

/-- The loop of `total_credit` and `total_paid`; a missing reward raises. -/
def earnReached : Nat → List (Option Reward) → CreditRecord → Option CreditRecord
  | _, [], record => some record
  | _, none :: _, _ => none
  | index, some x :: rewards, record =>
      earnReached (index + 1) rewards
        (if x.credits ≤ record.credits then record.setTotalTimes index 1 else record)

/-- What a payment changes, apart from the time. -/
def earn (e : Credit) (record : CreditRecord) (credit : ℤ) : Option CreditRecord :=
  match e.type with
  | .singleCredit =>
      let record := { record with credits := record.credits + |credit| }
      match largestIndex e.rewards |credit| with
      | some largest => some (earnDownto e.rewards (largest + 1) record)
      | none => some record
  | .totalCredit =>
      earnReached 0 e.rewards { record with credits := record.credits + |credit| }
  | .totalPaid =>
      earnReached 0 e.rewards
        (if credit < 0 then { record with credits := record.credits + |credit| } else record)
  | .other => some record

/-- `update_record` of one user, with the three times that it reads; a call that raises
saves nothing. -/
def updateRecord (e : Credit) (record : CreditRecord) (now later time credit : ℤ) :
    CreditRecord :=
  if ¬ e.Opened now then record
  else if e.ShowOnly later then record
  else
    match e.earn record credit with
    | some earned => { earned with time := time }
    | none => record

end Credit

inductive CreditEvent
  | update (now later time credit : ℤ)
  /-- `redeem`, when `can_redeem?` holds. -/
  | redeem (index : Nat)
  deriving DecidableEq, Repr

namespace Credit

def step (e : Credit) (record : CreditRecord) : CreditEvent → Option CreditRecord
  | .update now later time credit => some (e.updateRecord record now later time credit)
  | .redeem index =>
      let answer := record.canRedeem index
      some (if answer.1 then answer.2.redeem index else answer.2)

/-! ## What a user may have -/

/-- How often the reward at a place may be earned. -/
def times (e : Credit) (index : Nat) : ℤ :=
  ((slot e.rewards index).map Reward.times).getD 0

structure Bounded (e : Credit) (record : CreditRecord) : Prop where
  total : ∀ index, record.total index ≤ e.times index
  redeemed : ∀ index, record.redeemed index ≤ record.total index

/-- The amount reaches the reward, which has times left. -/
def HasLeft (e : Credit) (record : CreditRecord) (amount : ℤ) (index : Nat) : Prop :=
  ∃ reward, slot e.rewards index = some reward ∧ reward.credits ≤ amount ∧
    record.total index < reward.times

/-- The last reward that has times left is earned once more, or there is none. -/
def EarnsLast (e : Credit) (record : CreditRecord) (amount : ℤ) (next : CreditRecord) : Prop :=
  (∃ index, e.HasLeft record amount index ∧ (∀ later > index, ¬ e.HasLeft record amount later) ∧
    next.total = Function.update record.total index (record.total index + 1)) ∨
  (∀ index, ¬ e.HasLeft record amount index) ∧ next.total = record.total

structure Lawful (e : Credit) (record : CreditRecord) (event : CreditEvent)
    (next : CreditRecord) : Prop where
  credits : record.credits ≤ next.credits
  single : ∀ now later time credit, event = .update now later time credit →
    e.type = .singleCredit → e.Opened now → ¬ e.ShowOnly later →
      e.EarnsLast record |credit| next

end Credit

namespace CreditRecord

variable {r : CreditRecord} {index : Nat} {value : ℤ}

/-! ## One record -/

@[simp] theorem total_initTotal : (r.initTotal index).total = r.total :=
  funext fun _ => getD_slot_placeMissing

@[simp] theorem redeemed_initTotal : (r.initTotal index).redeemed = r.redeemed := rfl

@[simp] theorem total_initRedeemed : (r.initRedeemed index).total = r.total := rfl

@[simp] theorem redeemed_initRedeemed : (r.initRedeemed index).redeemed = r.redeemed :=
  funext fun _ => getD_slot_placeMissing

@[simp] theorem total_setTotalTimes :
    (r.setTotalTimes index value).total = Function.update r.total index value := by
  funext j
  rw [Function.update_apply]
  show (slot (place r.totalTimes index value) j).getD 0 = _
  rw [slot_place]
  split <;> rfl

@[simp] theorem total_incrTotalTimes :
    (r.incrTotalTimes index).total = Function.update r.total index (r.total index + 1) := by
  rw [incrTotalTimes, total_setTotalTimes, total_initTotal]

@[simp] theorem redeemed_redeem :
    (r.redeem index).redeemed =
      Function.update r.redeemed index (r.redeemed index + 1) := by
  funext j
  rw [Function.update_apply]
  show (slot (place (r.initRedeemed index).redeemedTimes index
    ((r.initRedeemed index).redeemed index + 1)) j).getD 0 = _
  rw [slot_place, redeemed_initRedeemed]
  split
  · rfl
  · exact congrFun redeemed_initRedeemed j

end CreditRecord

namespace Credit

variable {hasPackage : String → Bool} {e : Credit} {record next : CreditRecord}
  {rewards : List (Option Reward)} {amount credit : ℤ} {index : Nat} {event : CreditEvent}
  {events : List CreditEvent}

/-! ## Valid events -/

theorem of_checkRewards (h : checkRewards hasPackage index rewards = .ok ()) :
    ∃ xs : List Reward, rewards = xs.map some ∧ ∀ x ∈ xs, 1 ≤ x.times := by
  induction rewards generalizing index with
  | nil => exact ⟨[], rfl, by simp⟩
  | cons first rewards ih =>
      cases first with
      | none => cases h
      | some x =>
          unfold checkRewards at h
          split at h
          · cases h
          split at h
          · cases h
          · next htimes =>
            split at h
            · cases h
            obtain ⟨xs, rfl, hxs⟩ := ih h
            refine ⟨x :: xs, rfl, fun y hy => ?_⟩
            rcases List.mem_cons.mp hy with rfl | hy
            · omega
            · exact hxs y hy

theorem of_checkIncrement {xs : List Reward} (h : checkIncrement (xs.map some) = .ok ()) :
    (xs.map Reward.credits).Pairwise (· ≤ ·) := by
  rw [← List.isChain_iff_pairwise]
  induction xs with
  | nil => exact List.IsChain.nil
  | cons x xs ih =>
      cases xs with
      | nil => exact List.IsChain.singleton _
      | cons next xs =>
          simp only [List.map_cons, checkIncrement] at h
          split at h
          · cases h
          · next hle => exact List.IsChain.cons_cons (not_lt.mp hle) (ih h)

/-- Every reward of a valid event can be earned, and no reward asks for more credits than
a later one. -/
structure Increasing (e : Credit) : Prop where
  present : none ∉ e.rewards
  times : ∀ index reward, slot e.rewards index = some reward → 1 ≤ reward.times
  credits : ∀ i j x y, i ≤ j → slot e.rewards i = some x → slot e.rewards j = some y →
    x.credits ≤ y.credits

theorem increasing_of_validData (h : e.validData hasPackage = .ok ()) : e.Increasing := by
  unfold validData at h
  split at h
  · cases h
  split at h
  · cases h
  · next hcheck =>
    obtain ⟨xs, hxs, htimes⟩ := of_checkRewards hcheck
    rw [hxs] at h
    have hpairwise := of_checkIncrement h
    refine ⟨by simp [hxs], fun index reward hreward => ?_, fun i j x y hij hx hy => ?_⟩
    · rw [hxs, slot_map_some] at hreward
      exact htimes reward (List.mem_of_getElem? hreward)
    · rw [hxs, slot_map_some] at hx hy
      rcases hij.eq_or_lt with rfl | hlt
      · rw [hx] at hy
        cases hy
        exact le_rfl
      · obtain ⟨hi, rfl⟩ := List.getElem?_eq_some_iff.mp hx
        obtain ⟨hj, rfl⟩ := List.getElem?_eq_some_iff.mp hy
        rw [List.pairwise_map] at hpairwise
        exact List.pairwise_iff_getElem.mp hpairwise i j hi hj hlt

/-! ## Payments -/

theorem largestIndex_eq_some (h : largestIndex rewards amount = some index) :
    (∃ reward, slot rewards index = some reward ∧ reward.credits ≤ amount) ∧
      ∀ later > index, ∀ reward, slot rewards later = some reward → amount < reward.credits := by
  unfold largestIndex at h
  obtain ⟨i, hfind, rfl⟩ := Option.map_eq_some_iff.mp h
  obtain ⟨hi, hreached, hbefore⟩ := List.findIdx?_eq_some_iff_getElem.mp hfind
  rw [List.length_reverse] at hi
  constructor
  · rw [List.getElem_reverse, Option.any_eq_true] at hreached
    obtain ⟨reward, hreward, hle⟩ := hreached
    refine ⟨reward, ?_, by simpa using hle⟩
    unfold slot
    rw [List.getElem?_eq_getElem (by omega), hreward]
    rfl
  · intro later hlater reward hreward
    have hlength : later < rewards.length := by
      by_contra hnot
      rw [slot, List.getElem?_eq_none (by omega)] at hreward
      cases hreward
    have hplace := hbefore (rewards.length - 1 - later) (by omega)
    rw [List.getElem_reverse] at hplace
    have hback : rewards.length - 1 - (rewards.length - 1 - later) = later := by omega
    have hget : rewards[later] = some reward := by
      rw [slot, List.getElem?_eq_getElem hlength] at hreward
      exact hreward
    simpa only [hback, hget, Option.any_some, decide_eq_true_eq, not_le] using hplace

theorem largestIndex_eq_none (h : largestIndex rewards amount = none) (index : Nat)
    (reward : Reward) (hreward : slot rewards index = some reward) : amount < reward.credits := by
  rw [largestIndex, Option.map_eq_none_iff, List.findIdx?_eq_none_iff] at h
  have hmem : some reward ∈ rewards.reverse := by
    rw [List.mem_reverse]
    unfold slot at hreward
    rw [Option.join_eq_some_iff] at hreward
    exact List.mem_of_getElem? hreward
  simpa using h _ hmem

/-- The reward at the place has times left. -/
def Left (rewards : List (Option Reward)) (record : CreditRecord) (index : Nat) : Prop :=
  ∃ reward, slot rewards index = some reward ∧ record.total index < reward.times

/-- The last reward below the bound that has times left is earned, or there is none. -/
def EarnsBelow (rewards : List (Option Reward)) (bound : Nat) (record next : CreditRecord) : Prop :=
  (∃ index < bound, Left rewards record index ∧
    (∀ later, index < later → later < bound → ¬ Left rewards record later) ∧
    next.total = Function.update record.total index (record.total index + 1)) ∨
  (∀ index < bound, ¬ Left rewards record index) ∧ next.total = record.total

theorem EarnsBelow.succ {bound : Nat} (h : EarnsBelow rewards bound record next)
    (hnot : ¬ Left rewards record bound) : EarnsBelow rewards (bound + 1) record next := by
  rcases h with ⟨index, hindex, hleft, hlast, htotal⟩ | ⟨hnone, htotal⟩
  · refine .inl ⟨index, hindex.trans (Nat.lt_succ_self bound), hleft,
      fun later hlater hless => ?_, htotal⟩
    rcases Nat.lt_succ_iff_lt_or_eq.mp hless with hlt | rfl
    · exact hlast later hlater hlt
    · exact hnot
  · refine .inr ⟨fun index hindex => ?_, htotal⟩
    rcases Nat.lt_succ_iff_lt_or_eq.mp hindex with hlt | rfl
    · exact hnone index hlt
    · exact hnot

theorem earnDownto_spec (hredeemed : ∀ index, record.redeemed index ≤ record.total index)
    (rewards : List (Option Reward)) (bound : Nat) :
    (earnDownto rewards bound record).credits = record.credits ∧
      (earnDownto rewards bound record).redeemed = record.redeemed ∧
      EarnsBelow rewards bound record (earnDownto rewards bound record) := by
  induction bound generalizing record with
  | zero => exact ⟨rfl, rfl, .inr ⟨by simp, rfl⟩⟩
  | succ bound ih =>
      unfold earnDownto
      split
      · next hnone =>
        obtain ⟨hcredits, hsame, hearned⟩ := ih hredeemed
        refine ⟨hcredits, hsame, hearned.succ ?_⟩
        rintro ⟨reward, hreward, -⟩
        rw [hnone] at hreward
        cases hreward
      · next reward hreward =>
        have hread : ((record.initRedeemed bound).initTotal bound).total = record.total := by simp
        have hreadRedeemed :
            ((record.initRedeemed bound).initTotal bound).redeemed = record.redeemed := by simp
        dsimp only
        rw [hread, hreadRedeemed]
        split
        · next hleft =>
          refine ⟨rfl, hreadRedeemed, .inl ⟨bound, Nat.lt_succ_self bound,
            ⟨reward, hreward, hleft.2⟩, fun later hlater hless => by omega, ?_⟩⟩
          rw [CreditRecord.total_incrTotalTimes, hread]
        · next hnot =>
          have hbelow : ∀ index, ((record.initRedeemed bound).initTotal bound).redeemed index ≤
              ((record.initRedeemed bound).initTotal bound).total index := by
            rw [hread, hreadRedeemed]
            exact hredeemed
          obtain ⟨hcredits, hsame, hearned⟩ := ih hbelow
          refine ⟨hcredits, hsame.trans hreadRedeemed, EarnsBelow.succ ?_ ?_⟩
          · unfold EarnsBelow Left at hearned ⊢
            rwa [hread] at hearned
          · -- what is redeemed was earned, so the reward has been earned often enough
            rintro ⟨other, hother, hless⟩
            rw [hreward] at hother
            cases hother
            exact hnot ⟨(hredeemed bound).trans_lt hless, hless⟩

/-- The loop sets the count of every reward that is reached to one. -/
theorem earnReached_spec (h : earnReached index rewards record = some next) :
    next.credits = record.credits ∧ next.redeemed = record.redeemed ∧
      ∀ i, next.total i = record.total i ∨ next.total i = 1 ∧ index ≤ i ∧
        (slot rewards (i - index)).isSome := by
  induction rewards generalizing index record with
  | nil =>
      cases h
      exact ⟨rfl, rfl, fun i => .inl rfl⟩
  | cons first rewards ih =>
      cases first with
      | none => cases h
      | some x =>
          obtain ⟨hcredits, hredeemed, htotal⟩ := ih h
          refine ⟨hcredits.trans (by split <;> rfl), hredeemed.trans (by split <;> rfl),
            fun i => ?_⟩
          rcases htotal i with hsame | ⟨hone, hle, hsome⟩
          · rw [hsame]
            split
            · rw [CreditRecord.total_setTotalTimes, Function.update_apply]
              split
              · next heq =>
                subst heq
                refine .inr ⟨rfl, le_rfl, ?_⟩
                rw [Nat.sub_self]
                rfl
              · exact .inl rfl
            · exact .inl rfl
          · refine .inr ⟨hone, (Nat.le_succ index).trans hle, ?_⟩
            have hplace : i - index = i - (index + 1) + 1 := by omega
            rw [hplace]
            exact hsome

theorem earnReached_isSome (h : none ∉ rewards) (index : Nat) (record : CreditRecord) :
    (earnReached index rewards record).isSome := by
  induction rewards generalizing index record with
  | nil => rfl
  | cons first rewards ih =>
      rw [List.mem_cons, not_or] at h
      cases first with
      | none => exact absurd rfl h.1
      | some x => exact ih h.2 _ _

/-- A payment of a valid event does not raise. -/
theorem earn_isSome (he : e.Increasing) (record : CreditRecord) (credit : ℤ) :
    (e.earn record credit).isSome := by
  unfold earn
  split
  · split <;> rfl
  · exact earnReached_isSome he.present _ _
  · exact earnReached_isSome he.present _ _
  · rfl

/-! ## Runs -/

/-- The counts are bounded, and only single payments earn a reward more than once. -/
structure Kept (e : Credit) (record : CreditRecord) : Prop where
  bounded : e.Bounded record
  once : e.type ≠ .singleCredit → ∀ index, record.total index ≤ 1

theorem bounded_new (he : e.Increasing) : e.Bounded .new where
  total := fun index => by
    show 0 ≤ e.times index
    unfold times
    cases hreward : slot e.rewards index with
    | none => exact le_rfl
    | some reward => exact le_trans zero_le_one (he.times index reward hreward)
  redeemed := fun _ => le_rfl

theorem kept_new (he : e.Increasing) : e.Kept .new where
  bounded := bounded_new he
  once := fun _ _ => zero_le_one

/-- Reached rewards are those up to the last that is reached. -/
theorem hasLeft_iff_left (he : e.Increasing) {largest : Nat}
    (hlargest : largestIndex e.rewards amount = some largest) :
    e.HasLeft record amount index ↔ index < largest + 1 ∧ Left e.rewards record index := by
  obtain ⟨⟨best, hbest, hreached⟩, hlater⟩ := largestIndex_eq_some hlargest
  constructor
  · rintro ⟨reward, hreward, hle, hleft⟩
    refine ⟨?_, reward, hreward, hleft⟩
    by_contra hnot
    exact absurd (hlater index (by omega) reward hreward) (not_lt.mpr hle)
  · rintro ⟨hindex, reward, hreward, hleft⟩
    exact ⟨reward, hreward,
      (he.credits index largest reward best (by omega) hreward hbest).trans hreached, hleft⟩

/-- A single payment earns the last reward that it reaches and that has times left. -/
theorem earn_single (he : e.Increasing) (hkept : e.Kept record) (htype : e.type = .singleCredit)
    (hearn : e.earn record credit = some next) :
    next.credits = record.credits + |credit| ∧ next.redeemed = record.redeemed ∧
      e.EarnsLast record |credit| next := by
  unfold earn at hearn
  rw [htype] at hearn
  dsimp only at hearn
  split at hearn
  · next largest hlargest =>
    cases hearn
    let paid : CreditRecord := { record with credits := record.credits + |credit| }
    have hpaid : ∀ index, paid.redeemed index ≤ paid.total index := hkept.bounded.redeemed
    obtain ⟨hcredits, hredeemed, hearned⟩ := earnDownto_spec hpaid e.rewards (largest + 1)
    refine ⟨hcredits, hredeemed, ?_⟩
    have hiff : ∀ index, e.HasLeft record |credit| index ↔ index < largest + 1 ∧
        Left e.rewards record index := fun index => hasLeft_iff_left he hlargest
    rcases hearned with ⟨index, hindex, hleft, hlast, htotal⟩ | ⟨hnone, htotal⟩
    · refine .inl ⟨index, (hiff index).mpr ⟨hindex, hleft⟩, fun later hlater hmore => ?_, htotal⟩
      obtain ⟨hless, hmore⟩ := (hiff later).mp hmore
      exact hlast later hlater hless hmore
    · refine .inr ⟨fun index hmore => ?_, htotal⟩
      obtain ⟨hless, hmore⟩ := (hiff index).mp hmore
      exact hnone index hless hmore
  · next hnone =>
    cases hearn
    refine ⟨rfl, rfl, .inr ⟨fun index => ?_, rfl⟩⟩
    rintro ⟨reward, hreward, hle, -⟩
    exact absurd (largestIndex_eq_none hnone index reward hreward) (not_lt.mpr hle)

/-- One reward more is within the bounds when it had times left. -/
theorem EarnsLast.bounded (h : e.EarnsLast record amount next) (hbounded : e.Bounded record)
    (hredeemed : next.redeemed = record.redeemed) : e.Bounded next := by
  rcases h with ⟨index, ⟨reward, hreward, -, hleft⟩, -, htotal⟩ | ⟨-, htotal⟩
  · have htimes : e.times index = reward.times := by
      unfold times
      rw [hreward]
      rfl
    refine ⟨fun i => ?_, fun i => ?_⟩
    · rw [htotal, Function.update_apply]
      split
      · next heq =>
        subst heq
        omega
      · exact hbounded.total i
    · have hle := hbounded.redeemed i
      rw [htotal, hredeemed, Function.update_apply]
      split
      · next heq =>
        subst heq
        omega
      · exact hle
  · exact ⟨fun i => htotal ▸ hbounded.total i, fun i => by
      rw [htotal, hredeemed]
      exact hbounded.redeemed i⟩

/-- The sum of the payments earns each reward once. -/
theorem Kept.earnReached (he : e.Increasing) (hkept : e.Kept record)
    (htype : e.type ≠ .singleCredit) {paid : CreditRecord}
    (hearn : Credit.earnReached 0 e.rewards paid = some next) (htotal : paid.total = record.total)
    (hredeemed : paid.redeemed = record.redeemed) : e.Kept next := by
  obtain ⟨-, hsame, hearned⟩ := earnReached_spec hearn
  rw [htotal] at hearned
  refine ⟨⟨fun i => ?_, fun i => ?_⟩, fun _ i => ?_⟩
  · rcases hearned i with hkeep | ⟨hone, -, hsome⟩
    · rw [hkeep]
      exact hkept.bounded.total i
    · obtain ⟨reward, hreward⟩ := Option.isSome_iff_exists.mp hsome
      rw [Nat.sub_zero] at hreward
      have htimes := he.times i reward hreward
      rw [hone, times, hreward]
      exact htimes
  · have hle := hkept.bounded.redeemed i
    have honce := hkept.once htype i
    rw [hsame, hredeemed]
    rcases hearned i with hkeep | ⟨hone, -, -⟩
    · omega
    · omega
  · have honce := hkept.once htype i
    rcases hearned i with hkeep | ⟨hone, -, -⟩
    · omega
    · omega

/-- Whatever the type, a payment keeps the bounds and takes no credits away. -/
theorem Kept.earn (he : e.Increasing) (hkept : e.Kept record)
    (hearn : e.earn record credit = some next) :
    e.Kept next ∧ record.credits ≤ next.credits := by
  cases htype : e.type with
  | singleCredit =>
      obtain ⟨hcredits, hredeemed, hearned⟩ := earn_single he hkept htype hearn
      refine ⟨⟨hearned.bounded hkept.bounded hredeemed, fun hnot => absurd htype hnot⟩, ?_⟩
      have hpos := abs_nonneg credit
      omega
  | totalCredit =>
      simp only [Credit.earn, htype] at hearn
      refine ⟨hkept.earnReached he (by rw [htype]; decide) hearn rfl rfl, ?_⟩
      have hpos := abs_nonneg credit
      rw [(earnReached_spec hearn).1]
      dsimp only
      omega
  | totalPaid =>
      simp only [Credit.earn, htype] at hearn
      refine ⟨hkept.earnReached he (by rw [htype]; decide) hearn (by split <;> rfl)
        (by split <;> rfl), ?_⟩
      have hpos := abs_nonneg credit
      rw [(earnReached_spec hearn).1]
      split
      · dsimp only
        omega
      · exact le_rfl
  | other =>
      simp only [Credit.earn, htype] at hearn
      cases hearn
      exact ⟨hkept, le_rfl⟩

theorem Kept.updateRecord (he : e.Increasing) (hkept : e.Kept record) (now later time credit : ℤ) :
    e.Kept (e.updateRecord record now later time credit) ∧
      record.credits ≤ (e.updateRecord record now later time credit).credits := by
  unfold Credit.updateRecord
  split
  · exact ⟨hkept, le_rfl⟩
  split
  · exact ⟨hkept, le_rfl⟩
  split
  · next earned hearned =>
    obtain ⟨hnext, hcredits⟩ := hkept.earn he hearned
    exact ⟨⟨⟨hnext.bounded.total, hnext.bounded.redeemed⟩, hnext.once⟩, hcredits⟩
  · exact ⟨hkept, le_rfl⟩

theorem Kept.redeem (hkept : e.Kept record) (index : Nat) :
    e.Kept (if (record.canRedeem index).1 then (record.canRedeem index).2.redeem index
      else (record.canRedeem index).2) := by
  have htotal : ∀ i, ((record.initRedeemed index).initTotal index).total i = record.total i :=
    fun i => congrFun (by simp) i
  have hredeemed : ((record.initRedeemed index).initTotal index).redeemed = record.redeemed := by
    simp
  unfold CreditRecord.canRedeem
  dsimp only
  split
  · next hcan =>
    refine ⟨⟨fun i => (htotal i).le.trans (hkept.bounded.total i), fun i => ?_⟩,
      fun htype i => (htotal i).le.trans (hkept.once htype i)⟩
    rw [hredeemed, htotal, decide_eq_true_eq] at hcan
    have hle := hkept.bounded.redeemed i
    have hsame : (((record.initRedeemed index).initTotal index).redeem index).total i =
        record.total i := htotal i
    rw [hsame, CreditRecord.redeemed_redeem, hredeemed, Function.update_apply]
    split
    · next heq =>
      subst heq
      omega
    · exact hle
  · refine ⟨⟨fun i => (htotal i).le.trans (hkept.bounded.total i), fun i => ?_⟩,
      fun htype i => (htotal i).le.trans (hkept.once htype i)⟩
    rw [htotal, hredeemed]
    exact hkept.bounded.redeemed i

theorem Kept.step (he : e.Increasing) (hkept : e.Kept record)
    (hstep : e.step record event = some next) : e.Kept next ∧ record.credits ≤ next.credits := by
  cases event with
  | update now later time credit =>
      cases hstep
      exact hkept.updateRecord he now later time credit
  | redeem index =>
      cases hstep
      refine ⟨hkept.redeem index, le_of_eq ?_⟩
      split <;> rfl

/-- In every run of payments and redeemed rewards of a valid event: what was redeemed was
earned, and was not earned too often; the credits never decrease, and a single payment
earns the last reward that it reaches and that has times left. -/
theorem lawful_of_run (hvalid : e.validData hasPackage = .ok ())
    (hrun : Run e.step free .new events record) :
    e.Bounded record ∧
      ∀ event next, e.step record event = some next → e.Lawful record event next := by
  have he := increasing_of_validData hvalid
  have hkept : e.Kept record := hrun.invariant (kept_new he)
    fun _ _ _ hkept _ hstep => (hkept.step he hstep).1
  refine ⟨hkept.bounded, fun event next hstep => ⟨(hkept.step he hstep).2, ?_⟩⟩
  rintro now later time credit rfl htype hopened hshow
  cases hstep
  have hupdate : e.updateRecord record now later time credit =
      match e.earn record credit with
      | some earned => { earned with time := time }
      | none => record := by
    rw [updateRecord, if_neg (not_not_intro hopened), if_neg hshow]
  obtain ⟨earned, hearned⟩ := Option.isSome_iff_exists.mp (earn_isSome he record credit)
  rw [hupdate, hearned]
  exact (earn_single he hkept htype hearned).2.2

/-- Two rewards, of which the second may be earned once. -/
def twoRewards : Credit where
  type := .singleCredit
  startTime := 0
  endTime := 10
  closeTime := 20
  rewards := [some ⟨2, 5, some "a"⟩, some ⟨1, 8, some "b"⟩]

theorem lawful_twoRewards :
    ∃ record, twoRewards.Bounded record ∧
      ∀ event next, twoRewards.step record event = some next →
        twoRewards.Lawful record event next := by
  have hrun : Run twoRewards.step free .new
      [.update 1 1 1 9, .update 2 2 2 9, .redeem 1, .redeem 1] _ :=
    run_exec_getD .new (by decide)
  have hvalid : twoRewards.validData (fun _ => true) = .ok () := rfl
  exact ⟨_, lawful_of_run hvalid hrun⟩

end Credit
end Events
end ArmyRs
