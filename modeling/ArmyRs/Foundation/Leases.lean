import Mathlib.Data.Set.Subsingleton
import Mathlib.Order.Basic
import Mathlib.Tactic

/-!
# Leases on one key

Clients take a lease by writing a stamp to a shared key.  One that finds the key absent,
or a stamp that its clock has passed, has the lease from then on; it takes it for its
own until its own clock says that it has ended.

The invariant keeps, for every holder, that the key carries a stamp no earlier than the
one that goes with its lease and no later than one written now.  A client that gets the
lease has read an absent key or a stamp in the past, so no lease is running then.
-/

namespace ArmyRs
namespace Foundation

/-- How leases are timed.  The laws are for the clocks of a span and for the readings
that leases are taken at. -/
structure LeaseTiming (τ ν : Type*) [LinearOrder τ] [LinearOrder ν] where
  /-- What a client reads off the clock. -/
  now : τ → ν
  /-- The stamp that goes with a reading. -/
  stamp : ν → ν
  /-- A lease taken at a reading has not ended. -/
  Valid : ν → τ → Prop
  span : Set τ
  readings : Set ν
  now_mem : ∀ c ∈ span, now c ∈ readings
  stamp_mono : ∀ c ∈ span, ∀ c' ∈ span, c ≤ c' → stamp (now c) ≤ stamp (now c')
  valid_anti : ∀ a c c', c ≤ c' → Valid a c' → Valid a c
  /-- A lease has ended when the clock is read past its stamp. -/
  ended : ∀ a ∈ readings, ∀ c ∈ span, stamp a < now c → ¬ Valid a c

/-- The clock, the key, and when the clients have taken their leases. -/
structure LeaseState (ι τ ν : Type*) where
  clock : τ
  key : Option ν
  acquired : ι → Option ν

section

variable {ι τ ν : Type*} [DecidableEq ι] [LinearOrder τ] [LinearOrder ν]
  {timing : LeaseTiming τ ν} {s s' : LeaseState ι τ ν}

/-- The client has taken the lease, and it has not ended. -/
def LeaseState.Holds (timing : LeaseTiming τ ν) (s : LeaseState ι τ ν) (i : ι) : Prop :=
  ∃ a, s.acquired i = some a ∧ timing.Valid a s.clock

/-- What one event can change. -/
inductive LeaseChange (timing : LeaseTiming τ ν) (s s' : LeaseState ι τ ν) : Prop
  /-- Time passes, or a call goes on or ends without a write. -/
  | quiet (hclock : s.clock ≤ s'.clock) (hkey : s'.key = s.key)
      (hacquired : s'.acquired = s.acquired)
  /-- A call that does not get the lease has overwritten the key. -/
  | overwrite (hclock : s'.clock = s.clock)
      (hkey : s'.key = some (timing.stamp (timing.now s.clock)))
      (hacquired : s'.acquired = s.acquired)
  /-- The key was absent or expired, and `i` has the lease now. -/
  | acquire (i : ι) (hclock : s'.clock = s.clock)
      (hkey : s'.key = some (timing.stamp (timing.now s.clock)))
      (hexpired : ∀ v, s.key = some v → v < timing.now s.clock)
      (hacquired : s'.acquired = Function.update s.acquired i (some (timing.now s.clock)))
  /-- `i` had the lease and has renewed it. -/
  | renew (i : ι) (hholds : s.Holds timing i) (hclock : s'.clock = s.clock)
      (hkey : s'.key = some (timing.stamp (timing.now s.clock)))
      (hacquired : s'.acquired = Function.update s.acquired i (some (timing.now s.clock)))
  /-- `i` had the lease and has released it. -/
  | release (i : ι) (hholds : s.Holds timing i) (hclock : s'.clock = s.clock)
      (hkey : s'.key = none) (hacquired : s'.acquired = Function.update s.acquired i none)

theorem LeaseChange.clock_le (change : LeaseChange timing s s') : s.clock ≤ s'.clock := by
  cases change with
  | quiet hclock => exact hclock
  | overwrite hclock => exact hclock.ge
  | acquire i hclock => exact hclock.ge
  | renew i hholds hclock => exact hclock.ge
  | release i hholds hclock => exact hclock.ge

/-- The key carries a stamp for every holder, and there is at most one. -/
structure Leased (timing : LeaseTiming τ ν) (s : LeaseState ι τ ν) : Prop where
  taken : ∀ i a, s.acquired i = some a → a ∈ timing.readings
  stamped : ∀ i a, s.acquired i = some a → timing.Valid a s.clock →
    ∃ v, s.key = some v ∧ timing.stamp a ≤ v ∧ v ≤ timing.stamp (timing.now s.clock)
  unique : ∀ i j, s.Holds timing i → s.Holds timing j → i = j

omit [DecidableEq ι] in
/-- Once the clock is read past the stamp of the key, no lease is running. -/
theorem Leased.no_holder (leased : Leased timing s) (hspan : s.clock ∈ timing.span)
    (hexpired : ∀ v, s.key = some v → v < timing.now s.clock) (i : ι) :
    ¬ s.Holds timing i := by
  rintro ⟨a, hacquired, hvalid⟩
  obtain ⟨v, hkey, hlow, -⟩ := leased.stamped i a hacquired hvalid
  have hlate : timing.stamp a < timing.now s.clock := hlow.trans_lt (hexpired v hkey)
  exact timing.ended a (leased.taken i a hacquired) s.clock hspan hlate hvalid

/-- When `i` gets a fresh lease and nobody else has one, there is one holder. -/
theorem leased_of_fresh {i : ι} (leased : Leased timing s) (hspan : s.clock ∈ timing.span)
    (hothers : ∀ j, j ≠ i → ¬ s.Holds timing j) (hclock : s'.clock = s.clock)
    (hkey : s'.key = some (timing.stamp (timing.now s.clock)))
    (hacquired : s'.acquired = Function.update s.acquired i (some (timing.now s.clock))) :
    Leased timing s' := by
  have honly : ∀ j, s'.Holds timing j → j = i := by
    rintro j ⟨a, hj, hvalid⟩
    by_contra hne
    rw [hacquired, Function.update_of_ne hne] at hj
    rw [hclock] at hvalid
    exact hothers j hne ⟨a, hj, hvalid⟩
  refine ⟨fun j a hj => ?_, fun j a hj hvalid => ?_,
    fun j k hj hk => (honly j hj).trans (honly k hk).symm⟩
  · by_cases hji : j = i
    · subst hji
      rw [hacquired, Function.update_self] at hj
      cases hj
      exact timing.now_mem _ hspan
    · rw [hacquired, Function.update_of_ne hji] at hj
      exact leased.taken j a hj
  · obtain rfl : j = i := honly j ⟨a, hj, hvalid⟩
    rw [hacquired, Function.update_self] at hj
    cases hj
    exact ⟨_, hkey, le_rfl, by rw [hclock]⟩

/-- One event leaves at most one holder. -/
theorem Leased.change (leased : Leased timing s) (hspan : s.clock ∈ timing.span)
    (hspan' : s'.clock ∈ timing.span) (change : LeaseChange timing s s') : Leased timing s' := by
  -- a lease that runs afterwards was running before
  have hback : s.clock ≤ s'.clock → s'.acquired = s.acquired →
      ∀ i, s'.Holds timing i → s.Holds timing i := by
    rintro hclock hacquired i ⟨a, hi, hvalid⟩
    rw [hacquired] at hi
    exact ⟨a, hi, timing.valid_anti a _ _ hclock hvalid⟩
  cases change with
  | quiet hclock hkey hacquired =>
      refine ⟨fun i a hi => leased.taken i a (hacquired ▸ hi), fun i a hi hvalid => ?_,
        fun i j hi hj => leased.unique i j (hback hclock hacquired i hi)
          (hback hclock hacquired j hj)⟩
      rw [hacquired] at hi
      obtain ⟨v, hv, hlow, hhigh⟩ :=
        leased.stamped i a hi (timing.valid_anti a _ _ hclock hvalid)
      exact ⟨v, hkey.trans hv, hlow, hhigh.trans (timing.stamp_mono _ hspan _ hspan' hclock)⟩
  | overwrite hclock hkey hacquired =>
      refine ⟨fun i a hi => leased.taken i a (hacquired ▸ hi), fun i a hi hvalid => ?_,
        fun i j hi hj => leased.unique i j (hback hclock.ge hacquired i hi)
          (hback hclock.ge hacquired j hj)⟩
      rw [hacquired] at hi
      rw [hclock] at hvalid ⊢
      -- the stamp written now is no earlier than the one it replaces
      obtain ⟨v, -, hlow, hhigh⟩ := leased.stamped i a hi hvalid
      exact ⟨_, hkey, hlow.trans hhigh, le_rfl⟩
  | acquire i hclock hkey hexpired hacquired =>
      exact leased_of_fresh leased hspan (fun j _ => leased.no_holder hspan hexpired j) hclock
        hkey hacquired
  | renew i hholds hclock hkey hacquired =>
      exact leased_of_fresh leased hspan
        (fun j hj hholds' => hj (leased.unique j i hholds' hholds)) hclock hkey hacquired
  | release i hholds hclock hkey hacquired =>
      have hnone : ∀ j, ¬ s'.Holds timing j := by
        rintro j ⟨a, hj, hvalid⟩
        by_cases hji : j = i
        · subst hji
          rw [hacquired, Function.update_self] at hj
          cases hj
        · rw [hacquired, Function.update_of_ne hji] at hj
          rw [hclock] at hvalid
          exact hji (leased.unique j i ⟨a, hj, hvalid⟩ hholds)
      refine ⟨fun j a hj => ?_, fun j a hj hvalid => absurd ⟨a, hj, hvalid⟩ (hnone j),
        fun j k hj _ => absurd hj (hnone j)⟩
      by_cases hji : j = i
      · subst hji
        rw [hacquired, Function.update_self] at hj
        cases hj
      · rw [hacquired, Function.update_of_ne hji] at hj
        exact leased.taken j a hj

omit [DecidableEq ι] in
theorem leased_of_new (hnone : ∀ i, s.acquired i = none) : Leased timing s := by
  have hnot : ∀ i a, s.acquired i ≠ some a := fun i a h => by
    rw [hnone] at h
    cases h
  exact ⟨fun i a hi => absurd hi (hnot i a), fun i a hi _ => absurd hi (hnot i a),
    fun i _ ⟨a, hi, _⟩ => absurd hi (hnot i a)⟩

end

end Foundation
end ArmyRs
