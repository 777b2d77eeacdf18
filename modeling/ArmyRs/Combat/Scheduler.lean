import Mathlib.Data.List.Nodup
import Mathlib.Data.List.Basic

/-!
# The timers of a service

`Scheduler` keeps the timers of a service as clocks.  One pass first collects the
clocks that are due and takes those out that were stopped; the functions of the
collected clocks are called afterwards.  So a clock that is stopped while a pass
is going on is still called in that pass.

`live` says which handles have a clock that is going to be called.
-/

namespace ArmyRs
namespace Combat

structure Clock (F : Type*) where
  id : Nat
  interval : Nat
  lastTime : Option Nat
  func : F
  stopped : Bool

/-- The time of the last call, or of the first pass. -/
def Clock.last {F : Type*} (clock : Clock F) (now : Nat) : Nat := clock.lastTime.getD now

/-- The clock is collected in a pass. -/
def Clock.due {F : Type*} (clock : Clock F) (now : Nat) : Bool :=
  !clock.stopped && decide (clock.interval < now - clock.last now)

/-- The clock after a pass. -/
def Clock.passed {F : Type*} (clock : Clock F) (now : Nat) : Clock F :=
  { clock with lastTime := if clock.due now then some now else some (clock.last now) }

/-- The clocks of `scheduleWithUpdate`; no two have the same number. -/
structure Scheduler (F : Type*) where
  uuid : Nat
  updateClocks : List (Clock F)
  nodup : (updateClocks.map Clock.id).Nodup
  id_le : ∀ clock ∈ updateClocks, clock.id ≤ uuid

namespace Scheduler

variable {F : Type*}

def new : Scheduler F where
  uuid := 0
  updateClocks := []
  nodup := List.nodup_nil
  id_le := fun _ hclock => absurd hclock List.not_mem_nil

/-- The clocks that are not stopped, by their handle. -/
def live (scheduler : Scheduler F) : List (Nat × F) :=
  (scheduler.updateClocks.filter fun clock => !clock.stopped).map fun clock =>
    (clock.id, clock.func)

theorem mem_live {scheduler : Scheduler F} {id : Nat} {func : F} :
    (id, func) ∈ scheduler.live ↔ ∃ clock ∈ scheduler.updateClocks,
      clock.stopped = false ∧ clock.id = id ∧ clock.func = func := by
  unfold live
  rw [List.mem_map]
  constructor
  · rintro ⟨clock, hclock, heq⟩
    rw [List.mem_filter, Bool.not_eq_true'] at hclock
    rw [Prod.mk.injEq] at heq
    exact ⟨clock, hclock.1, hclock.2, heq⟩
  · rintro ⟨clock, hclock, hstopped, rfl, rfl⟩
    exact ⟨clock, List.mem_filter.mpr ⟨hclock, by rw [hstopped]; rfl⟩, rfl⟩

/-! ## Starting a clock -/

/-- `schedule` answers with the handle of the new clock. -/
def schedule (scheduler : Scheduler F) (interval : Nat) (func : F) : Scheduler F × Nat :=
  ({  uuid := scheduler.uuid + 1
      updateClocks := scheduler.updateClocks ++
        [⟨scheduler.uuid + 1, interval, none, func, false⟩]
      nodup := by
        rw [List.map_append, List.nodup_append]
        refine ⟨scheduler.nodup, List.nodup_singleton _, ?_⟩
        intro id hid other hother
        obtain ⟨clock, hclock, rfl⟩ := List.mem_map.mp hid
        rw [List.mem_singleton.mp hother]
        exact Nat.ne_of_lt (Nat.lt_succ_of_le (scheduler.id_le clock hclock))
      id_le := by
        intro clock hclock
        rcases List.mem_append.mp hclock with hold | hnew
        · exact Nat.le_succ_of_le (scheduler.id_le clock hold)
        · cases List.mem_singleton.mp hnew
          exact Nat.le_refl _ },
    scheduler.uuid + 1)

theorem mem_live_schedule {scheduler : Scheduler F} {interval id : Nat} {func other : F} :
    (id, other) ∈ (scheduler.schedule interval func).1.live ↔
      (id, other) ∈ scheduler.live ∨ id = scheduler.uuid + 1 ∧ other = func := by
  unfold schedule live
  rw [List.filter_append, List.map_append, List.mem_append]
  apply or_congr Iff.rfl
  simp [eq_comm]

/-! ## Stopping a clock -/

/-- The loop of `unscheduleUpdater` ends at the first clock with the number. -/
def stopFirst (id : Nat) : List (Clock F) → List (Clock F)
  | [] => []
  | clock :: clocks =>
      if clock.id = id then { clock with stopped := true } :: clocks
      else clock :: stopFirst id clocks

theorem map_id_stopFirst (id : Nat) (clocks : List (Clock F)) :
    (stopFirst id clocks).map Clock.id = clocks.map Clock.id := by
  induction clocks with
  | nil => rfl
  | cons clock clocks ih =>
      unfold stopFirst
      split
      · rfl
      · rw [List.map_cons, List.map_cons, ih]

/-- `unschedule` -/
def unschedule (scheduler : Scheduler F) (id : Nat) : Scheduler F where
  uuid := scheduler.uuid
  updateClocks := stopFirst id scheduler.updateClocks
  nodup := by
    rw [map_id_stopFirst]
    exact scheduler.nodup
  id_le := by
    intro clock hclock
    have hid : clock.id ∈ (stopFirst id scheduler.updateClocks).map Clock.id :=
      List.mem_map_of_mem hclock
    rw [map_id_stopFirst] at hid
    obtain ⟨old, hold, heq⟩ := List.mem_map.mp hid
    rw [← heq]
    exact scheduler.id_le old hold

/-- Clocks have different numbers, so that the first one is the only one. -/
theorem mem_stopFirst {id : Nat} {clocks : List (Clock F)} (hnodup : (clocks.map Clock.id).Nodup)
    {clock : Clock F} (hstopped : clock.stopped = false) :
    clock ∈ stopFirst id clocks ↔ clock ∈ clocks ∧ clock.id ≠ id := by
  induction clocks with
  | nil => exact ⟨fun h => absurd h List.not_mem_nil, fun h => absurd h.1 List.not_mem_nil⟩
  | cons first clocks ih =>
      rw [List.map_cons, List.nodup_cons] at hnodup
      unfold stopFirst
      split
      · next hfirst =>
        rw [List.mem_cons, List.mem_cons]
        constructor
        · rintro (rfl | hclock)
          · cases hstopped
          · refine ⟨.inr hclock, fun hid => hnodup.1 ?_⟩
            rw [hfirst, ← hid]
            exact List.mem_map_of_mem hclock
        · rintro ⟨rfl | hclock, hid⟩
          · exact absurd hfirst hid
          · exact .inr hclock
      · next hfirst =>
        rw [List.mem_cons, List.mem_cons, ih hnodup.2]
        constructor
        · rintro (rfl | hclock)
          · exact ⟨.inl rfl, hfirst⟩
          · exact ⟨.inr hclock.1, hclock.2⟩
        · rintro ⟨rfl | hclock, hid⟩
          · exact .inl rfl
          · exact .inr ⟨hclock, hid⟩

theorem mem_live_unschedule {scheduler : Scheduler F} {id other : Nat} {func : F} :
    (other, func) ∈ (scheduler.unschedule id).live ↔
      (other, func) ∈ scheduler.live ∧ other ≠ id := by
  rw [mem_live, mem_live]
  constructor
  · rintro ⟨clock, hclock, hstopped, rfl, rfl⟩
    obtain ⟨hclock, hid⟩ := (mem_stopFirst scheduler.nodup hstopped).mp hclock
    exact ⟨⟨clock, hclock, hstopped, rfl, rfl⟩, hid⟩
  · rintro ⟨⟨clock, hclock, hstopped, rfl, rfl⟩, hid⟩
    exact ⟨clock, (mem_stopFirst scheduler.nodup hstopped).mpr ⟨hclock, hid⟩, hstopped, rfl, rfl⟩

/-! ## A pass -/

/-- `runClocks`: what is left, and the functions that are called. -/
def runClocks (scheduler : Scheduler F) (now : Nat) : Scheduler F × List F :=
  ({  uuid := scheduler.uuid
      updateClocks := (scheduler.updateClocks.filter fun clock => !clock.stopped).map
        fun clock => clock.passed now
      nodup := by
        rw [List.map_map]
        exact scheduler.nodup.sublist (List.filter_sublist.map Clock.id)
      id_le := by
        intro clock hclock
        obtain ⟨old, hold, rfl⟩ := List.mem_map.mp hclock
        exact scheduler.id_le old (List.mem_of_mem_filter hold) },
    (scheduler.updateClocks.filter fun clock => clock.due now).map Clock.func)

/-- A pass only removes clocks that were stopped. -/
theorem live_runClocks (scheduler : Scheduler F) (now : Nat) :
    (scheduler.runClocks now).1.live = scheduler.live := by
  unfold runClocks live
  rw [List.filter_map, List.map_map, List.filter_filter]
  apply congrArg
  apply List.filter_congr
  intro clock _
  exact Bool.and_self _

theorem exists_live_of_mem_runClocks {scheduler : Scheduler F} {now : Nat} {func : F}
    (h : func ∈ (scheduler.runClocks now).2) : ∃ id, (id, func) ∈ scheduler.live := by
  obtain ⟨clock, hclock, rfl⟩ := List.mem_map.mp h
  rw [List.mem_filter] at hclock
  have hdue := hclock.2
  unfold Clock.due at hdue
  rw [Bool.and_eq_true, Bool.not_eq_true'] at hdue
  exact ⟨clock.id, mem_live.mpr ⟨clock, hclock.1, hdue.1, rfl, rfl⟩⟩

end Scheduler

end Combat
end ArmyRs
