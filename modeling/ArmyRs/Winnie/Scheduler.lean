import Mathlib.Data.Rat.Defs
import Mathlib.Algebra.Order.Field.Rat
import Mathlib.Logic.Function.Basic
import ArmyRs.Foundation.Pools
import ArmyRs.Foundation.Transition

/-!
# The scheduler of a service

`Scheduler` keeps clocks of five kinds.  A tick makes a pass over the clocks of
each kind: it collects the clocks that are due, takes out those that were
stopped, and calls the functions of the collected clocks afterwards.  The clock
objects come from a pool and go back to it when they are taken out.

The functions that are called may schedule and unschedule themselves.  So a pass
is a step that collects and one step for each call, and what the functions do
stands between these steps.

`log` records what happened, by the handles of the clocks; nothing reads it.
-/

namespace ArmyRs
namespace Winnie

open Foundation

inductive Kind
  | beginupdate
  | preupdate
  | update
  | lateupdate
  | endupdate
  deriving DecidableEq, Repr

/-- A clock object.  `func` is what is called, with its host. -/
structure Clock (F : Type*) where
  id : Nat
  kind : Kind
  interval : ℚ
  lastTime : Option ℚ
  func : Option F
  stopped : Bool

/-- What happened to the clock of a handle. -/
inductive Entry (F : Type*)
  | scheduled (kind : Kind) (id : Nat) (func : F)
  /-- `performWithDelay` gives no handle away. -/
  | delayed (id : Nat) (func : F)
  | unscheduled (kind : Kind) (id : Nat)
  | ran (kind : Kind) (id : Nat) (func : F)
  deriving DecidableEq, Repr

structure Scheduler (F : Type*) where
  /-- The clock objects. -/
  clock : Nat → Clock F
  clockPool : Pool
  /-- `beginupdateClocks`, `preupdateClocks` and so on. -/
  clocks : Kind → List Nat
  uuid : Nat
  /-- The collected clocks that are still to be called. -/
  currentFuncs : List Nat
  /-- The time of the pass. -/
  now : ℚ
  log : List (Entry F)

variable {F : Type*}

/-- `clock.lastTime = clock.lastTime or now` -/
def Clock.touch (clock : Clock F) (now : ℚ) : Clock F :=
  { clock with lastTime := some (clock.lastTime.getD now) }

/-- The clock is collected. -/
def Clock.due (clock : Clock F) (now : ℚ) : Bool :=
  !clock.stopped && decide (1 / 1000 ≤ now - clock.lastTime.getD now - clock.interval)

/-- The delayed function has this number. -/
def isDelayed (id : Nat) : Entry F → Bool
  | .delayed other _ => other = id
  | _ => false

/-- The clock of this number is called. -/
def isRan (id : Nat) : Entry F → Bool
  | .ran _ other _ => other = id
  | _ => false

namespace Scheduler

/-- `makeClock` -/
def makeClock (s : Scheduler F) (kind : Kind) (interval : ℚ) (func : F) : Nat × Scheduler F :=
  let (clock, clockPool) := s.clockPool.borrow
  (clock, { s with
    clock := Function.update s.clock clock ⟨s.uuid + 1, kind, interval, none, some func, false⟩
    clockPool := clockPool
    uuid := s.uuid + 1 })

/-- `scheduleWithUpdate` and its siblings. -/
def scheduleWith (s : Scheduler F) (kind : Kind) (interval : ℚ) (func : F) : Scheduler F :=
  let (clock, s) := s.makeClock kind interval func
  { s with clocks := Function.update s.clocks kind (s.clocks kind ++ [clock]) }

/-- `schedule`, and its handle in the log. -/
def schedule (s : Scheduler F) (kind : Kind) (interval : ℚ) (func : F) : Scheduler F :=
  { s.scheduleWith kind interval func with
    log := s.log ++ [.scheduled kind (s.uuid + 1) func] }

/-- `performWithDelay`: a clock like any other. -/
def performWithDelay (s : Scheduler F) (delay : ℚ) (func : F) : Scheduler F :=
  { s.scheduleWith .update delay func with log := s.log ++ [.delayed (s.uuid + 1) func] }

/-- `unscheduleUpdater` -/
def unscheduleUpdater (s : Scheduler F) (kind : Kind) (id : Nat) : Scheduler F :=
  match (s.clocks kind).find? fun ref => (s.clock ref).id = id with
  | none => s
  | some ref =>
      { s with clock := Function.update s.clock ref { s.clock ref with stopped := true } }

/-- `unschedule` and its siblings. -/
def unschedule (s : Scheduler F) (kind : Kind) (id : Nat) : Scheduler F :=
  { s.unscheduleUpdater kind id with log := s.log ++ [.unscheduled kind id] }

/-- The first loop of `runClocks`. -/
def collect (s : Scheduler F) (kind : Kind) (now : ℚ) : Scheduler F :=
  { s with
    clock := fun ref => if ref ∈ s.clocks kind then (s.clock ref).touch now else s.clock ref
    currentFuncs := (s.clocks kind).filter fun ref => (s.clock ref).due now
    now := now }

/-- The second loop of `runClocks`, from the last clock to the first. -/
def removeStopped (s : Scheduler F) (kind : Kind) : Scheduler F :=
  let toRemove := (s.clocks kind).filter fun ref => (s.clock ref).stopped
  { s with
    clock := fun ref => if ref ∈ toRemove then { s.clock ref with func := none } else s.clock ref
    clockPool := toRemove.reverse.foldl Pool.recycle s.clockPool
    clocks := Function.update s.clocks kind
      ((s.clocks kind).filter fun ref => !(s.clock ref).stopped) }

/-- `runClocks`, up to the calls. -/
def runClocks (s : Scheduler F) (kind : Kind) (now : ℚ) : Scheduler F :=
  (s.collect kind now).removeStopped kind

/-- One round of the last loop of `runClocks`.  A clock without a function is an
error. -/
def call (s : Scheduler F) : Option (Scheduler F) :=
  match s.currentFuncs with
  | [] => none
  | ref :: rest =>
      match (s.clock ref).func with
      | none => none
      | some func =>
          some { s with
            clock := Function.update s.clock ref { s.clock ref with lastTime := some s.now }
            currentFuncs := rest
            log := s.log ++ [.ran (s.clock ref).kind (s.clock ref).id func] }

def new : Scheduler F where
  clock := fun _ => ⟨0, .update, 0, none, none, false⟩
  clockPool := Pool.new 1024
  clocks := fun _ => []
  uuid := 0
  currentFuncs := []
  now := 0
  log := []

end Scheduler

/-! ## Steps -/

inductive Event (F : Type*)
  | schedule (kind : Kind) (interval : ℚ) (func : F)
  | performWithDelay (delay : ℚ) (func : F)
  | unschedule (kind : Kind) (id : Nat)
  | runClocks (kind : Kind) (now : ℚ)
  | call

/-- A pass starts when the calls of the one before have been made. -/
def step (s : Scheduler F) : Event F → Option (Scheduler F)
  | .schedule kind interval func => some (s.schedule kind interval func)
  | .performWithDelay delay func => some (s.performWithDelay delay func)
  | .unschedule kind id => some (s.unschedule kind id)
  | .runClocks kind now => if s.currentFuncs = [] then some (s.runClocks kind now) else none
  | .call => s.call

/-- No clock is unscheduled that is collected and still to be called, and no pass
collects a delayed function that has been called. -/
def Heeds (s : Scheduler F) : Event F → Prop
  | .unschedule kind id =>
      ∀ ref ∈ s.currentFuncs, (s.clock ref).kind = kind → (s.clock ref).id ≠ id
  | .runClocks kind now =>
      ∀ ref ∈ s.clocks kind, (s.clock ref).due now = true →
        s.log.any (isDelayed (s.clock ref).id) = true →
          s.log.any (isRan (s.clock ref).id) = false
  | _ => True

instance decidableHeeds (s : Scheduler F) : (event : Event F) → Decidable (Heeds s event)
  | .unschedule kind id =>
      inferInstanceAs (Decidable (∀ ref ∈ s.currentFuncs,
        (s.clock ref).kind = kind → (s.clock ref).id ≠ id))
  | .runClocks kind now =>
      inferInstanceAs (Decidable (∀ ref ∈ s.clocks kind, (s.clock ref).due now = true →
        s.log.any (isDelayed (s.clock ref).id) = true →
          s.log.any (isRan (s.clock ref).id) = false))
  | .schedule .. | .performWithDelay .. | .call => inferInstanceAs (Decidable True)

end Winnie
end ArmyRs
