import ArmyRs.Foundation.Buckets
import ArmyRs.Foundation.TimingWheel
import ArmyRs.Foundation.Transition

/-!
# The timer of skynet

`skynet_timer.c` keeps timers in 256 lists for the near future and four levels of 64
lists for what is further away.  Time is a word of 32 bits.  `addNode` finds the list of
a node by comparing the leading bits of its time with those of the present, and
`timerShift` moves one list to finer ones when the low bits of the time become zero.

The timer thread runs `skynetUpdatetime` over and over; workers call `skynetTimeout` at
any time at which the thread does not hold the lock, which it releases while it
dispatches.  The events of `step` are the sections between these points.
-/

namespace ArmyRs
namespace Skynet

open Foundation

def TIME_NEAR_SHIFT : ℕ := 8
def TIME_NEAR : BitVec 32 := 1 <<< TIME_NEAR_SHIFT
def TIME_LEVEL_SHIFT : ℕ := 6
def TIME_LEVEL : BitVec 32 := 1 <<< TIME_LEVEL_SHIFT
def TIME_NEAR_MASK : BitVec 32 := TIME_NEAR - 1
def TIME_LEVEL_MASK : BitVec 32 := TIME_LEVEL - 1

structure TimerEvent where
  handle : BitVec 32
  session : BitVec 32
deriving DecidableEq

structure TimerNode where
  event : TimerEvent
  expire : BitVec 32
deriving DecidableEq

/-- `near[idx]` is the list of the slot `.near idx`, `t[i][idx]` that of `.level i idx`. -/
structure Timer where
  lists : Slot → List TimerNode
  time : BitVec 32

def timerCreateTimer : Timer := ⟨fun _ => [], 0⟩

/-! ## add_node -/

/-- The loop over the levels; `left` of them are compared. -/
def findLevel (current time : BitVec 32) : ℕ → ℕ → BitVec 32 → ℕ
  | 0, i, _ => i
  | left + 1, i, mask =>
      if time ||| (mask - 1) = current ||| (mask - 1) then i
      else findLevel current time left (i + 1) (mask <<< TIME_LEVEL_SHIFT)

/-- The list of a time. -/
def listOf (current time : BitVec 32) : Slot :=
  if time ||| TIME_NEAR_MASK = current ||| TIME_NEAR_MASK then
    .near (time &&& TIME_NEAR_MASK).toNat
  else
    let i := findLevel current time 3 0 (TIME_NEAR <<< TIME_LEVEL_SHIFT)
    .level i ((time >>> (TIME_NEAR_SHIFT + i * TIME_LEVEL_SHIFT)) &&& TIME_LEVEL_MASK).toNat

def addNode (T : Timer) (node : TimerNode) : Timer :=
  { T with lists := putInto (fun node => listOf T.time node.expire) T.lists node }

def timerAdd (T : Timer) (event : TimerEvent) (time : BitVec 32) : Timer :=
  addNode T ⟨event, time + T.time⟩

/-! ## timer_shift -/

def moveList (T : Timer) (level idx : ℕ) : Timer :=
  let current := T.lists (.level level idx)
  current.foldl addNode { T with lists := Function.update T.lists (.level level idx) [] }

/-- The loop of `timer_shift`: which list is moved, if any.  The time is not zero, so that
four rounds are enough. -/
def shiftFrom (ct : BitVec 32) : ℕ → ℕ → BitVec 32 → BitVec 32 → Option (ℕ × ℕ)
  | 0, _, _, _ => none
  | left + 1, i, mask, time =>
      if ct &&& (mask - 1) = 0 then
        let idx := time &&& TIME_LEVEL_MASK
        if idx ≠ 0 then some (i, idx.toNat)
        else shiftFrom ct left (i + 1) (mask <<< TIME_LEVEL_SHIFT) (time >>> TIME_LEVEL_SHIFT)
      else none

def shiftedList (ct : BitVec 32) : Option (ℕ × ℕ) :=
  if ct = 0 then some (3, 0) else shiftFrom ct 4 0 TIME_NEAR (ct >>> TIME_NEAR_SHIFT)

def timerShift (T : Timer) : Timer :=
  let ct := T.time + 1
  let T := { T with time := ct }
  match shiftedList ct with
  | none => T
  | some (level, idx) => moveList T level idx

/-! ## timer_execute -/

/-- The list that `timer_execute` looks at. -/
def presentList (T : Timer) : Slot := .near (T.time &&& TIME_NEAR_MASK).toNat

/-- The list is taken; its nodes are dispatched without the lock. -/
def takePresent (T : Timer) : List TimerNode × Timer :=
  (T.lists (presentList T), { T with lists := Function.update T.lists (presentList T) [] })

/-! ## The timer thread and the workers -/

/-- Where the timer thread is: between two calls of `timer_update`, or in one, before or
after the time has been shifted. -/
inductive Phase
  | idle
  | before
  | after
deriving DecidableEq

/-- `left` is the number of rounds that `skynet_updatetime` has still to make.

The last three fields are not in the program: the ticks since the start, every timer that
was set with the tick at which it is due, and every message of a timer with the tick at
which it was pushed. -/
structure TimerState where
  T : Timer
  current : BitVec 64
  currentPoint : BitVec 64
  left : ℕ
  phase : Phase
  ticks : ℕ
  set : List (ℕ × TimerEvent)
  pushed : List (ℕ × TimerEvent)

/-- After `skynet_timer_init`. -/
def timerInit (current currentPoint : BitVec 64) : TimerState :=
  ⟨timerCreateTimer, current, currentPoint, 0, .idle, 0, [], []⟩

inductive TimerStep
  | timeout (event : TimerEvent) (time : BitVec 32)
  | updatetime (cp : BitVec 64)
  | begin
  | execute
  | shift
  | finish

/-- A time that is not positive is answered at once and sets no timer. -/
def skynetTimeout (s : TimerState) (event : TimerEvent) (time : BitVec 32) : TimerState :=
  if time.toInt ≤ 0 then s
  else { s with T := timerAdd s.T event time, set := s.set ++ [(s.ticks + time.toNat, event)] }

/-- The clock has moved on, or was set back. -/
def skynetUpdatetime (s : TimerState) (cp : BitVec 64) : TimerState :=
  if cp.toNat < s.currentPoint.toNat then { s with currentPoint := cp }
  else
    let diff : BitVec 32 := (cp - s.currentPoint).setWidth 32
    { s with currentPoint := cp, current := s.current + diff.setWidth 64, left := diff.toNat }

def step (s : TimerState) : TimerStep → Option TimerState
  | .timeout event time => some (skynetTimeout s event time)
  | .updatetime cp =>
      if s.phase = .idle ∧ s.left = 0 then some (skynetUpdatetime s cp) else none
  | .begin => if s.phase = .idle ∧ 0 < s.left then some { s with phase := .before } else none
  | .execute =>
      if s.phase ≠ .idle ∧ s.T.lists (presentList s.T) ≠ [] then
        let (nodes, T) := takePresent s.T
        some { s with T, pushed := s.pushed ++ nodes.map fun node => (s.ticks, node.event) }
      else none
  | .shift =>
      if s.phase = .before ∧ s.T.lists (presentList s.T) = [] then
        some { s with T := timerShift s.T, ticks := s.ticks + 1, phase := .after }
      else none
  | .finish =>
      if s.phase = .after ∧ s.T.lists (presentList s.T) = [] then
        some { s with phase := .idle, left := s.left - 1 }
      else none

end Skynet
end ArmyRs
