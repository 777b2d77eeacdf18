import ArmyRs.Foundation.Parties
import ArmyRs.Foundation.Transition
import Mathlib.Logic.Function.Basic

/-!
# Remote calls over queues

A call of `RedisRpc` takes an id from a counter in Redis, enqueues its request, enters
its stub in the table of waiting calls and then sleeps and polls until the stub is
notified or the time is up.  Replies come in one queue; whoever polls takes one out,
under the mutex of the queue, and notifies the stub that is entered for its id.  The
work loop of the endpoint takes replies out of the same queue.

The result is kept in the stub, which can be shared by several calls.  Every Redis
command and every sleep lets other fibers go on; what a fiber does in between is one
step.  `message` is a record of what has become of the request and the reply of a call,
and requests and replies name their call in the record; no operation reads either.
-/

namespace ArmyRs
namespace Messaging
namespace RedisRpc

variable {Value : Type*}

/-- A stub: its options in milliseconds, `@cur_result` and `@returned`. -/
structure Stub (Value : Type*) where
  pollInterval : Nat
  callTimeout : Nat
  curResult : Option Value
  returned : Bool

/-- Where a call is. -/
inductive Stage (Value : Type*)
  /-- About to take an id. -/
  | counting
  /-- About to enqueue its request. -/
  | enqueueing
  /-- The request is in the queue, and the stub is not entered yet. -/
  | published
  | sleeping (waitTime : Nat)
  | polling (waitTime : Nat)
  /-- At the head of the loop. -/
  | checking (waitTime : Nat)
  | returned (result : Value)
  /-- `CallError`. -/
  | callError (result : Value)
  /-- `CallTimeoutError`. -/
  | timedOut
  deriving DecidableEq

/-- What has become of the request and the reply of a call. -/
inductive Message (Value : Type*)
  | unsent
  | requested
  | replied (result : Value)
  | notified (result : Value)
  | dropped (result : Value)
  deriving DecidableEq

structure Call (Value : Type*) where
  stub : Nat
  id : Nat
  stage : Stage Value
  message : Message Value

def Call.new (stub : Nat) : Call Value where
  stub := stub
  id := 0
  stage := .counting
  message := .unsent

structure Request where
  id : Nat
  call : Nat
  deriving DecidableEq, Repr

structure Reply (Value : Type*) where
  id : Nat
  result : Value
  call : Nat

/-- An endpoint with the counter and the queues that it uses.  `hand` is the reply that
is taken out and not processed yet, and the call that took it, if it was not the work
loop; while there is one the mutex is taken. -/
structure Endpoint (Value : Type*) where
  counter : Nat
  requests : List Request
  replies : List (Reply Value)
  hand : Option (Reply Value × Option Nat)
  waitingCalls : Nat → Option Nat
  stubs : Nat → Stub Value
  calls : List (Call Value)

/-- An endpoint whose stubs have the given intervals and timeouts. -/
def Endpoint.new (counter : Nat) (pollInterval callTimeout : Nat → Nat) : Endpoint Value where
  counter := counter
  requests := []
  replies := []
  hand := none
  waitingCalls := fun _ => none
  stubs := fun i => ⟨pollInterval i, callTimeout i, none, false⟩
  calls := []

namespace Endpoint

variable (s : Endpoint Value)

/-- A call moves on. -/
def goTo (i : Nat) (c : Call Value) : Endpoint Value :=
  { s with calls := s.calls.set i c }

/-- `CALL_COUNTER_BLOB`: what the counter is set to. -/
def nextCounter : Nat :=
  if s.counter + 1 > 1000000000 then 1 else s.counter + 1

/-- `add_waiting_call` and `remove_waiting_call`. -/
def setWaiting (id : Nat) (stub : Option Nat) : Endpoint Value :=
  { s with waitingCalls := Function.update s.waitingCalls id stub }

/-- `@cur_result = …; @returned = …`. -/
def setResult (stub : Nat) (result : Option Value) (returned : Bool) : Endpoint Value :=
  { s with
    stubs := Function.update s.stubs stub
      { s.stubs stub with curResult := result, returned := returned } }

/-- `cast` up to the counter: the call takes its id. -/
def count (i : Nat) (c : Call Value) : Endpoint Value :=
  { s with counter := s.nextCounter }.goTo i { c with id := s.nextCounter, stage := .enqueueing }

/-- The end of `cast`: the request is enqueued. -/
def enqueue (i : Nat) (c : Call Value) : Endpoint Value :=
  { s with requests := s.requests ++ [(⟨c.id, i⟩ : Request)] }.goTo i
    { c with stage := .published, message := .requested }

/-- The start of `wait_for_result`, up to the first sleep. -/
def register (i : Nat) (c : Call Value) : Endpoint Value :=
  ((s.setWaiting c.id (some c.stub)).setResult c.stub none false).goTo i
    { c with stage := .sleeping 0 }

/-- After a sleep: the time is up, or the call goes on to poll. -/
def wake (i : Nat) (c : Call Value) (waitTime : Nat) : Endpoint Value :=
  let waitTime := waitTime + (s.stubs c.stub).pollInterval
  if waitTime > (s.stubs c.stub).callTimeout then
    (s.setWaiting c.id none).goTo i { c with stage := .timedOut }
  else s.goTo i { c with stage := .polling waitTime }

/-- `process_one` takes a reply out of the queue, when the mutex is free. -/
def take (owner : Option Nat) : Option (Endpoint Value) :=
  match s.hand, s.replies with
  | none, reply :: replies => some { s with replies := replies, hand := some (reply, owner) }
  | _, _ => none

/-- `process_reply_queue`, up to the reply: without one the call is back at the head of
its loop. -/
def poll (i : Nat) (c : Call Value) (waitTime : Nat) : Option (Endpoint Value) :=
  match s.hand, s.replies with
  | none, [] => some (s.goTo i { c with stage := .checking waitTime })
  | _, _ => s.take (some i)

/-- The head of the loop in `wait_for_result`, and what follows the loop. -/
def check (isCallError : Value → Bool) (i : Nat) (c : Call Value) (waitTime : Nat) :
    Option (Endpoint Value) :=
  if (s.stubs c.stub).returned then
    match (s.stubs c.stub).curResult with
    | none => none
    | some result =>
        if isCallError result then some (s.goTo i { c with stage := .callError result })
        else some (s.goTo i { c with stage := .returned result })
  else some (s.goTo i { c with stage := .sleeping waitTime })

/-- The next step of a call. -/
def advance (isCallError : Value → Bool) (i : Nat) : Option (Endpoint Value) :=
  match s.calls[i]? with
  | none => none
  | some c =>
      match c.stage with
      | .counting => some (s.count i c)
      | .enqueueing => some (s.enqueue i c)
      | .published => some (s.register i c)
      | .sleeping waitTime => some (s.wake i c waitTime)
      | .polling waitTime => s.poll i c waitTime
      | .checking waitTime => s.check isCallError i c waitTime
      | .returned _ => none
      | .callError _ => none
      | .timedOut => none

/-- What becomes of the reply of a call is recorded. -/
def setMessage (i : Nat) (message : Message Value) : Endpoint Value :=
  match s.calls[i]? with
  | none => s
  | some c => s.goTo i { c with message := message }

/-- The other end takes a request out of the queue and replies. -/
def serve (request : Request) (result : Value) : Endpoint Value :=
  { s with
    requests := s.requests.erase request
    replies := s.replies ++ [(⟨request.id, result, request.call⟩ : Reply Value)] }.setMessage
      request.call (.replied result)

/-- `notify_waiting_call`. -/
def notifyWaitingCall (reply : Reply Value) : Endpoint Value :=
  let removed := s.setWaiting reply.id none
  match s.waitingCalls reply.id with
  | none => removed.setMessage reply.call (.dropped reply.result)
  | some stub =>
      (removed.setResult stub (some reply.result) true).setMessage reply.call
        (.notified reply.result)

/-- The call that took a reply out is back at the head of its loop. -/
def release (owner : Option Nat) : Endpoint Value :=
  match owner with
  | none => s
  | some i =>
      match s.calls[i]? with
      | none => s
      | some c =>
          match c.stage with
          | .polling waitTime => s.goTo i { c with stage := .checking waitTime }
          | _ => s

end Endpoint

/-! ## Events -/

inductive Event (Value : Type*)
  /-- A fiber calls through a stub. -/
  | call (stub : Nat)
  | advance (call : Nat)
  /-- The other end serves the request of a call. -/
  | serve (call : Nat) (result : Value)
  /-- The work loop takes a reply out of the queue. -/
  | workLoop
  /-- The reply that was taken out is processed. -/
  | handle

def step (isCallError : Value → Bool) (s : Endpoint Value) :
    Event Value → Option (Endpoint Value)
  | .call stub => some { s with calls := s.calls ++ [.new stub] }
  | .advance i => s.advance isCallError i
  | .serve i result =>
      match s.requests.find? fun request => request.call = i with
      | none => none
      | some request => some (s.serve request result)
  | .workLoop => s.take none
  | .handle =>
      match s.hand with
      | none => none
      | some (reply, owner) =>
          some (({ s with hand := none }.notifyWaitingCall reply).release owner)

end RedisRpc
end Messaging
end ArmyRs
