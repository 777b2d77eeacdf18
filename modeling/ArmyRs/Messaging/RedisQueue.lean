import Mathlib.Logic.Function.Basic
import ArmyRs.Foundation.RedisLists
import ArmyRs.Foundation.Transition

/-!
# The reliable queue

A `RedisQueue` keeps its messages in two Redis lists: messages are pushed to the
left of the queue, and a message that is popped moves from the right of the queue
to the left of the process queue, until it is committed.  After a failure the
process queue is refilled into the queue.

The lists are shared by all the `RedisQueue` objects with their names, in all
processes; an object remembers the message it popped last.  A fiber in
`process_one` holds the message it popped while its block runs.

`pushed` and `committed` record what was handed to the queue and what consumers
have committed; no operation reads them.
-/

namespace ArmyRs
namespace Messaging

open Foundation

/-- The two lists, the `RedisQueue` objects, the fibers in `process_one`, and the
record. -/
structure RedisQueue where
  queue : List String
  processQueue : List String
  lastMessage : Nat → Option String
  handling : Nat → Option (Nat × Option String)
  pushed : List String
  committed : List String

def RedisQueue.new : RedisQueue where
  queue := []
  processQueue := []
  lastMessage := fun _ => none
  handling := fun _ => none
  pushed := []
  committed := []

namespace RedisQueue

/-- `push`. -/
def push (q : RedisQueue) (obj : String) : RedisQueue :=
  { q with queue := lpush [obj] q.queue, pushed := obj :: q.pushed }

/-- `push_batch`. -/
def pushBatch (q : RedisQueue) (args : List String) : RedisQueue :=
  { q with queue := lpush args q.queue, pushed := lpush args q.pushed }

/-- `pop`, which answers with the message and remembers it in the object. -/
def pop (q : RedisQueue) (object : Nat) : Option String × RedisQueue :=
  match rpoplpush q.queue q.processQueue with
  | none => (none, { q with lastMessage := Function.update q.lastMessage object none })
  | some (message, queue, processQueue) =>
      (some message,
        { q with
          queue := queue
          processQueue := processQueue
          lastMessage := Function.update q.lastMessage object (some message) })

/-- What `lrem` gets as the value: the client writes a missing message as the
empty string. -/
def lremValue (q : RedisQueue) (object : Nat) : String :=
  (q.lastMessage object).getD ""

/-- `commit` by a consumer of `message`. -/
def commit (q : RedisQueue) (object : Nat) (message : Option String) : RedisQueue :=
  { q with
    processQueue := lrem 0 (q.lremValue object) q.processQueue
    committed := message.toList ++ q.committed }

/-- The loop of `refill`: messages are popped from the left of the process queue
and pushed to the right of the queue. -/
def refillLoop : List String → List String → List String
  | queue, [] => queue
  | queue, message :: processQueue => refillLoop (queue ++ [message]) processQueue

/-- `refill`. -/
def refill (q : RedisQueue) : RedisQueue :=
  { q with queue := refillLoop q.queue q.processQueue, processQueue := [] }

/-- A fiber leaves `process_one`. -/
def release (q : RedisQueue) (fiber : Nat) : RedisQueue :=
  { q with handling := Function.update q.handling fiber none }

end RedisQueue

inductive Event
  | push (obj : String)
  | pushBatch (args : List String)
  | pop (object : Nat)
  | commit (object : Nat)
  | refill
  /-- A fiber calls `process_one` and pops a message. -/
  | processOne (fiber object : Nat)
  /-- The block has answered; a true answer commits. -/
  | finish (fiber : Nat) (ret : Bool)
  /-- The block raises. -/
  | fail (fiber : Nat)
  /-- The process of an object and of its fibers is restarted. -/
  | restart (object : Nat)
  deriving DecidableEq, Repr

/-- What an event commits: by which object, and which message. -/
def committing (q : RedisQueue) : Event → Option (Nat × Option String)
  | .commit object => some (object, q.lastMessage object)
  | .finish fiber true => q.handling fiber
  | _ => none

def step (q : RedisQueue) : Event → Option RedisQueue
  | .push obj => some (q.push obj)
  | .pushBatch args => some (q.pushBatch args)
  | .pop object => some (q.pop object).2
  | .commit object => some (q.commit object (q.lastMessage object))
  | .refill => some q.refill
  | .processOne fiber object =>
      match q.handling fiber with
      | some _ => none
      | none =>
          let popped := q.pop object
          some
            { popped.2 with
              handling := Function.update popped.2.handling fiber (some (object, popped.1)) }
  | .finish fiber ret =>
      match q.handling fiber with
      | none => none
      | some (object, message) =>
          some (if ret then (q.commit object message).release fiber else q.release fiber)
  | .fail fiber =>
      match q.handling fiber with
      | none => none
      | some _ => some (q.release fiber)
  | .restart object =>
      some
        { q with
          lastMessage := Function.update q.lastMessage object none
          handling := fun fiber =>
            match q.handling fiber with
            | none => none
            | some (other, message) => if other = object then none else some (other, message) }

end Messaging
end ArmyRs
