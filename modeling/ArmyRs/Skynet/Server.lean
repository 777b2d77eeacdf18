import ArmyRs.Foundation.Transition
import ArmyRs.Skynet.MessageQueue

/-!
# Services, queues and threads

`skynet_server.c` with the queues of `skynet_mq.c`, as seen by any number of threads.  A
service has a context, whose references are counted, and a queue, which outlives the
context.  The queue is in the global queue, or with one thread, or empty and with none.

A thread is at one of the points of `Thread`; an action takes it to the next.  The code
between two points takes a lock once or changes one counter, so that the runs of `step`
are the interleavings of the threads.  `fault` is set when the code uses memory that has
been freed, or when an assertion fails.

Services are numbered; the number is the handle.  A number is not used again, and it is
not known to others before `skynet_context_new` has made the queue.
-/

namespace ArmyRs
namespace Skynet

open Foundation

/-- A service.  `present` and `allocated` say whether the memory of the context and of the
queue is in use, `registered` whether the handle is in the table.

The last four fields are not in the program: whether the number has been used, and the
messages that were pushed, taken by the service, and dropped. -/
structure Service (μ : Type*) where
  present : Bool
  registered : Bool
  ref : ℕ
  init : Bool
  allocated : Bool
  queue : MessageQueue μ
  used : Bool
  pushed : List μ
  handled : List μ
  dropped : List μ

/-- Where a thread is. -/
inductive Thread (μ : Type*)
  /-- outside, or a worker without a queue -/
  | free
  /-- `skynet_context_new` runs the init function -/
  | creating (s : ℕ)
  /-- it has released the context, which is there or not -/
  | launching (s : ℕ) (ret : Bool)
  /-- it has pushed the queue, and writes a line about the context -/
  | logging (s : ℕ)
  /-- the init function has failed, and the handle is to be retired -/
  | failing (s : ℕ)
  /-- the queue is to be released -/
  | abandoning (s : ℕ)
  /-- a worker with a queue -/
  | holding (s : ℕ)
  /-- a worker that has the context; `i` of `n` messages are done -/
  | grabbed (s i n : ℕ)
  /-- the callback of the service runs -/
  | handling (s i n : ℕ)
  /-- the messages are done and another queue has been taken -/
  | swapping (s next : ℕ)
  /-- the messages of the queue are dropped -/
  | dropping (s : ℕ)
  /-- `skynet_context_push` has the context -/
  | pushing (s : ℕ) (message : μ)
  /-- the context is to be released -/
  | releasing (s : ℕ) (next : Thread μ)
  /-- the last reference is gone -/
  | deleting (s : ℕ) (next : Thread μ)
deriving DecidableEq

/-- What a thread does next, where there is a choice. -/
inductive Act (μ : Type*)
  /-- `skynet_context_new`, as far as the init function -/
  | create (s : ℕ)
  /-- the init function returns -/
  | initialized (ok : Bool)
  /-- the next action of `skynet_context_new` -/
  | proceed
  /-- `skynet_context_release` -/
  | release
  /-- `delete_context` -/
  | delete
  /-- `skynet_mq_release` -/
  | releaseQueue
  /-- a worker takes a queue from the global queue -/
  | fetch
  /-- a worker looks the context up -/
  | grab
  /-- a worker takes a message; the weight is of the worker, nothing when negative -/
  | pop (weight : Option ℕ)
  /-- the callback returns -/
  | finish
  /-- the loop is over, and another queue is taken if there is one -/
  | leave
  /-- the queue is put back -/
  | putBack
  /-- a message is dropped, or the queue is freed -/
  | drop
  /-- `skynet_context_push` looks the context up -/
  | send (s : ℕ) (message : μ)
  /-- the message is pushed -/
  | push
  /-- `skynet_handle_retire` -/
  | retire (s : ℕ)

structure Node (μ : Type*) where
  service : ℕ → Service μ
  global : List ℕ
  threads : List (Thread μ)
  fault : Bool

section

variable {μ : Type*}

namespace Node

/-- A service changes. -/
def put (n : Node μ) (s : ℕ) (sv : Service μ) : Node μ :=
  { n with service := Function.update n.service s sv }

/-- The thread goes on. -/
def goto (n : Node μ) (i : ℕ) (t : Thread μ) : Node μ := { n with threads := n.threads.set i t }

/-- What has to hold for the code to be right. -/
def check (n : Node μ) (ok : Bool) : Node μ := { n with fault := n.fault || !ok }

/-- `skynet_globalmq_push`, with its assertion that the queue is not in the list. -/
def globalPush (n : Node μ) (s : ℕ) : Node μ :=
  { n with global := n.global ++ [s], fault := n.fault || n.global.contains s }

section

variable (n : Node μ) (s i : ℕ) (sv : Service μ) (t : Thread μ) (ok : Bool)

@[simp] theorem service_put_self : (n.put s sv).service s = sv := Function.update_self _ _ _
@[simp] theorem put_self : n.put s (n.service s) = n := by
  rw [put, Function.update_eq_self]

@[simp] theorem global_put : (n.put s sv).global = n.global := rfl
@[simp] theorem threads_put : (n.put s sv).threads = n.threads := rfl
@[simp] theorem fault_put : (n.put s sv).fault = n.fault := rfl

@[simp] theorem service_goto : (n.goto i t).service = n.service := rfl
@[simp] theorem global_goto : (n.goto i t).global = n.global := rfl
@[simp] theorem threads_goto : (n.goto i t).threads = n.threads.set i t := rfl
@[simp] theorem fault_goto : (n.goto i t).fault = n.fault := rfl

@[simp] theorem service_check : (n.check ok).service = n.service := rfl
@[simp] theorem global_check : (n.check ok).global = n.global := rfl
@[simp] theorem threads_check : (n.check ok).threads = n.threads := rfl
@[simp] theorem fault_check : (n.check ok).fault = (n.fault || !ok) := rfl

@[simp] theorem service_globalPush : (n.globalPush s).service = n.service := rfl
@[simp] theorem global_globalPush : (n.globalPush s).global = n.global ++ [s] := rfl
@[simp] theorem threads_globalPush : (n.globalPush s).threads = n.threads := rfl
@[simp] theorem fault_globalPush :
    (n.globalPush s).fault = (n.fault || n.global.contains s) := rfl

variable {s}

theorem service_put_of_ne {s' : ℕ} (h : s' ≠ s) : (n.put s sv).service s' = n.service s' :=
  Function.update_of_ne h _ _

end

end Node

/-- The context has two references, one of the table and one of its creator. -/
def createService (memory : ℕ → μ) : Service μ where
  present := true
  registered := true
  ref := 2
  init := false
  allocated := true
  queue := skynetMqCreate memory
  used := true
  pushed := []
  handled := []
  dropped := []

/-- A number that has not been used. -/
def unused (memory : ℕ → μ) : Service μ :=
  { createService memory with
    present := false, registered := false, ref := 0, allocated := false, used := false }

/-- `skynet_mq_mark_release` and the end of `delete_context`. -/
def deleteContext (n : Node μ) (s : ℕ) : Node μ :=
  let sv := n.service s
  let n := n.check (sv.present && sv.allocated && !sv.queue.release)
  let n := n.put s { sv with present := false, queue := { sv.queue with release := true } }
  if sv.queue.inGlobal then n else n.globalPush s

/-- The number of messages that are handled at once, after the first of them was taken. -/
def batch (i n : ℕ) (weight : Option ℕ) (q : MessageQueue μ) : ℕ :=
  match weight with
  | some weight => if i = 0 then skynetMqLength q / 2 ^ weight else n
  | none => n

/-- The thread `i` is at a point and acts; `memory` is what new slots of a queue hold. -/
def act (memory : ℕ → μ) (n : Node μ) (i : ℕ) : Thread μ → Act μ → Option (Node μ)
  | .free, .create s =>
      if (n.service s).used then none
      else some ((n.put s (createService memory)).goto i (.creating s))
  | .creating s, .initialized ok =>
      let sv := n.service s
      let n := n.check sv.present
      if ok then
        let sv := { sv with ref := sv.ref - 1 }
        some ((n.put s sv).goto i
          (if sv.ref = 0 then .deleting s (.launching s false) else .launching s true))
      else some (n.goto i (.releasing s (.failing s)))
  | .launching s ret, .proceed =>
      let sv := n.service s
      if ret then
        let n := n.check (sv.present && sv.allocated)
        some (((n.put s { sv with init := true }).globalPush s).goto i (.logging s))
      else some (((n.check sv.allocated).globalPush s).goto i .free)
  | .logging s, .proceed => some ((n.check (n.service s).present).goto i .free)
  | .failing s, .proceed =>
      let sv := n.service s
      if sv.registered then
        some ((n.put s { sv with registered := false }).goto i (.releasing s (.abandoning s)))
      else some (n.goto i (.abandoning s))
  | .releasing s next, .release =>
      let sv := n.service s
      let n := n.check (sv.present && decide (0 < sv.ref))
      let sv := { sv with ref := sv.ref - 1 }
      some ((n.put s sv).goto i (if sv.ref = 0 then .deleting s next else next))
  | .deleting s next, .delete => some ((deleteContext n s).goto i next)
  | .abandoning s, .releaseQueue =>
      let n := n.check (n.service s).allocated
      if (n.service s).queue.release then some (n.goto i (.dropping s))
      else some ((n.globalPush s).goto i .free)
  | .free, .fetch =>
      match n.global with
      | [] => none
      | s :: rest => some ({ n with global := rest }.goto i (.holding s))
  | .holding s, .grab =>
      let sv := n.service s
      let n := n.check sv.allocated
      if sv.registered then
        some ((n.put s { sv with ref := sv.ref + 1 }).goto i (.grabbed s 0 1))
      else some (n.goto i (.abandoning s))
  | .grabbed s j count, .pop weight =>
      if j < count then
        let sv := n.service s
        let n := n.check (sv.allocated && sv.present && sv.init)
        match skynetMqPop sv.queue with
        | (none, queue) => some ((n.put s { sv with queue }).goto i (.releasing s .free))
        | (some message, queue) =>
            let sv :=
              { sv with queue := (skynetMqOverload queue).2, handled := sv.handled ++ [message] }
            some ((n.put s sv).goto i (.handling s j (batch j count weight queue)))
      else none
  | .handling s j count, .finish =>
      some ((n.check (n.service s).present).goto i (.grabbed s (j + 1) count))
  | .grabbed s j count, .leave =>
      if j < count then none
      else
        match n.global with
        | [] => some (n.goto i (.releasing s (.holding s)))
        | next :: rest => some ({ n with global := rest }.goto i (.swapping s next))
  | .swapping s next, .putBack =>
      some (((n.check (n.service s).allocated).globalPush s).goto i
        (.releasing s (.holding next)))
  | .dropping s, .drop =>
      let sv := n.service s
      let n := n.check sv.allocated
      match skynetMqPop sv.queue with
      | (none, queue) =>
          let n := n.check (!n.global.contains s)
          some ((n.put s { sv with queue, allocated := false }).goto i .free)
      | (some message, queue) =>
          some (n.put s { sv with queue, dropped := sv.dropped ++ [message] })
  | .free, .send s message =>
      let sv := n.service s
      if sv.registered then
        some ((n.put s { sv with ref := sv.ref + 1 }).goto i (.pushing s message))
      else none
  | .pushing s message, .push =>
      let sv := n.service s
      let n := n.check (sv.present && sv.allocated)
      let (queue, toGlobal) := skynetMqPush memory sv.queue message
      let n := n.put s { sv with queue, pushed := sv.pushed ++ [message] }
      let n := if toGlobal then n.globalPush s else n
      some (n.goto i (.releasing s .free))
  | .free, .retire s =>
      let sv := n.service s
      if sv.registered then
        some ((n.put s { sv with registered := false }).goto i (.releasing s .free))
      else none
  | _, _ => none

def nodeStep (memory : ℕ → μ) (n : Node μ) (event : ℕ × Act μ) : Option (Node μ) :=
  match n.threads[event.1]? with
  | some t => act memory n event.1 t event.2
  | none => none

/-- No service, and some threads. -/
def nodeStart (memory : ℕ → μ) (threads : ℕ) : Node μ :=
  ⟨fun _ => unused memory, [], List.replicate threads .free, false⟩

/-! ## What a thread has -/

/-- The parts that a thread can have in a service. -/
inductive Role
  /-- a reference to the context -/
  | reference
  /-- the queue of a service whose init function runs -/
  | starting
  /-- the queue, about to be pushed for the first time, while the context is still used -/
  | launching
  /-- the queue of a service that is given up and still registered -/
  | failing
  /-- the queue, in all other cases -/
  | token
  /-- the duty to delete the context -/
  | deletion
  /-- it may run the callback -/
  | dispatching
  /-- it drops the messages -/
  | dropping
  /-- it uses the context once more, without a reference -/
  | afterwards
deriving DecidableEq

def Thread.roles : Thread μ → List (Role × ℕ)
  | .free => []
  | .creating s => [(.reference, s), (.starting, s)]
  | .launching s ret => if ret then [(.launching, s)] else [(.token, s)]
  | .logging s => [(.afterwards, s)]
  | .failing s => [(.failing, s)]
  | .abandoning s => [(.token, s)]
  | .holding s => [(.token, s)]
  | .grabbed s _ _ => [(.reference, s), (.token, s), (.dispatching, s)]
  | .handling s _ _ => [(.reference, s), (.token, s), (.dispatching, s)]
  | .swapping s next => [(.token, s), (.reference, s), (.token, next)]
  | .dropping s => [(.token, s), (.dropping, s)]
  | .pushing s _ => [(.reference, s)]
  | .releasing s next => (.reference, s) :: next.roles
  | .deleting s next => (.deletion, s) :: next.roles

/-- `skynet_context_new` uses the context after it has given up its reference.  A service is
retired by others only when it has returned, and a service that was retired in its init
function has no other references when that returns. -/
def undisturbed (n : Node μ) (event : ℕ × Act μ) : Prop :=
  match n.threads[event.1]?, event.2 with
  | some .free, .retire s =>
      ∀ t ∈ n.threads, (Role.launching, s) ∉ t.roles ∧ (Role.afterwards, s) ∉ t.roles
  | some (.creating s), .initialized true => (n.service s).registered ∨ (n.service s).ref = 1
  | _, _ => True

instance (n : Node μ) (event : ℕ × Act μ) : Decidable (undisturbed n event) := by
  dsimp only [undisturbed]
  split <;> infer_instance

end

end Skynet
end ArmyRs
