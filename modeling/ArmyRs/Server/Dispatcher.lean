import Mathlib.Tactic

/-!
# The request dispatcher

`Dispatcher.dispatch` divides the packets of a session into batches and
`dispatch_batch` processes the requests of a batch one after the other, all of
them on one cached model when any of their handlers wants one.  A request fails
when its handler answers `success = false` or raises.

The handlers and the callbacks of the dispatch delegate are parameters.  The
session and the model are mutable objects of the source, so every call returns
them as it leaves them, also when it raises.  How `CachedGameData.take` goes, and
which calls of `to_wire` and `ActionDb.log_action` raise, are the `Circumstances` of a
batch.  These two are called outside the `rescue`, so that an error there ends the
block and the dispatch with it.
-/

namespace ArmyRs
namespace Server
namespace Dispatcher

/-- A call returns or raises. -/
inductive Outcome (α : Type*)
  | ok (a : α)
  | raised
  deriving DecidableEq, Repr

/-- A result hash: its `success` entry, if any, and the rest. -/
structure Res (Value : Type*) where
  success : Option Bool
  entries : List (String × Value) := []
  deriving DecidableEq, Repr

/-- `{ 'success' => false }` -/
def Res.failure {Value : Type*} : Res Value := { success := some false }

structure Packet (Kind Msg : Type*) where
  n : Nat
  t : Kind
  msg : Msg
  deriving DecidableEq, Repr

structure ResPacket (Kind Value : Type*) where
  n : Nat
  t : Kind
  msg : Res Value
  deriving DecidableEq, Repr

/-- The session and the model of a batch; there is no model when no handler of
the batch takes one. -/
structure Env (Session Model : Type*) where
  session : Session
  model : Option Model
  deriving DecidableEq, Repr

/-- What a callback leaves behind: the session, what it does to the model if
there is one, and its answer. -/
structure Effect (Session Model α : Type*) where
  session : Session
  mutate : Model → Model := id
  outcome : Outcome α

/-- A handler whose `process` takes two arguments or three. -/
inductive Handler (Session Model Msg Value : Type*)
  | plain (process : Session → Msg → Session × Outcome (Res Value))
  | withModel (process : Session → Msg → Model → (Session × Model) × Outcome (Res Value))

/-- The dispatch delegate. -/
structure Delegate (Session Model Kind Msg Value : Type*) where
  allHandlers : Kind → Option (Handler Session Model Msg Value)
  canBatch : Session → Kind → Msg → Bool := fun _ _ _ => false
  onBeforeProcess : Env Session Model → Kind → Msg → Res Value →
    Effect Session Model (Bool × Res Value) :=
    fun env _ _ res => { session := env.session, outcome := .ok (true, res) }
  onProcessSuccess : Env Session Model → Kind → Msg → Res Value →
    Effect Session Model (Res Value) :=
    fun env _ _ res => { session := env.session, outcome := .ok res }
  onProcessFailed : Env Session Model → Kind → Msg → Res Value →
    Effect Session Model (Res Value) :=
    fun env _ _ res => { session := env.session, outcome := .ok res }
  /-- `on_before_update` and `on_update_success`, which follow each other. -/
  onUpdate : Env Session Model → Session := fun env => env.session

/-- The cached model, if any, and the stored one. -/
structure Store (Model : Type*) where
  cached : Option Model
  stored : Model
  deriving DecidableEq, Repr

/-- The model that the next request finds. -/
def Store.visible {Model : Type*} (store : Store Model) : Model :=
  store.cached.getD store.stored

/-- How `put_to_db` ends for a cached model whose lock has expired. -/
inductive Put
  | saved
  /-- The model does not validate and is dropped with the cache. -/
  | rejected
  | raised
  deriving DecidableEq, Repr

/-- How `CachedGameData.take` goes. -/
inductive Take
  /-- It raises before the block; an item without a valid lock is dropped. -/
  | fails (dropped : Bool)
  /-- The block is run, and the lock is still valid afterwards. -/
  | yields
  /-- The block is run, and the lock has expired: the model is put to the
  database, the cache is deleted and an error is raised. -/
  | expires (put : Put)
  deriving DecidableEq, Repr

def Take.runs : Take → Bool
  | .fails _ => false
  | .yields | .expires _ => true

/-- What goes on around a batch.  The calls belong to its requests by their number. -/
structure Circumstances where
  take : Take := .yields
  /-- `to_wire` of the response of a request raises. -/
  wireRaises : Nat → Bool := fun _ => false
  /-- `log_action` raises, where it is called. -/
  logRaises : Nat → Bool := fun _ => false
  /-- A callback around the update raises. -/
  updateRaises : Bool := false
  /-- `to_wire` raises for a response that has been set to `success = false`. -/
  rewireRaises : Nat → Bool := fun _ => false

section

variable {Session Model Kind Msg Value : Type*}

/-- The environment after a callback. -/
def Env.after {α : Type*} (env : Env Session Model) (effect : Effect Session Model α) :
    Env Session Model :=
  { session := effect.session, model := env.model.map effect.mutate }

/-- The call of the handler.  A handler that takes a model is only called in a
batch that has one. -/
def Handler.call (handler : Handler Session Model Msg Value) (env : Env Session Model)
    (msg : Msg) : Env Session Model × Outcome (Res Value) :=
  match handler, env.model with
  | .plain process, _ =>
      let answer := process env.session msg
      ({ env with session := answer.1 }, answer.2)
  | .withModel process, some model =>
      let answer := process env.session msg model
      ({ session := answer.1.1, model := some answer.1.2 }, answer.2)
  | .withModel _, none => (env, .raised)

/-- `Dispatcher.process` -/
def process (delegate : Delegate Session Model Kind Msg Value)
    (handler : Handler Session Model Msg Value) (env : Env Session Model)
    (packet : Packet Kind Msg) : Env Session Model × Outcome (Res Value) :=
  let before := delegate.onBeforeProcess env packet.t packet.msg .failure
  let env := env.after before
  match before.outcome with
  | .raised => (env, .raised)
  | .ok (false, res) => (env, .ok res)
  | .ok (true, _) =>
      -- an exception of the handler skips both callbacks
      match handler.call env packet.msg with
      | (env, .raised) => (env, .raised)
      | (env, .ok res) =>
          let callback :=
            if res.success = some false then delegate.onProcessFailed
            else delegate.onProcessSuccess
          let done := callback env packet.t packet.msg res
          (env.after done, done.outcome)

/-- A request: the packet and its handler. -/
abbrev Request (Session Model Kind Msg Value : Type*) :=
  Packet Kind Msg × Handler Session Model Msg Value

/-- The handlers of a batch.  An unknown type raises here, before any request
is processed. -/
def requestsOf (delegate : Delegate Session Model Kind Msg Value) :
    List (Packet Kind Msg) → Option (List (Request Session Model Kind Msg Value))
  | [] => some []
  | packet :: packets =>
      match delegate.allHandlers packet.t, requestsOf delegate packets with
      | some handler, some requests => some ((packet, handler) :: requests)
      | _, _ => none

/-- `handler.method(:process).arity > 2` -/
def Handler.takesModel : Handler Session Model Msg Value → Bool
  | .plain _ => false
  | .withModel _ => true

def needsModel (requests : List (Request Session Model Kind Msg Value)) : Bool :=
  requests.any fun request => request.2.takesModel

/-- The locals of `dispatch_batch` while the requests are processed. -/
structure Progress (Session Model Kind Value : Type*) where
  env : Env Session Model
  hasError : Bool := false
  hasFailure : Bool := false
  resPackets : List (ResPacket Kind Value) := []

/-- The answer of `process`, `success = false` when it raised. -/
def Outcome.res : Outcome (Res Value) → Res Value
  | .ok res => res
  | .raised => .failure

/-- The answer says `success = false`. -/
def Outcome.failure : Outcome (Res Value) → Bool
  | .ok res => decide (res.success = some false)
  | .raised => false

def Outcome.error : Outcome (Res Value) → Bool
  | .ok _ => false
  | .raised => true

/-- The locals after a request. -/
def Progress.after (progress : Progress Session Model Kind Value) (packet : Packet Kind Msg)
    (env : Env Session Model) (outcome : Outcome (Res Value)) :
    Progress Session Model Kind Value where
  env := env
  hasError := progress.hasError || outcome.error
  hasFailure := progress.hasFailure || outcome.failure
  resPackets := progress.resPackets ++ [⟨packet.n, packet.t, outcome.res⟩]

/-- The loop over the requests of a batch from the `k`-th on, and whether it ends with an
error.  `log_action` is called for an error and for every request from the first failure
on. -/
def runRequests (delegate : Delegate Session Model Kind Msg Value) (around : Circumstances) :
    Nat → List (Request Session Model Kind Msg Value) → Progress Session Model Kind Value →
      Progress Session Model Kind Value × Bool
  | _, [], progress => (progress, false)
  | k, (packet, handler) :: requests, progress =>
      let answer := process delegate handler progress.env packet
      let next := progress.after packet answer.1 answer.2
      if around.wireRaises k then ({ next with resPackets := progress.resPackets }, true)
      else if (next.hasFailure || answer.2.error) && around.logRaises k then (next, true)
      else runRequests delegate around (k + 1) requests next

/-- The store after the block of `take` has left `model`. -/
def Take.finish (take : Take) (store : Store Model) (model : Model) : Store Model :=
  match take with
  | .expires .saved => { cached := none, stored := model }
  | .expires .rejected => { store with cached := none }
  | _ => { store with cached := some model }

/-- The store after the block has left `model`.  When the block ends with an error the lock
is not looked at, and the model stays in the cache. -/
def Circumstances.finish (around : Circumstances) (ended : Bool) (store : Store Model)
    (model : Model) : Store Model :=
  if ended || around.updateRaises then { store with cached := some model }
  else around.take.finish store model

/-- What a batch or a whole dispatch leaves behind. -/
structure Dispatched (Session Model Kind Value : Type*) where
  session : Session
  store : Store Model
  outcome : Outcome (List (ResPacket Kind Value))

/-- All responses of a batch with a failed request say `success = false`, and are
encoded again. -/
def answers (around : Circumstances) (progress : Progress Session Model Kind Value) :
    Outcome (List (ResPacket Kind Value)) :=
  if progress.hasError || progress.hasFailure then
    if (List.range progress.resPackets.length).any around.rewireRaises then .raised
    else .ok (progress.resPackets.map fun packet =>
      { packet with msg := { packet.msg with success := some false } })
  else .ok progress.resPackets

/-- `dispatch_with_model` around the loop.  What the block answers about the
success of the requests is not used. -/
def dispatchWithModel (delegate : Delegate Session Model Kind Msg Value) (around : Circumstances)
    (session : Session) (store : Store Model)
    (requests : List (Request Session Model Kind Msg Value)) :
    Dispatched Session Model Kind Value :=
  if needsModel requests then
    -- `take` may raise before the block is run, and then no request is processed
    match around.take with
    | .fails dropped =>
        ⟨session, if dropped then { store with cached := none } else store, .raised⟩
    | take =>
        let done := runRequests delegate around 0 requests
          { env := { session := session, model := some store.visible } }
        let model := done.1.env.model.getD store.visible
        ⟨if done.2 then done.1.env.session else delegate.onUpdate done.1.env,
          around.finish done.2 store model,
          if done.2 || around.updateRaises || decide (take ≠ .yields) then .raised
          else answers around done.1⟩
  else
    let done := runRequests delegate around 0 requests
      { env := { session := session, model := none } }
    ⟨done.1.env.session, store, if done.2 then .raised else answers around done.1⟩

/-- `dispatch_batch` -/
def dispatchBatch (delegate : Delegate Session Model Kind Msg Value) (around : Circumstances)
    (session : Session) (store : Store Model) (packets : List (Packet Kind Msg)) :
    Dispatched Session Model Kind Value :=
  match requestsOf delegate packets with
  | none => ⟨session, store, .raised⟩
  | some requests => dispatchWithModel delegate around session store requests

/-- The loop of `dispatch`.  `arounds` gives the circumstances of the batches from
here on, one for each batch. -/
def dispatchFrom (delegate : Delegate Session Model Kind Msg Value) :
    List (Packet Kind Msg) → (Nat → Circumstances) → Session → Store Model →
      List (Packet Kind Msg) → List (ResPacket Kind Value) → Dispatched Session Model Kind Value
  | [], _, session, store, _, results => ⟨session, store, .ok results⟩
  | packet :: packets, arounds, session, store, curBatch, results =>
      let curBatch := curBatch ++ [packet]
      if !delegate.canBatch session packet.t packet.msg || packets.isEmpty then
        let batch := dispatchBatch delegate (arounds 0) session store curBatch
        match batch.outcome with
        | .raised => batch
        | .ok answers =>
            dispatchFrom delegate packets (fun k => arounds (k + 1)) batch.session batch.store []
              (results ++ answers)
      else dispatchFrom delegate packets arounds session store curBatch results

/-- `Dispatcher.dispatch` -/
def dispatch (delegate : Delegate Session Model Kind Msg Value) (arounds : Nat → Circumstances)
    (session : Session) (store : Store Model) (packets : List (Packet Kind Msg)) :
    Dispatched Session Model Kind Value :=
  dispatchFrom delegate packets arounds session store [] []

end

end Dispatcher
end Server
end ArmyRs
