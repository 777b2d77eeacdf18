import ArmyRs.Storage.GameData
import ArmyRs.Storage.RedisLock

/-!
# Cached game data

A server that wants to work on a player takes the cache lock of the player and
keeps the model in memory.  `ensure_cached` runs a block on the model, and
`ensure_cache_deleted`, which `put_back` and the jobs use, deletes the cache
and releases the lock after its block.

All servers and the Redis keys of one player are one state; every event of a
server is one Redis command with the local work up to the next one.  Every
attempt to take the lock has its own lock instance, numbered on each server.
The player mutex of a server lets one call run at a time.
-/

namespace ArmyRs
namespace Storage
namespace CachedGameData

open Foundation GameData RedisLock

/-- `DEFAULT_LOCK_OPTIONS`, in milliseconds. -/
def defaultLockOptions : Options where
  lockTimeout := 120000
  saneExpiry := 120000
  expiryGrace := 0

/-- The calls that run a block on the cached model. -/
inductive Kind
  /-- `take`: the block changes the model and may delete the cache. -/
  | take
  /-- `put_back`, and a job run from its caller; `save` tells whether the block
  ends with `put_to_db`. -/
  | putBack (save : Bool)
  deriving DecidableEq, Repr

/-- Where a call stands. -/
inductive Stage
  /-- `trylock` on a new lock instance. -/
  | locking
  /-- The lock is acquired; `GameData.read` comes next. -/
  | reading
  /-- There is no record; `GameData.create` comes next. -/
  | creating
  | block
  /-- `put_to_db` reads the stored version next; `late` when it was called
  because the lock had expired. -/
  | putRead (late : Bool)
  | putWrite (late : Bool)
  /-- `_delete_cache` comes next. -/
  | deleting (late : Bool)
  /-- The block has returned. -/
  | afterBlock
  deriving DecidableEq, Repr

/-- A call in progress: the lock instance and the model it works on, whether
the item is still in the cache, and the time at which the call found its lock
valid or acquired it. -/
structure Call (Field Data : Type*) where
  kind : Kind
  stage : Stage
  lock : Nat
  model : Model Field Data
  cached : Bool
  began : Nat

/-- `GameDataCacheItem` -/
structure Item (Field Data : Type*) where
  lock : Nat
  model : Model Field Data

structure Node (Field Data : Type*) where
  item : Option (Item Field Data) := none
  call : Option (Call Field Data) := none
  nextLock : Nat := 0

/-- The lock of the player, the stored record, the servers, and who has written
the record so far. -/
structure World (Server Field Data : Type*) where
  lock : RedisLock.State (Server × Nat)
  stored : Option (Blob Field Data)
  nodes : Server → Node Field Data
  writes : List Server

inductive Event (Server Field Data : Type*)
  | tick (elapsed : Nat)
  /-- A call starts: the item in the cache is checked, or a new lock is made. -/
  | start (a : Server) (kind : Kind)
  /-- The next Redis command of `trylock`. -/
  | trylock (a : Server)
  | read (a : Server)
  /-- `GameData.create` with a new model. -/
  | create (a : Server) (model : Data)
  /-- The block changes the model. -/
  | edit (a : Server) (model : Data) (fields : Field → Option Data)
  /-- The block of a `take` deletes the cache. -/
  | deleteInBlock (a : Server)
  /-- The block of the caller returns or raises. -/
  | finishBlock (a : Server) (raised : Bool)
  | putRead (a : Server)
  | putWrite (a : Server) (attempt : Attempt)
  | deleteCache (a : Server)
  /-- The check of `ensure_cached` after the block. -/
  | checkLock (a : Server)
  | renew (a : Server)

section

variable {Server Field Data : Type*} [DecidableEq Server]

def World.setNode (w : World Server Field Data) (a : Server) (node : Node Field Data) :
    World Server Field Data :=
  { w with nodes := Function.update w.nodes a node }

/-- The call of a server goes on. -/
def World.setCall (w : World Server Field Data) (a : Server) (call : Call Field Data) :
    World Server Field Data :=
  w.setNode a { w.nodes a with call := some call }

/-- The call of a server returns or raises; the item stays when it is still
cached. -/
def World.endCall (w : World Server Field Data) (a : Server) (call : Call Field Data) :
    World Server Field Data :=
  w.setNode a { w.nodes a with
    item := if call.cached then some ⟨call.lock, call.model⟩ else none
    call := none }

/-- The last end of a lease. -/
def leaseEnd (options : Options) (acquired : Nat) : Nat :=
  1000 * acquired + 1000 * options.lockTimeout

/-- `acquired? and not timeout?` -/
def World.valid (options : Options) (w : World Server Field Data) (a : Server) (lock : Nat) :
    Bool :=
  ((w.lock.instances (a, lock)).lockAcquireTime).isSome &&
    !(w.lock.instances (a, lock)).timedOut options w.lock.clock

/-- `_ensure_cached_item`, up to the first Redis command. -/
def start (options : Options) (w : World Server Field Data) (a : Server) (kind : Kind)
    (empty : Model Field Data) : World Server Field Data :=
  let node := w.nodes a
  match node.item with
  | some item =>
      if w.valid options a item.lock then
        w.setNode a { node with
          call := some { kind := kind, stage := .block, lock := item.lock, model := item.model,
                         cached := true, began := w.lock.clock } }
      else w.setNode a { node with item := none }
  | none =>
      w.setNode a { node with
        call := some { kind := kind, stage := .locking, lock := node.nextLock, model := empty,
                       cached := false, began := w.lock.clock }
        nextLock := node.nextLock + 1 }

/-- The Redis command that `trylock` sends next. -/
def nextCommand (pending : Pending) (i : Server × Nat) : RedisLock.Event (Server × Nat) :=
  match pending with
  | .idle => .setnx i
  | .beforeGet _ => .get i
  | .beforeGetset => .getset i

/-- One command of `trylock`.  When it ends the call, the lock is acquired or
the call raises. -/
def tryLock (options : Options) (w : World Server Field Data) (a : Server)
    (call : Call Field Data) : Option (World Server Field Data) :=
  let i := (a, call.lock)
  match RedisLock.step options w.lock (nextCommand (w.lock.instances i).pending i) with
  | none => none
  | some lock =>
      let w' := { w with lock := lock }
      if (lock.instances i).pending = .idle then
        if (lock.instances i).reply = .true then
          some (w'.setCall a { call with stage := .reading, began := w.lock.clock })
        else some (w'.endCall a call)
      else some w'

/-- `GameData.read` after the lock was acquired. -/
def readFromDb (w : World Server Field Data) (a : Server) (call : Call Field Data) :
    World Server Field Data :=
  match w.stored with
  | none => w.setCall a { call with stage := .creating }
  | some stored =>
      w.setCall a { call with stage := .block, model := GameData.read stored, cached := true }

/-- `CREATE_BLOB`: writes only when there is no record. -/
def create (w : World Server Field Data) (a : Server) (call : Call Field Data) (model : Data) :
    World Server Field Data :=
  let fresh : Model Field Data := ⟨0, model, fun _ => none⟩
  let next := { call with stage := .block, model := fresh, cached := true }
  match w.stored with
  | none =>
      { w with stored := some ⟨0, model, fun _ => none⟩, writes := w.writes ++ [a] }.setCall a next
  | some _ => w.setCall a next

/-- `put_to_db` has raised: the block of `ensure_cache_deleted` rescues the
error, the late call in `ensure_cached` does not. -/
def putRaised (w : World Server Field Data) (a : Server) (call : Call Field Data) (late : Bool) :
    World Server Field Data :=
  if late then w.endCall a call else w.setCall a { call with stage := .deleting false }

/-- The check of `put_to_db`. -/
def putRead (w : World Server Field Data) (a : Server) (call : Call Field Data) (late : Bool) :
    World Server Field Data :=
  match w.stored with
  | none => putRaised w a call late
  | some stored =>
      if call.model.version < stored.version then putRaised w a call late
      else w.setCall a { call with stage := .putWrite late }

/-- `GameData.update`.  An invalid model is answered with `nil` and raises
nothing. -/
def putWrite (w : World Server Field Data) (a : Server) (call : Call Field Data) (late : Bool)
    (attempt : Attempt) : World Server Field Data :=
  if attempt.valid = false then w.setCall a { call with stage := .deleting late }
  else if attempt.lockTimedOut then putRaised w a call late
  else
    let raised := { call with model := { call.model with version := call.model.version + 1 } }
    match attempt.script with
    | .fails => putRaised w a raised late
    | script =>
        match updateBlob w.stored raised.model with
        | none => putRaised w a raised late
        | some stored =>
            let w' := { w with stored := some stored, writes := w.writes ++ [a] }
            if script = Script.runs then w'.setCall a { raised with stage := .deleting late }
            else putRaised w' a raised late

/-- `_delete_cache`: releases the lock when it is still valid and drops the
item. -/
def deleteCache (options : Options) (w : World Server Field Data) (a : Server)
    (call : Call Field Data) : World Server Field Data :=
  if call.cached then { w with lock := RedisLock.unlock options w.lock (a, call.lock) } else w

/-- An error in the block of a `take` ends the call; in the block of a
`put_back` it only skips what is left of the block. -/
def finishBlock (w : World Server Field Data) (a : Server) (call : Call Field Data)
    (raised : Bool) : World Server Field Data :=
  match call.kind with
  | .take => if raised then w.endCall a call else w.setCall a { call with stage := .afterBlock }
  | .putBack save =>
      if save && !raised then w.setCall a { call with stage := .putRead false }
      else w.setCall a { call with stage := .deleting false }

/-- `lock.acquired? and lock.timeout?` after the block. -/
def checkLock (options : Options) (w : World Server Field Data) (a : Server)
    (call : Call Field Data) : World Server Field Data :=
  if (w.lock.instances (a, call.lock)).timedOut options w.lock.clock then
    w.setCall a { call with stage := .putRead true }
  else w.endCall a call

/-- Runs the next part of a call that stands at `stage`. -/
def atStage (w : World Server Field Data) (a : Server) (stage : Stage)
    (next : Call Field Data → Option (World Server Field Data)) :
    Option (World Server Field Data) :=
  match (w.nodes a).call with
  | none => none
  | some call => if call.stage = stage then next call else none

def step (options : Options) (empty : Model Field Data) (w : World Server Field Data) :
    Event Server Field Data → Option (World Server Field Data)
  | .tick elapsed => some { w with lock := { w.lock with clock := w.lock.clock + elapsed } }
  | .start a kind =>
      match (w.nodes a).call with
      | none => some (start options w a kind empty)
      | some _ => none
  | .trylock a => atStage w a .locking (tryLock options w a)
  | .read a => atStage w a .reading fun call => some (readFromDb w a call)
  | .create a model => atStage w a .creating fun call => some (create w a call model)
  | .edit a model fields =>
      atStage w a .block fun call =>
        some (w.setCall a
          { call with model := { call.model with model := model, fields := fields } })
  | .deleteInBlock a =>
      atStage w a .block fun call =>
        match call.kind with
        | .take => some ((deleteCache options w a call).setCall a { call with cached := false })
        | .putBack _ => none
  | .finishBlock a raised => atStage w a .block fun call => some (finishBlock w a call raised)
  | .putRead a =>
      match (w.nodes a).call with
      | some call =>
          match call.stage with
          | .putRead late => some (putRead w a call late)
          | _ => none
      | none => none
  | .putWrite a attempt =>
      match (w.nodes a).call with
      | some call =>
          match call.stage with
          | .putWrite late => some (putWrite w a call late attempt)
          | _ => none
      | none => none
  | .deleteCache a =>
      match (w.nodes a).call with
      | some call =>
          match call.stage with
          | .deleting false =>
              some ((deleteCache options w a call).setCall a
                { call with cached := false, stage := .afterBlock })
          | .deleting true =>
              some ((deleteCache options w a call).endCall a { call with cached := false })
          | _ => none
      | none => none
  | .checkLock a => atStage w a .afterBlock fun call => some (checkLock options w a call)
  | .renew a =>
      match (w.nodes a).call, (w.nodes a).item with
      | none, some item => some { w with lock := RedisLock.renew options w.lock (a, item.lock) }
      | _, _ => none

/-- Servers without cache over a lock key with any value. -/
def initial (key : Option Nat) (clock : Nat) (stored : Option (Blob Field Data)) :
    World Server Field Data :=
  ⟨RedisLock.initial key clock, stored, fun _ => {}, []⟩

/-- Server `a` holds an unexpired cache lock. -/
def HoldsLock (options : Options) (w : World Server Field Data) (a : Server) : Prop :=
  ∃ lock, Holds options w.lock (a, lock)

end

end CachedGameData
end Storage
end ArmyRs
