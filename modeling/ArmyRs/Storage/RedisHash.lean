import ArmyRs.Storage.RedisLock
import Mathlib.Data.Rat.Cast.Order

/-!
# A Redis hash with versions

`RedisHash` stores objects under the hkeys of one Redis hash.  Beside the field
of an hkey there is a field for its version, whose name is the hkey with a
suffix.  `hset_with_lock`, `hmset_with_lock` and `hdel_with_lock` take a
`RedisLock`, read the versions, run the block of the caller, and let a script
write when the version they come with is larger than the stored one.

Every call has its own lock instance.  An event is one Redis command or script
of a call with the local work up to the next one; the calls of any number of
clients run side by side.  `writes` records the hkeys of every script that has
written; no call reads it.
-/

namespace ArmyRs
namespace Storage
namespace RedisHash

open Foundation

/-- What a field holds: a dumped object, or a version that a script has stored. -/
inductive Value (Data : Type*)
  | data (raw : Data)
  | number (version : Int)
  deriving DecidableEq, Repr

abbrev Hash (Data : Type*) := String → Option (Value Data)

/-- How a dumped object reads when it is found in the place of a version. -/
structure Readings (Data : Type*) where
  /-- `String#to_i` -/
  toI : Data → Int
  /-- Lua's `tonumber` -/
  tonumber : Data → Option ℚ

/-- `"#{hkey}_redis_hash_version"` -/
def versionKey (hkey : String) : String := hkey ++ "_redis_hash_version"

section

variable {Data : Type*}

/-- `if version.nil? then 1 else version.to_i + 1 end` -/
def newVersion (readings : Readings Data) : Option (Value Data) → Int
  | none => 1
  | some (.number version) => version + 1
  | some (.data raw) => readings.toI raw + 1

/-- `tonumber(redis.call('hget', key, version_key)) or 0` -/
def oldVersion (readings : Readings Data) : Option (Value Data) → ℚ
  | none => 0
  | some (.number version) => version
  | some (.data raw) => (readings.tonumber raw).getD 0

/-! ## Scripts -/

/-- The `hmset` of Redis: the fields in the order in which they are given. -/
def Hash.hmset (hash : Hash Data) (entries : List (String × Value Data)) : Hash Data :=
  entries.foldl (fun hash entry => Function.update hash entry.1 (some entry.2)) hash

/-- `HSET` -/
def hsetScript (readings : Readings Data) (hash : Hash Data) (hkey : String) (val : Data)
    (version : Int) : Option (Hash Data) :=
  if oldVersion readings (hash (versionKey hkey)) < version then
    some (hash.hmset [(hkey, .data val), (versionKey hkey, .number version)])
  else none

/-- `HMSET`: the first half of the list are the version keys with the new
versions. -/
def hmsetScript (readings : Readings Data) (hash : Hash Data) (versions : List (String × Int))
    (entries : List (String × Data)) : Option (Hash Data) :=
  if versions.all fun entry => decide (oldVersion readings (hash entry.1) < entry.2) then
    some (hash.hmset ((versions.map fun entry => (entry.1, .number entry.2)) ++
      entries.map fun entry => (entry.1, .data entry.2)))
  else none

/-- `HDEL`: the version stays behind. -/
def hdelScript (readings : Readings Data) (hash : Hash Data) (hkey : String) (version : Int) :
    Option (Hash Data) :=
  if oldVersion readings (hash (versionKey hkey)) < version then
    some (Function.update (hash.hmset [(versionKey hkey, .number version)]) hkey none)
  else none

end

/-! ## Calls -/

inductive Op
  /-- `hset_with_lock(hkey)` -/
  | hset (hkey : String)
  /-- `hmset_with_lock(hkeys)` -/
  | hmset (hkeys : List String)
  /-- `hdel_with_lock(hkey)` -/
  | hdel (hkey : String)
  deriving DecidableEq, Repr

def Op.hkeys : Op → List String
  | .hset hkey => [hkey]
  | .hmset hkeys => hkeys
  | .hdel hkey => [hkey]

/-- The lock of a call: what follows the key of the hash in its name. -/
def Op.lockName (key : String) : Op → String
  | .hset hkey => hkey
  | .hmset _ => "hmset_" ++ key
  | .hdel hkey => hkey

/-- Where a call stands. -/
inductive Stage (Data : Type*)
  /-- In `lock`, in this attempt. -/
  | locking (try_ : Nat)
  /-- The lock is acquired; the values and versions are read next. -/
  | reading
  | block
  /-- The script comes next, with the dumped values. -/
  | script (vals : List Data)
  | unlocking
  | done
  deriving DecidableEq, Repr

inductive Outcome
  | pending
  | raised
  /-- There was nothing to write, or `hmset_with_lock` returns `false`. -/
  | nothing
  /-- The script has written. -/
  | written
  deriving DecidableEq, Repr

/-- A call: what the hash held when it read its fields, and how many scripts had
written at that time. -/
structure Call (Data : Type*) where
  op : Op
  stage : Stage Data
  read : Hash Data
  since : Nat
  outcome : Outcome

/-- The locks by their names, the hash, the calls, and the hkeys of all that was
written. -/
structure World (ι Data : Type*) where
  locks : String → RedisLock.State ι
  hash : Hash Data
  calls : ι → Option (Call Data)
  writes : List (List String)

/-- The key of the hash, the options of its locks, and how data reads as a
number. -/
structure Config (Data : Type*) where
  key : String
  lock : RedisLock.Options := {}
  maxRetry : Nat := 5
  readings : Readings Data
  /-- Whether the server lets a script set a global variable. -/
  globals : Bool

inductive Event (ι Data : Type*)
  | tick (elapsed : Nat)
  | start (c : ι) (op : Op)
  /-- The next Redis command of `trylock`. -/
  | trylock (c : ι)
  /-- `hmget`, or `hget` for `hdel_with_lock`. -/
  | read (c : ι)
  /-- The block returns the objects to write, or raises. -/
  | finishBlock (c : ι) (vals : Option (List Data))
  | script (c : ι)
  | unlock (c : ι)
  deriving DecidableEq, Repr

section

variable {ι Data : Type*} [DecidableEq ι]

def World.setCall (w : World ι Data) (c : ι) (call : Call Data) : World ι Data :=
  { w with calls := Function.update w.calls c (some call) }

def World.setLock (w : World ι Data) (name : String) (lock : RedisLock.State ι) : World ι Data :=
  { w with locks := Function.update w.locks name lock }

/-- One command of `lock`. -/
def tryLock (config : Config Data) (w : World ι Data) (c : ι) (call : Call Data) (try_ : Nat) :
    Option (World ι Data) :=
  let name := call.op.lockName config.key
  (RedisLock.lock config.lock config.maxRetry (w.locks name) c try_).map fun result =>
    let w := w.setLock name result.1
    match result.2 with
    | .trying try_ => w.setCall c { call with stage := .locking try_ }
    | .acquired => w.setCall c { call with stage := .reading }
    | .raised => w.setCall c { call with stage := .done, outcome := .raised }

/-- The end of the block that `lock` yields to. -/
def leave (w : World ι Data) (c : ι) (call : Call Data) (outcome : Outcome) : World ι Data :=
  w.setCall c { call with stage := .unlocking, outcome := outcome }

/-- `raise ... if lock.timeout?` in front of the script. -/
def checkLock (config : Config Data) (w : World ι Data) (c : ι) (call : Call Data)
    (vals : List Data) : World ι Data :=
  let lock := w.locks (call.op.lockName config.key)
  if (lock.instances c).timedOut config.lock lock.clock then leave w c call .raised
  else w.setCall c { call with stage := .script vals }

/-- `hmset_with_lock` returns `false` when a value is missing, and `hmget` raises
without fields. -/
def read (config : Config Data) (w : World ι Data) (c : ι) (call : Call Data) : World ι Data :=
  let call := { call with read := w.hash, since := w.writes.length }
  match call.op with
  | .hset _ => w.setCall c { call with stage := .block }
  | .hmset hkeys =>
      if hkeys = [] then leave w c call .raised
      else if hkeys.all fun hkey => (w.hash hkey).isSome then
        w.setCall c { call with stage := .block }
      else leave w c call .nothing
  | .hdel _ => checkLock config w c call []

/-- What the block of the caller returns is dumped.  `hset_with_lock` writes
nothing for `nil`, and `hmset_with_lock` nothing for another number of objects,
without looking at the lock. -/
def finishBlock (config : Config Data) (w : World ι Data) (c : ι) (call : Call Data) :
    Option (List Data) → Option (World ι Data)
  | none => some (leave w c call .raised)
  | some vals =>
      match call.op with
      | .hset _ =>
          match vals with
          | [] => some (leave w c call .nothing)
          | [val] => some (checkLock config w c call [val])
          | _ => none
      | .hmset hkeys =>
          if vals.length = hkeys.length then
            some (w.setCall c { call with stage := .script vals })
          else some (leave w c call .nothing)
      | .hdel _ => none

/-- The script of a call on the hash, with versions from what the call has
read. -/
def runScript (readings : Readings Data) (hash : Hash Data) (call : Call Data)
    (vals : List Data) : Option (Hash Data) :=
  let version := fun hkey => newVersion readings (call.read (versionKey hkey))
  match call.op, vals with
  | .hset hkey, val :: _ => hsetScript readings hash hkey val (version hkey)
  | .hset _, [] => none
  | .hmset hkeys, vals =>
      hmsetScript readings hash (hkeys.map fun hkey => (versionKey hkey, version hkey))
        (hkeys.zip vals)
  | .hdel hkey, _ => hdelScript readings hash hkey (version hkey)

/-- A failed version check raises, in `hmset_with_lock` it returns `false`. -/
def Op.refused : Op → Outcome
  | .hset _ => .raised
  | .hmset _ => .nothing
  | .hdel _ => .raised

/-- The script of `hmset_with_lock` sets `version_key` without declaring it. -/
def Op.setsGlobals : Op → Bool
  | .hset _ => false
  | .hmset _ => true
  | .hdel _ => false

def script (config : Config Data) (w : World ι Data) (c : ι) (call : Call Data)
    (vals : List Data) : World ι Data :=
  if call.op.setsGlobals && !config.globals then leave w c call .raised
  else
    match runScript config.readings w.hash call vals with
    | none => leave w c call call.op.refused
    | some hash =>
        leave { w with hash := hash, writes := w.writes ++ [call.op.hkeys] } c call .written

def unlock (config : Config Data) (w : World ι Data) (c : ι) (call : Call Data) : World ι Data :=
  let name := call.op.lockName config.key
  (w.setLock name (RedisLock.unlock config.lock (w.locks name) c)).setCall c
    { call with stage := .done }

def step (config : Config Data) (w : World ι Data) : Event ι Data → Option (World ι Data)
  | .tick elapsed =>
      some { w with locks := fun name =>
        { w.locks name with clock := (w.locks name).clock + elapsed } }
  | .start c op =>
      match w.calls c with
      | none => some (w.setCall c ⟨op, .locking 1, w.hash, w.writes.length, .pending⟩)
      | some _ => none
  | .trylock c =>
      match w.calls c with
      | some call =>
          match call.stage with
          | .locking try_ => tryLock config w c call try_
          | _ => none
      | none => none
  | .read c =>
      match w.calls c with
      | some call =>
          match call.stage with
          | .reading => some (read config w c call)
          | _ => none
      | none => none
  | .finishBlock c vals =>
      match w.calls c with
      | some call =>
          match call.stage with
          | .block => finishBlock config w c call vals
          | _ => none
      | none => none
  | .script c =>
      match w.calls c with
      | some call =>
          match call.stage with
          | .script vals => some (script config w c call vals)
          | _ => none
      | none => none
  | .unlock c =>
      match w.calls c with
      | some call =>
          match call.stage with
          | .unlocking => some (unlock config w c call)
          | _ => none
      | none => none

/-- No call yet, over lock keys with any values. -/
def initial (lockKeys : String → Option Nat) (clock : Nat) (hash : Hash Data) : World ι Data :=
  ⟨fun name => RedisLock.initial (lockKeys name) clock, hash, fun _ => none, []⟩

end

end RedisHash
end Storage
end ArmyRs
