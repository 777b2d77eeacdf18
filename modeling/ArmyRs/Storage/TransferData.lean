import ArmyRs.Storage.GameData
import ArmyRs.Storage.RedisLock

/-!
# Transfer of cold records

`TransferData.to_db` writes a dump of a record that is no longer used to MySQL
and leaves a tag in its place.  `TransferData.from_db` puts the record back when
it is read again.  Both send their commands to Redis and MySQL one by one, and
`GameData.update` can come at any time: its script takes no lock and looks only
at the type of the key and at the version.

`World` is the Redis key and the MySQL row of one record with any number of
calls.  An event is the next command of a call; a call that meets an error or is
through gives its lock back.  `latest` records what was committed last and is
read by no call.
-/

namespace ArmyRs
namespace Storage
namespace TransferData

open Foundation

/-- What a Redis key holds. -/
inductive Value (Field Data : Type*)
  | hash (blob : GameData.Blob Field Data)
  | string (raw : String)

/-- `DUMP` and `RESTORE` of Redis, and what MySQL keeps of a text. -/
structure Codec (V Raw : Type*) where
  dump : V → Raw
  restore : Raw → Option V
  kept : Raw → Raw
  restore_dump : ∀ v, restore (dump v) = some v

/-- `MysqlBackup::BACKUP_TAG` -/
def backupTag : String := "#mysql#"

/-- A row of the table. -/
structure Row (Raw : Type*) where
  k : String
  v : Raw
  deriving DecidableEq, Repr

/-- Where a call of `to_db` stands. -/
inductive Stage (Raw : Type*)
  | locking (try_ : Nat)
  /-- `redis.get` comes next, to see whether the record is dumped. -/
  | get
  | dump
  /-- `backup.set` asks for the row of the key. -/
  | select (val : Raw)
  | update (val : Raw)
  | insert (val : Raw)
  /-- `backup.get` reads the row again. -/
  | verify (val : Raw)
  /-- `redis.set` puts the tag in the place of the record. -/
  | set (val : Raw)
  | unlocking
  | done
  deriving DecidableEq, Repr

/-- A call of `to_db`, with the number of keys it has transferred. -/
structure ToDb (Raw : Type*) where
  stage : Stage Raw
  success : Nat
  deriving DecidableEq, Repr

/-- Where a call of `from_db` stands. -/
inductive FromDb (Raw : Type*)
  /-- `redis.get` comes next. -/
  | get
  /-- `backup.get` -/
  | select
  /-- `DEL_RESTORE` -/
  | restore (val : Raw)
  | done (success : Nat)
  deriving DecidableEq, Repr

structure World (ι ρ Field Data Raw : Type*) where
  lock : RedisLock.State ι
  redis : Option (Value Field Data)
  row : Option (Row Raw)
  toDbs : ι → Option (ToDb Raw)
  fromDbs : ρ → Option (FromDb Raw)
  latest : Option (GameData.Blob Field Data)

structure Config (Field Data Raw : Type*) where
  /-- `GameData.blob_key` -/
  key : String
  lock : RedisLock.Options := {}
  maxRetry : Nat := 5
  codec : Codec (Value Field Data) Raw

inductive Event (ι ρ Field Data : Type*)
  | tick (elapsed : Nat)
  | startToDb (c : ι)
  /-- The next command of `to_db`. -/
  | toDb (c : ι)
  /-- The command of `to_db` fails. -/
  | raiseToDb (c : ι)
  | startFromDb (r : ρ)
  /-- The next command of `from_db`. -/
  | fromDb (r : ρ)
  /-- `UPDATE_BLOB` with the fields and the version of a model. -/
  | update (m : GameData.Model Field Data)

section

variable {ι ρ Field Data Raw : Type*}

/-- `TransferData.restorable?` -/
def restorable : Option (Value Field Data) → Bool
  | some (.string raw) => raw == backupTag
  | _ => false

def World.setFromDb [DecidableEq ρ] (w : World ι ρ Field Data Raw) (r : ρ) (call : FromDb Raw) :
    World ι ρ Field Data Raw :=
  { w with fromDbs := Function.update w.fromDbs r (some call) }

/-- One command of `from_db`.  The script deletes the tag before it restores. -/
def fromDb [DecidableEq ρ] (config : Config Field Data Raw) (w : World ι ρ Field Data Raw)
    (r : ρ) : FromDb Raw → Option (World ι ρ Field Data Raw)
  | .get =>
      if restorable w.redis then some (w.setFromDb r .select) else some (w.setFromDb r (.done 0))
  | .select =>
      match w.row with
      | some row => some (w.setFromDb r (.restore row.v))
      | none => some (w.setFromDb r (.done 0))
  | .restore val =>
      if restorable w.redis then
        match config.codec.restore val with
        | some value => some ({ w with redis := some value }.setFromDb r (.done 1))
        | none => some ({ w with redis := none }.setFromDb r (.done 0))
      else some (w.setFromDb r (.done 0))
  | .done _ => none

/-- The script answers `false` for a string, for a missing key and for a version
that is not larger, and `GameData.update` raises. -/
def update (w : World ι ρ Field Data Raw) (m : GameData.Model Field Data) :
    World ι ρ Field Data Raw :=
  match w.redis with
  | some (.hash blob) =>
      match GameData.updateBlob (some blob) m with
      | some blob => { w with redis := some (.hash blob), latest := some blob }
      | none => w
  | _ => w

variable [DecidableEq ι]

def World.setToDb (w : World ι ρ Field Data Raw) (c : ι) (call : ToDb Raw) :
    World ι ρ Field Data Raw :=
  { w with toDbs := Function.update w.toDbs c (some call) }

def World.goTo (w : World ι ρ Field Data Raw) (c : ι) (stage : Stage Raw) :
    World ι ρ Field Data Raw :=
  w.setToDb c ⟨stage, 0⟩

/-- One command of `GameData.lock`. -/
def tryLock (config : Config Field Data Raw) (w : World ι ρ Field Data Raw) (c : ι)
    (try_ : Nat) : Option (World ι ρ Field Data Raw) :=
  (RedisLock.lock config.lock config.maxRetry w.lock c try_).map fun result =>
    let w := { w with lock := result.1 }
    match result.2 with
    | .trying try_ => w.goTo c (.locking try_)
    | .acquired => w.goTo c .get
    | .raised => w.goTo c .done

variable [DecidableEq Raw]

/-- One command of `to_db`.  `get` on a hash is an error that is taken for "not
dumped yet". -/
def toDb (config : Config Field Data Raw) (w : World ι ρ Field Data Raw) (c : ι)
    (call : ToDb Raw) : Option (World ι ρ Field Data Raw) :=
  match call.stage with
  | .locking try_ => tryLock config w c try_
  | .get => if restorable w.redis then some (w.goTo c .unlocking) else some (w.goTo c .dump)
  | .dump =>
      match w.redis with
      | some value => some (w.goTo c (.select (config.codec.dump value)))
      | none => some (w.goTo c .unlocking)
  | .select val =>
      match w.row with
      | some row =>
          -- the table finds a row whose key differs in case
          if row.k = config.key then some (w.goTo c (.update val))
          else some (w.goTo c .unlocking)
      | none => some (w.goTo c (.insert val))
  | .update val =>
      let row := w.row.map fun row : Row Raw => { row with v := config.codec.kept val }
      some ({ w with row := row }.goTo c (.verify val))
  | .insert val =>
      match w.row with
      | some _ => some (w.goTo c .unlocking)
      | none =>
          some ({ w with row := some ⟨config.key, config.codec.kept val⟩ }.goTo c (.verify val))
  | .verify val =>
      if w.row.map Row.v = some val then some (w.goTo c (.set val))
      else some (w.goTo c .unlocking)
  | .set _ =>
      some ({ w with redis := some (.string backupTag) }.setToDb c ⟨.unlocking, 1⟩)
  | .unlocking =>
      some ({ w with lock := RedisLock.unlock config.lock w.lock c }.setToDb c
        { call with stage := .done })
  | .done => none

/-- An error leaves the block of the lock. -/
def raiseToDb (w : World ι ρ Field Data Raw) (c : ι) (call : ToDb Raw) :
    Option (World ι ρ Field Data Raw) :=
  match call.stage with
  | .done => none
  | .locking _ => some (w.goTo c .done)
  | .unlocking => some (w.goTo c .done)
  | _ => some (w.goTo c .unlocking)

def step [DecidableEq ρ] (config : Config Field Data Raw) (w : World ι ρ Field Data Raw) :
    Event ι ρ Field Data → Option (World ι ρ Field Data Raw)
  | .tick elapsed => some { w with lock := { w.lock with clock := w.lock.clock + elapsed } }
  | .startToDb c =>
      match w.toDbs c with
      | none => some (w.goTo c (.locking 1))
      | some _ => none
  | .toDb c => (w.toDbs c).bind fun call => toDb config w c call
  | .raiseToDb c => (w.toDbs c).bind fun call => raiseToDb w c call
  | .startFromDb r =>
      match w.fromDbs r with
      | none => some (w.setFromDb r .get)
      | some _ => none
  | .fromDb r => (w.fromDbs r).bind fun call => fromDb config w r call
  | .update m => some (update w m)

/-- A record that is in Redis, with whatever row an earlier transfer has left. -/
def initial (lockKey : Option Nat) (clock : Nat) (blob : GameData.Blob Field Data)
    (row : Option (Row Raw)) : World ι ρ Field Data Raw :=
  ⟨RedisLock.initial lockKey clock, some (.hash blob), row, fun _ => none, fun _ => none,
    some blob⟩

end

end TransferData
end Storage
end ArmyRs
