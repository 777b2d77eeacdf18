import ArmyRs.Foundation.Transition

/-!
# The Redis lock

A `RedisLock` is an instance over one Redis key.  The key holds an expiry
stamp; an instance that finds the key absent sets it and has the lock, and one
that finds an expired stamp overwrites it with `getset` and has the lock when
the stamp it replaced had expired too.

The clock counts microseconds.  `Time.now.to_f.round(3)` rounds it to
milliseconds, and the stamps and the acquire time of an instance are such
rounded times; `timeout?` compares the unrounded clock.  Every Redis command is
one event, executed at the time its client reads the clock for it.  Between the
commands of one `trylock` any number of other events can happen.

Stamps and timeouts are whole milliseconds.  In the code they are doubles, and a stamp is
the double of its milliseconds when `lock_timeout` is a multiple of an eighth of a second,
like the default (`RedisLockDoubles.double_add_timeout`).  With other timeouts it can be
off by the rounding of one sum.
-/

namespace ArmyRs
namespace Storage
namespace RedisLock

open Foundation

/-- The options of a lock, in milliseconds. -/
structure Options where
  lockTimeout : Nat := 10000
  saneExpiry : Nat := 15000
  expiryGrace : Nat := 300
  deriving DecidableEq, Repr

/-- `Time.now.to_f.round(3)`, in milliseconds, of a clock in microseconds. -/
def round3 (now : Nat) : Nat := (now + 500) / 1000

/-- Where a call of `trylock` stands between two Redis commands. -/
inductive Pending
  | idle
  /-- `setnx` failed; `get` comes next, with the time read before `setnx`. -/
  | beforeGet (now : Nat)
  /-- The value read had expired; `getset` comes next. -/
  | beforeGetset
  deriving DecidableEq, Repr

/-- What the last finished call of an instance returned. -/
inductive Reply
  | nil
  | false
  | true
  | raised
  deriving DecidableEq, Repr

/-- A lock instance: `lock_acquire_time`, the call in progress and the last
reply. -/
structure Instance where
  lockAcquireTime : Option Nat := none
  pending : Pending := .idle
  reply : Reply := .nil
  deriving DecidableEq, Repr

/-- The instances, the value of the key and the clock. -/
structure State (ι : Type*) where
  instances : ι → Instance
  key : Option Nat
  clock : Nat

/-- `timeout?`: more than the lock timeout has passed since the acquisition. -/
def Instance.timedOut (options : Options) (lock : Instance) (clock : Nat) : Bool :=
  match lock.lockAcquireTime with
  | none => false
  | some acquired => decide (1000 * acquired + 1000 * options.lockTimeout < clock)

/-- The Redis commands of the calls, and the passing of time. -/
inductive Event (ι : Type*)
  /-- The clock goes on. -/
  | tick (elapsed : Nat)
  /-- `trylock` reads the clock and sends `setnx`. -/
  | setnx (i : ι)
  /-- `trylock` sends `get` and compares the value with the time it has read. -/
  | get (i : ι)
  /-- `trylock` reads the clock again and sends `getset`. -/
  | getset (i : ι)
  /-- `renew` checks its own timeout and sends `getset`. -/
  | renew (i : ι)
  /-- `unlock` checks its own timeout and sends `del`. -/
  | unlock (i : ι)
  deriving DecidableEq, Repr

/-- The stamp an instance writes. -/
def stamp (options : Options) (clock : Nat) : Nat := round3 clock + options.lockTimeout

section

variable {ι : Type*} [DecidableEq ι]

def State.setInstance (s : State ι) (i : ι) (lock : Instance) : State ι :=
  { s with instances := Function.update s.instances i lock }

/-- `setnx`: sets the key only when it is absent. -/
def trySetnx (options : Options) (s : State ι) (i : ι) : State ι :=
  let now := round3 s.clock
  match s.key with
  | none =>
      { s with key := some (stamp options s.clock) }.setInstance i
        { lockAcquireTime := some now, pending := .idle, reply := .true }
  | some _ => s.setInstance i { s.instances i with pending := .beforeGet now }

/-- `get`: a missing value ends the call with `nil`; a value that has not
expired, grace included, ends it with `false`, or with an error when the value
is too far in the future. -/
def tryGet (options : Options) (s : State ι) (i : ι) (now : Nat) : State ι :=
  let lock := s.instances i
  match s.key with
  | none => s.setInstance i { lock with pending := .idle, reply := .nil }
  | some oldExpiry =>
      if now ≤ oldExpiry + options.expiryGrace then
        if 1000 * oldExpiry > s.clock + 1000 * options.saneExpiry then
          s.setInstance i { lock with pending := .idle, reply := .raised }
        else s.setInstance i { lock with pending := .idle, reply := .false }
      else s.setInstance i { lock with pending := .beforeGetset }

/-- `getset`: the key is overwritten in any case; the lock is acquired when the
old value has expired, without grace. -/
def tryGetset (options : Options) (s : State ι) (i : ι) : State ι :=
  let now := round3 s.clock
  let lock := s.instances i
  let s' := { s with key := some (stamp options s.clock) }
  match s.key with
  | none => s'.setInstance i { lock with pending := .idle, reply := .nil }
  | some oldExpiry =>
      if now ≤ oldExpiry then s'.setInstance i { lock with pending := .idle, reply := .false }
      else s'.setInstance i
        { lockAcquireTime := some now, pending := .idle, reply := .true }

/-- `renew`. -/
def renew (options : Options) (s : State ι) (i : ι) : State ι :=
  let lock := s.instances i
  if lock.lockAcquireTime = none ∨ lock.timedOut options s.clock then
    s.setInstance i { lock with reply := .false }
  else
    let s' := { s with key := some (stamp options s.clock) }
    match s.key with
    | none => s'.setInstance i { lock with reply := .raised }
    | some _ =>
        s'.setInstance i { lock with lockAcquireTime := some (round3 s.clock), reply := .true }

/-- `unlock`, and `clear` when the lock is still valid. -/
def unlock (options : Options) (s : State ι) (i : ι) : State ι :=
  let lock := s.instances i
  -- an instance whose time is over does not delete the key: it may be another's
  if lock.lockAcquireTime = none ∨ lock.timedOut options s.clock then
    s.setInstance i { lock with reply := .nil }
  else
    { s with key := none }.setInstance i { lock with lockAcquireTime := none, reply := .true }

/-- One event.  A command of `trylock` can only come where the call stands;
`renew` and `unlock` can be called at any time. -/
def step (options : Options) (s : State ι) : Event ι → Option (State ι)
  | .tick elapsed => some { s with clock := s.clock + elapsed }
  | .setnx i =>
      match (s.instances i).pending with
      | .idle => some (trySetnx options s i)
      | _ => none
  | .get i =>
      match (s.instances i).pending with
      | .beforeGet now => some (tryGet options s i now)
      | _ => none
  | .getset i =>
      match (s.instances i).pending with
      | .beforeGetset => some (tryGetset options s i)
      | _ => none
  | .renew i => some (renew options s i)
  | .unlock i => some (unlock options s i)

/-! ## The loop of `lock` -/

/-- Where a call of `lock` stands. -/
inductive Progress
  /-- In this attempt. -/
  | trying (try_ : Nat)
  | acquired
  /-- `trylock limit exceeded`, or an error of `trylock`. -/
  | raised
  deriving DecidableEq, Repr

/-- The Redis command that `trylock` sends next. -/
def nextCommand (pending : Pending) (i : ι) : Event ι :=
  match pending with
  | .idle => .setnx i
  | .beforeGet _ => .get i
  | .beforeGetset => .getset i

/-- One command of `lock`.  A `trylock` that does not get the lock is tried
again, up to `max_retry` times. -/
def lock (options : Options) (maxRetry : Nat) (s : State ι) (i : ι) (try_ : Nat) :
    Option (State ι × Progress) :=
  (step options s (nextCommand (s.instances i).pending i)).map fun s' =>
    let lock := s'.instances i
    if lock.pending = .idle then
      match lock.reply with
      | .true => (s', .acquired)
      | .raised => (s', .raised)
      | _ => if maxRetry < try_ + 1 then (s', .raised) else (s', .trying (try_ + 1))
    else (s', .trying try_)

/-- New instances over a key with any value. -/
def initial (key : Option Nat) (clock : Nat) : State ι := ⟨fun _ => {}, key, clock⟩

/-- The instance has acquired the lock and is not past its own timeout. -/
def Holds (options : Options) (s : State ι) (i : ι) : Prop :=
  (s.instances i).lockAcquireTime ≠ none ∧ (s.instances i).timedOut options s.clock = false

instance (options : Options) (s : State ι) (i : ι) : Decidable (Holds options s i) :=
  inferInstanceAs (Decidable (_ ∧ _))

end

end RedisLock
end Storage
end ArmyRs
