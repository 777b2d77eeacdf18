import ArmyRs.Foundation.Doubles
import ArmyRs.Foundation.Leases
import ArmyRs.Storage.RedisLock

/-!
# The doubles of the Redis lock

`now + lock_timeout` and the comparisons of `RedisLock` are arithmetic of doubles.  Here
the lock has the numbers of the code: the clock counts microseconds, what is read off it
is the double of a whole number of milliseconds, every sum and difference is rounded, and
the options are any doubles.

The sum of a reading and a timeout can lie below the double of the millisecond it
stands for.  A client that reads the clock in that millisecond then finds the stamp in
the past, half a millisecond before the lease has ended (`not_exclusive_tenth`).  The
default of ten seconds and every other multiple of an eighth of a second is a whole
number of milliseconds and on the grid of the doubles, and the sums are exact
(`double_add_timeout`); with such a timeout the lock is exclusive.
-/

namespace ArmyRs
namespace Storage
namespace RedisLockDoubles

open Foundation
open RedisLock (Event Reply round3)

/-- The options of a lock, in seconds. -/
structure Options where
  lockTimeout : ℚ := 10
  saneExpiry : ℚ := 15
  expiryGrace : ℚ := double (3 / 10)

/-- `Time.now.to_f` of a clock in microseconds. -/
def toF (clock : Nat) : ℚ := double (clock / 1000000)

/-- The double of a number of milliseconds. -/
def seconds (milliseconds : Nat) : ℚ := double (milliseconds / 1000)

/-- `Time.now.to_f.round(3)` -/
def reading (clock : Nat) : ℚ := seconds (round3 clock)

/-- Where a call of `trylock` stands between two Redis commands. -/
inductive Pending
  | idle
  | beforeGet (now : ℚ)
  | beforeGetset
  deriving DecidableEq

structure Instance where
  lockAcquireTime : Option ℚ := none
  pending : Pending := .idle
  reply : Reply := .nil
  deriving DecidableEq

structure State (ι : Type*) where
  instances : ι → Instance
  key : Option ℚ
  clock : Nat

/-- `timeout?`.  A `Time` minus a double is exact, and `to_f` rounds it. -/
def Instance.timedOut (options : Options) (lock : Instance) (clock : Nat) : Bool :=
  match lock.lockAcquireTime with
  | none => false
  | some acquired => decide (options.lockTimeout < double (clock / 1000000 - acquired))

/-- The stamp an instance writes. -/
def stamp (options : Options) (clock : Nat) : ℚ := double (reading clock + options.lockTimeout)

section

variable {ι : Type*} [DecidableEq ι]

def State.setInstance (s : State ι) (i : ι) (lock : Instance) : State ι :=
  { s with instances := Function.update s.instances i lock }

/-- `setnx` of `trylock` -/
def trySetnx (options : Options) (s : State ι) (i : ι) : State ι :=
  let now := reading s.clock
  match s.key with
  | none =>
      { s with key := some (stamp options s.clock) }.setInstance i
        { lockAcquireTime := some now, pending := .idle, reply := .true }
  | some _ => s.setInstance i { s.instances i with pending := .beforeGet now }

/-- `get` of `trylock` -/
def tryGet (options : Options) (s : State ι) (i : ι) (now : ℚ) : State ι :=
  let lock := s.instances i
  match s.key with
  | none => s.setInstance i { lock with pending := .idle, reply := .nil }
  | some oldExpiry =>
      if now ≤ double (oldExpiry + options.expiryGrace) then
        if options.saneExpiry < double (oldExpiry - toF s.clock) then
          s.setInstance i { lock with pending := .idle, reply := .raised }
        else s.setInstance i { lock with pending := .idle, reply := .false }
      else s.setInstance i { lock with pending := .beforeGetset }

/-- `getset` of `trylock` -/
def tryGetset (options : Options) (s : State ι) (i : ι) : State ι :=
  let now := reading s.clock
  let lock := s.instances i
  let s' := { s with key := some (stamp options s.clock) }
  match s.key with
  | none => s'.setInstance i { lock with pending := .idle, reply := .nil }
  | some oldExpiry =>
      if now ≤ oldExpiry then s'.setInstance i { lock with pending := .idle, reply := .false }
      else s'.setInstance i
        { lockAcquireTime := some now, pending := .idle, reply := .true }

/-- `renew`. -/
def renew (options : Options) (s : State ι) (i : ι) : State ι :=
  let lock := s.instances i
  if lock.lockAcquireTime = none ∨ lock.timedOut options s.clock then
    s.setInstance i { lock with reply := .false }
  else
    let s' := { s with key := some (stamp options s.clock) }
    match s.key with
    | none => s'.setInstance i { lock with reply := .raised }
    | some _ =>
        s'.setInstance i { lock with lockAcquireTime := some (reading s.clock), reply := .true }

/-- `unlock`, and `clear` when the lock is still valid. -/
def unlock (options : Options) (s : State ι) (i : ι) : State ι :=
  let lock := s.instances i
  if lock.lockAcquireTime = none ∨ lock.timedOut options s.clock then
    s.setInstance i { lock with reply := .nil }
  else
    { s with key := none }.setInstance i { lock with lockAcquireTime := none, reply := .true }

/-- One event. -/
def step (options : Options) (s : State ι) : Event ι → Option (State ι)
  | .tick elapsed => some { s with clock := s.clock + elapsed }
  | .setnx i =>
      match (s.instances i).pending with
      | .idle => some (trySetnx options s i)
      | _ => none
  | .get i =>
      match (s.instances i).pending with
      | .beforeGet now => some (tryGet options s i now)
      | _ => none
  | .getset i =>
      match (s.instances i).pending with
      | .beforeGetset => some (tryGetset options s i)
      | _ => none
  | .renew i => some (renew options s i)
  | .unlock i => some (unlock options s i)

/-- New instances over a key with any value. -/
def initial (key : Option ℚ) (clock : Nat) : State ι := ⟨fun _ => {}, key, clock⟩

/-- The instance has acquired the lock and is not past its own timeout. -/
def Holds (options : Options) (s : State ι) (i : ι) : Prop :=
  (s.instances i).lockAcquireTime ≠ none ∧ (s.instances i).timedOut options s.clock = false

instance (options : Options) (s : State ι) (i : ι) : Decidable (Holds options s i) :=
  inferInstanceAs (Decidable (_ ∧ _))

end

/-! ## Timeouts on the grid -/

section

variable {e j k m c : Nat}

/-- Milliseconds in one binade of seconds. -/
def InBinade (e k : Nat) : Prop := 1000 * 2 ^ e ≤ k ∧ k + 1000 ≤ 1000 * 2 ^ (e + 1)

theorem zpow_succ_natCast (e : Nat) : (2 : ℚ) ^ ((e : ℤ) + 1) = 2 ^ (e + 1) := by
  rw [← Nat.cast_succ, zpow_natCast]

theorem seconds_of_inBinade (h : InBinade e k) :
    seconds k = onGrid (e - 52) (k / 1000) := by
  obtain ⟨hlow, hhigh⟩ := h
  apply double_of_binade
  · rw [le_div_iff₀ (by norm_num), zpow_natCast, mul_comm]
    exact_mod_cast hlow
  · rw [div_lt_iff₀ (by norm_num), zpow_succ_natCast, mul_comm]
    exact_mod_cast (by omega : k < 1000 * 2 ^ (e + 1))

/-- How far a reading is from its number of milliseconds. -/
theorem abs_sub_seconds_le (h : InBinade e k) (he : e ≤ 40) :
    |(k / 1000 : ℚ) - seconds k| ≤ 1 / 2 ^ 13 := by
  rw [seconds_of_inBinade h]
  refine (abs_sub_onGrid_le _ _).trans ?_
  have hpow : (1 : ℚ) / 2 ^ 13 = 2 ^ (-13 : ℤ) := by norm_num
  rw [hpow]
  exact zpow_le_zpow_right₀ one_le_two (by omega)

/-- A number of eighths is an even multiple of the unit of the binade. -/
theorem eighths_eq (he : e ≤ 40) (j : Nat) :
    ∃ n : ℤ, n % 2 = 0 ∧ (j / 8 : ℚ) = n * 2 ^ ((e : ℤ) - 52) := by
  refine ⟨j * 2 ^ (49 - e), ?_, ?_⟩
  · obtain ⟨d, hd⟩ : ∃ d, 49 - e = d + 1 := ⟨48 - e, by omega⟩
    rw [hd, pow_succ]
    exact Int.emod_eq_zero_of_dvd (Dvd.intro_left ((j : ℤ) * 2 ^ d) (by ring))
  · have hunit : (2 : ℚ) ^ (49 - e) * 2 ^ ((e : ℤ) - 52) = 1 / 8 := by
      rw [← zpow_natCast, ← zpow_add₀ two_ne_zero]
      have hexponent : ((49 - e : Nat) : ℤ) + (e - 52) = -3 := by omega
      rw [hexponent]
      norm_num
    push_cast
    rw [mul_assoc, hunit]
    ring

/-- A reading and a number of eighths make the double of their milliseconds. -/
theorem seconds_add (he : e ≤ 40) (hk : InBinade e k) (hsum : InBinade e (k + 125 * j)) :
    seconds (k + 125 * j) = seconds k + j / 8 := by
  obtain ⟨n, heven, hn⟩ := eighths_eq he j
  have hmilliseconds : ((k + 125 * j : Nat) / 1000 : ℚ) = k / 1000 + j / 8 := by
    push_cast
    ring
  rw [seconds_of_inBinade hsum, seconds_of_inBinade hk, hmilliseconds, hn, onGrid_add _ heven]

/-- The sum of a reading and a number of eighths is exact. -/
theorem double_add_timeout (he : e ≤ 40) (hk : InBinade e k) (hsum : InBinade e (k + 125 * j)) :
    double (seconds k + j / 8) = seconds (k + 125 * j) := by
  rw [← seconds_add he hk hsum]
  have hnear := abs_le.mp (abs_sub_seconds_le hsum he)
  have hhigh : ((k + 125 * j : Nat) / 1000 : ℚ) + 1 ≤ 2 ^ (e + 1) := by
    have hcast : ((k + 125 * j : Nat) : ℚ) + 1000 ≤ 1000 * 2 ^ (e + 1) := by
      exact_mod_cast hsum.2
    linarith
  have hlow : (2 : ℚ) ^ (e : ℤ) ≤ seconds (k + 125 * j) := by
    rw [seconds_of_inBinade hsum, ← @onGrid_zpow (e - 52) e (by omega)]
    refine onGrid_mono ?_
    rw [le_div_iff₀ (by norm_num), zpow_natCast, mul_comm]
    exact_mod_cast hsum.1
  rw [double_of_binade hlow]
  · rw [seconds_of_inBinade hsum, onGrid_onGrid]
  · rw [zpow_succ_natCast]
    have hsmall : (1 : ℚ) / 2 ^ 13 < 1 := by norm_num
    linarith [hnear.1]

/-- When the clock is read past the stamp, more than the timeout has passed. -/
theorem timeout_lt_of_seconds_lt (he : e ≤ 40) (hk : InBinade e k)
    (hsum : InBinade e (k + 125 * j)) (hc : InBinade e (round3 c))
    (hlate : double (seconds k + j / 8) < seconds (round3 c)) :
    (j / 8 : ℚ) < double (c / 1000000 - seconds k) := by
  rw [double_add_timeout he hk hsum] at hlate
  -- stamps on the grid of milliseconds stay in their order as doubles
  have hlt : k + 125 * j < round3 c := by
    by_contra hle
    refine absurd hlate (not_lt.mpr (double_mono ?_))
    have hcast : (round3 c : ℚ) ≤ (k + 125 * j : Nat) := by exact_mod_cast not_lt.mp hle
    gcongr
  -- a later millisecond is at least half a millisecond away
  have hround : 1000 * (k + 125 * j) + 500 ≤ c := by
    unfold round3 at hlt
    omega
  have hclock : (1000 * (k + 125 * j) + 500 : ℚ) ≤ c := by exact_mod_cast hround
  have hnear := abs_le.mp (abs_sub_seconds_le hk he)
  have hpast : (j / 8 : ℚ) + 1 / 2000 - 1 / 2 ^ 13 ≤ c / 1000000 - seconds k := by
    have hdiv : (k / 1000 + j / 8 + 1 / 2000 : ℚ) ≤ c / 1000000 := by
      rw [le_div_iff₀ (by norm_num)]
      linarith
    linarith [hnear.1]
  have hj : (0 : ℚ) ≤ j / 8 := by positivity
  have hpos : (0 : ℚ) < c / 1000000 - seconds k := lt_of_lt_of_le (by norm_num; linarith) hpast
  have hhigh : (c / 1000000 - seconds k : ℚ) < 2 ^ ((e : ℤ) + 1) := by
    have hnonneg : 0 ≤ seconds k := double_nonneg (by positivity)
    have hbelow : c < 1000000 * 2 ^ (e + 1) := by
      have hhigh := hc.2
      unfold round3 at hhigh
      omega
    have hcast : (c / 1000000 : ℚ) < 2 ^ (e + 1) := by
      rw [div_lt_iff₀ (by norm_num), mul_comm]
      exact_mod_cast hbelow
    rw [zpow_succ_natCast]
    linarith
  -- both roundings are off by less than a quarter of that
  have herror : (2 : ℚ) ^ ((e : ℤ) - 53) ≤ 1 / 2 ^ 13 := by
    have hpow : (1 : ℚ) / 2 ^ 13 = 2 ^ (-13 : ℤ) := by norm_num
    rw [hpow]
    exact zpow_le_zpow_right₀ one_le_two (by omega)
  have hrounded := abs_le.mp (abs_sub_double_le hpos hhigh)
  have hgap : (1 : ℚ) / 2 ^ 13 + 1 / 2 ^ 13 < 1 / 2000 := by norm_num
  linarith [hrounded.2]

end

/-! ## Exclusion -/

section

variable {ι : Type*} [DecidableEq ι] {options : Options} {e j : Nat}

/-- The timing of a lock whose timeout is a number of eighths of a second, for clocks in
one binade. -/
def timing (options : Options) (he : e ≤ 40) (htimeout : options.lockTimeout = j / 8) :
    LeaseTiming Nat ℚ where
  now := reading
  stamp acquired := double (acquired + options.lockTimeout)
  Valid acquired clock := double (clock / 1000000 - acquired) ≤ options.lockTimeout
  span := {c | InBinade e (round3 c) ∧ InBinade e (round3 c + 125 * j)}
  readings := {a | ∃ k, InBinade e k ∧ InBinade e (k + 125 * j) ∧ a = seconds k}
  now_mem c hc := ⟨round3 c, hc.1, hc.2, rfl⟩
  stamp_mono c _ c' _ hle := by
    have hround : (round3 c : ℚ) ≤ round3 c' := by
      unfold round3
      exact_mod_cast Nat.div_le_div_right (by omega)
    have hreading : reading c ≤ reading c' := double_mono (by gcongr)
    exact double_mono (by gcongr)
  valid_anti a c c' hle hvalid := by
    have hcast : (c : ℚ) ≤ c' := by exact_mod_cast hle
    exact (double_mono (by gcongr)).trans hvalid
  ended := by
    rintro a ⟨k, hk, hsum, rfl⟩ c hc hlate
    rw [htimeout] at hlate ⊢
    exact not_le.mpr (timeout_lt_of_seconds_lt he hk hsum hc.1 hlate)

/-- The clock, the key and the acquire times. -/
def State.leases (s : State ι) : LeaseState ι Nat ℚ :=
  ⟨s.clock, s.key, fun i => (s.instances i).lockAcquireTime⟩

theorem leases_setInstance (s : State ι) (i : ι) (lock : Instance) :
    (s.setInstance i lock).leases =
      { s.leases with acquired := Function.update s.leases.acquired i lock.lockAcquireTime } := by
  unfold State.leases State.setInstance
  congr 1
  funext other
  by_cases hother : other = i
  · subst hother
    simp
  · simp [Function.update_of_ne hother]

/-- Setting an instance that keeps its acquire time keeps all of them. -/
theorem acquired_of_keeps {s : State ι} {i : ι} {lock : Instance}
    (h : lock.lockAcquireTime = (s.instances i).lockAcquireTime) :
    (s.setInstance i lock).leases.acquired = s.leases.acquired := by
  rw [leases_setInstance]
  dsimp only
  rw [h]
  exact Function.update_eq_self i s.leases.acquired

theorem acquired_of_sets (s : State ι) (i : ι) (lock : Instance) :
    (s.setInstance i lock).leases.acquired =
      Function.update s.leases.acquired i lock.lockAcquireTime := by
  rw [leases_setInstance]

variable {he : e ≤ 40} {htimeout : options.lockTimeout = j / 8}

omit [DecidableEq ι] in
theorem holds_iff_leases {s : State ι} {i : ι} :
    Holds options s i ↔ s.leases.Holds (timing options he htimeout) i := by
  unfold Holds Instance.timedOut LeaseState.Holds State.leases timing
  cases hacquired : (s.instances i).lockAcquireTime with
  | none => simp [hacquired]
  | some acquired => simp [hacquired]

theorem leaseChange_trySetnx (s : State ι) (i : ι) :
    LeaseChange (timing options he htimeout) s.leases (trySetnx options s i).leases := by
  unfold trySetnx
  cases hkey : s.key with
  | none =>
      refine .acquire i rfl rfl (fun v hv => ?_) (acquired_of_sets _ i _)
      exact absurd (hkey.symm.trans hv) nofun
  | some v => exact .quiet le_rfl rfl (acquired_of_keeps rfl)

theorem leaseChange_tryGet (s : State ι) (i : ι) (now : ℚ) :
    LeaseChange (timing options he htimeout) s.leases (tryGet options s i now).leases := by
  unfold tryGet
  cases s.key with
  | none => exact .quiet le_rfl rfl (acquired_of_keeps rfl)
  | some v =>
      dsimp only
      split
      · split
        · exact .quiet le_rfl rfl (acquired_of_keeps rfl)
        · exact .quiet le_rfl rfl (acquired_of_keeps rfl)
      · exact .quiet le_rfl rfl (acquired_of_keeps rfl)

theorem leaseChange_tryGetset (s : State ι) (i : ι) :
    LeaseChange (timing options he htimeout) s.leases (tryGetset options s i).leases := by
  unfold tryGetset
  cases hkey : s.key with
  | none => exact .overwrite rfl rfl (acquired_of_keeps rfl)
  | some v =>
      dsimp only
      split
      · exact .overwrite rfl rfl (acquired_of_keeps rfl)
      · next hexpired =>
        refine .acquire i rfl rfl (fun u hu => ?_) (acquired_of_sets _ i _)
        obtain rfl : v = u := Option.some.inj (hkey.symm.trans hu)
        exact not_le.mp hexpired

omit [DecidableEq ι] in
/-- The test in front of `renew` and `unlock` fails exactly for a holder. -/
theorem holds_iff_not {s : State ι} {i : ι} :
    Holds options s i ↔ ¬ ((s.instances i).lockAcquireTime = none ∨
      (s.instances i).timedOut options s.clock = true) := by
  unfold Holds
  rw [not_or, Bool.not_eq_true]

theorem leaseChange_renew (s : State ι) (i : ι) :
    LeaseChange (timing options he htimeout) s.leases (renew options s i).leases := by
  unfold renew
  dsimp only
  split
  · exact .quiet le_rfl rfl (acquired_of_keeps rfl)
  · next hholds =>
    cases s.key with
    | none => exact .overwrite rfl rfl (acquired_of_keeps rfl)
    | some v =>
        exact .renew i (holds_iff_leases.mp (holds_iff_not.mpr hholds)) rfl rfl
          (acquired_of_sets _ i _)

theorem leaseChange_unlock (s : State ι) (i : ι) :
    LeaseChange (timing options he htimeout) s.leases (unlock options s i).leases := by
  unfold unlock
  dsimp only
  split
  · exact .quiet le_rfl rfl (acquired_of_keeps rfl)
  · next hholds =>
    exact .release i (holds_iff_leases.mp (holds_iff_not.mpr hholds)) rfl rfl
      (acquired_of_sets _ i _)

/-- Every event is one of the changes. -/
theorem leaseChange_of_step {s s' : State ι} {event : Event ι}
    (hstep : step options s event = some s') :
    LeaseChange (timing options he htimeout) s.leases s'.leases := by
  cases event with
  | tick elapsed =>
      cases hstep
      exact .quiet (Nat.le_add_right _ _) rfl rfl
  | setnx i =>
      -- a command counts where the call stands at it
      simp only [step] at hstep
      split at hstep
      · cases hstep
        exact leaseChange_trySetnx s i
      · cases hstep
  | get i =>
      simp only [step] at hstep
      split at hstep
      · cases hstep
        exact leaseChange_tryGet s i _
      · cases hstep
  | getset i =>
      simp only [step] at hstep
      split at hstep
      · cases hstep
        exact leaseChange_tryGetset s i
      · cases hstep
  | renew i =>
      cases hstep
      exact leaseChange_renew s i
  | unlock i =>
      cases hstep
      exact leaseChange_unlock s i

/-- The clocks between the ends of a binade, but for the timeout and two seconds. -/
theorem mem_span {c : Nat} (hlow : 2 ^ e * 1000000 ≤ c)
    (hhigh : c + 125000 * j + 2000000 ≤ 2 ^ (e + 1) * 1000000) :
    c ∈ (timing options he htimeout).span := by
  have hround : InBinade e (round3 c) ∧ InBinade e (round3 c + 125 * j) := by
    unfold InBinade round3
    omega
  exact hround

/-- With a timeout of a number of eighths of a second, while the clock stays in one binade,
at most one instance has acquired the lock and is not past its own timeout. -/
theorem exclusive_of_eighths (he : e ≤ 40) (htimeout : options.lockTimeout = j / 8)
    {key : Option ℚ} {clock : Nat} {events : List (Event ι)} {s : State ι}
    (hrun : Run (step options) free (initial key clock) events s)
    (hstart : 2 ^ e * 1000000 ≤ clock)
    (hend : s.clock + 125000 * j + 2000000 ≤ 2 ^ (e + 1) * 1000000) :
    {i | Holds options s i}.Subsingleton := by
  have hleased : 2 ^ e * 1000000 ≤ s.clock ∧
      (s.clock + 125000 * j + 2000000 ≤ 2 ^ (e + 1) * 1000000 →
        Leased (timing options he htimeout) s.leases) := by
    apply hrun.invariant
    · exact ⟨hstart, fun _ => leased_of_new fun _ => rfl⟩
    · rintro s event s' ⟨hlow, hleased⟩ - hstep
      have change : LeaseChange (timing options he htimeout) s.leases s'.leases :=
        leaseChange_of_step hstep
      have hclock : s.clock ≤ s'.clock := change.clock_le
      refine ⟨hlow.trans hclock, fun hhigh => ?_⟩
      have hbefore : s.clock + 125000 * j + 2000000 ≤ 2 ^ (e + 1) * 1000000 := by omega
      exact (hleased hbefore).change (mem_span hlow hbefore)
        (mem_span (hlow.trans hclock) hhigh) change
  intro i hi k hk
  exact (hleased.2 hend).unique i k (holds_iff_leases.mp hi) (holds_iff_leases.mp hk)

end

/-! ## Races for an expired stamp -/

/-- Two instances find an expired stamp and race for it. -/
def race (elapsed : Nat) : List (Event (Fin 2)) :=
  [.setnx 0, .setnx 1, .get 0, .get 1, .getset 0, .tick elapsed, .getset 1]

/-- The end of the race; it begins a millisecond after a full second. -/
def raceEnd (lockTimeout : ℚ) (elapsed : Nat) : State (Fin 2) :=
  (exec (step { lockTimeout }) free (initial (some 0) 1550000000001000) (race elapsed)).getD
    (initial none 0)

/-- With the default timeout the second `getset` of the race only overwrites the stamp. -/
theorem exclusive_race :
    ((raceEnd 10 99600).instances 1).reply = .false ∧
      {i | Holds { lockTimeout := 10 } (raceEnd 10 99600) i}.Subsingleton := by
  have hrun : Run (step { lockTimeout := 10 }) free (initial (some 0) 1550000000001000)
      (race 99600) (raceEnd 10 99600) := run_exec_getD _ (by decide +kernel)
  exact ⟨by decide +kernel,
    @exclusive_of_eighths _ _ _ 30 80 (by decide) (by norm_num) _ _ _ _ hrun (by decide)
      (by decide +kernel)⟩

/-- With a timeout of a tenth of a second the second instance reads the clock in the
millisecond in which the first one's lease ends, and finds its stamp in the past. -/
theorem not_exclusive_tenth :
    ¬ ∀ (options : Options) (key : Option ℚ) (clock : Nat) (events : List (Event (Fin 2)))
      (s : State (Fin 2)), Run (step options) free (initial key clock) events s →
      {i | Holds options s i}.Subsingleton := by
  intro exclusive
  have hrun : Run (step { lockTimeout := double (1 / 10) }) free
      (initial (some 0) 1550000000001000) (race 99600) (raceEnd (double (1 / 10)) 99600) :=
    run_exec_getD _ (by decide +kernel)
  have hsame : (0 : Fin 2) = 1 := exclusive _ _ _ _ _ hrun
    (by decide +kernel : Holds _ _ _) (by decide +kernel : Holds _ _ _)
  exact absurd hsame (by decide)

end RedisLockDoubles
end Storage
end ArmyRs
