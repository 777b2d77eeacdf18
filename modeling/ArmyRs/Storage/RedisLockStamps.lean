import ArmyRs.Storage.RedisLockExclusion

/-!
# Stamps without a holder

A stamp that no instance answers for keeps the key taken until it expires.
`getset` writes its stamp before it looks at what was there.  When the key has
been deleted in between, the call ends with `nil` and the stamp stays behind;
when another instance was first, its stamp is replaced by a later one.

In a run in which every `getset` of `trylock` finds an expired stamp, or one that
it does not put off (`Replaces`), each stamp has passed or is the end of a lease
(`Backed`).  Hence the key is free as soon as nobody holds the lock
(`free_of_run`).
-/

namespace ArmyRs
namespace Storage
namespace RedisLock

open Foundation

variable {ι : Type*} [DecidableEq ι] {options : Options} {s s' : State ι}

/-- The key is absent or holds an expiry that has passed. -/
def State.Free (s : State ι) : Prop :=
  ∀ v, s.key = some v → 1000 * v < s.clock

/-- The commands of a `trylock` that nobody disturbs. -/
def State.trylock (s : State ι) (i : ι) : List (Event ι) :=
  match s.key with
  | none => [.setnx i]
  | some _ => [.setnx i, .get i, .getset i]

/-- A `trylock` of `i` that comes `elapsed` later gets the lock. -/
def Obtains (options : Options) (s : State ι) (i : ι) (elapsed : Nat) : Prop :=
  ∃ s', exec (step options) free s (.tick elapsed :: s.trylock i) = some s' ∧
    (s'.instances i).reply = .true ∧ s'.acquired i = some (round3 s'.clock)

/-- `getset` finds a stamp that has expired or that it does not put off. -/
def Replaces (options : Options) (s : State ι) : Event ι → Prop
  | .getset _ => ∃ v ∈ s.key, v < round3 s.clock ∨ stamp options s.clock ≤ v
  | _ => True

instance (options : Options) (s : State ι) (event : Event ι) :
    Decidable (Replaces options s event) := by
  cases event <;> unfold Replaces <;> infer_instance

/-! ## The invariant -/

/-- The stamp of the key has passed, or it is within a lease. -/
def State.Backed (options : Options) (s : State ι) : Prop :=
  ∀ v, s.key = some v → 1000 * v < s.clock ∨
    ∃ i acquired, s.acquired i = some acquired ∧ v ≤ acquired + options.lockTimeout

omit [DecidableEq ι] in
/-- Leases that nobody holds any more have ended. -/
theorem State.Backed.free (backed : s.Backed options) (hnone : ∀ i, ¬ Holds options s i) :
    s.Free := by
  intro v hkey
  rcases backed v hkey with hpassed | ⟨i, acquired, hacquired, hle⟩
  · exact hpassed
  · have hended : ¬ s.clock ≤ 1000 * acquired + 1000 * options.lockTimeout :=
      fun hlease => hnone i (holds_iff_acquired.mpr ⟨acquired, hacquired, hlease⟩)
    omega

/-- Whoever has just got the lock answers for the stamp. -/
theorem backed_of_fresh {i : ι} (hkey : s'.key = some (stamp options s.clock))
    (hacquired : s'.acquired = Function.update s.acquired i (some (round3 s.clock))) :
    s'.Backed options := by
  intro v hv
  rw [hkey] at hv
  cases hv
  refine .inr ⟨i, round3 s.clock, ?_, le_rfl⟩
  rw [hacquired, Function.update_self]

omit [DecidableEq ι] in
theorem State.Backed.congr (backed : s.Backed options) (hclock : s.clock ≤ s'.clock)
    (hkey : s'.key = s.key) (hacquired : s'.acquired = s.acquired) : s'.Backed options := by
  intro v hv
  rw [hkey] at hv
  rw [hacquired]
  rcases backed v hv with hpassed | hwithin
  · exact .inl (Nat.lt_of_lt_of_le hpassed hclock)
  · exact .inr hwithin

/-- Setting an instance that keeps its acquire time. -/
theorem State.Backed.setInstance (backed : s.Backed options) {i : ι} {lock : Instance}
    (hlock : lock.lockAcquireTime = (s.instances i).lockAcquireTime) :
    (s.setInstance i lock).Backed options :=
  backed.congr le_rfl rfl (acquired_setInstance_self hlock)

theorem backed_setnx (backed : s.Backed options) (i : ι) :
    (trySetnx options s i).Backed options := by
  unfold trySetnx
  cases s.key with
  | none =>
      apply backed_of_fresh (s := s) (i := i)
      · rfl
      · rw [acquired_setInstance]
        rfl
  | some v => exact backed.setInstance rfl

theorem backed_get (backed : s.Backed options) (i : ι) (now : Nat) :
    (tryGet options s i now).Backed options := by
  unfold tryGet
  cases s.key with
  | none => exact backed.setInstance rfl
  | some v =>
      dsimp only
      split
      · split
        · exact backed.setInstance rfl
        · exact backed.setInstance rfl
      · exact backed.setInstance rfl

theorem backed_getset (backed : s.Backed options) {i : ι}
    (hreplaces : Replaces options s (.getset i)) : (tryGetset options s i).Backed options := by
  obtain ⟨old, hold, hstamp⟩ := hreplaces
  rw [Option.mem_def] at hold
  unfold tryGetset
  rw [hold]
  dsimp only
  split
  · next hlive =>
    -- the old stamp covers the new one
    have hle : stamp options s.clock ≤ old := by
      rcases hstamp with hexpired | hle
      · omega
      · exact hle
    have hwritten : State.Backed options { s with key := some (stamp options s.clock) } := by
      intro v hv
      cases hv
      rcases backed old hold with hpassed | ⟨j, acquired, hacquired, hcovers⟩
      · left
        show 1000 * stamp options s.clock < s.clock
        omega
      · exact .inr ⟨j, acquired, hacquired, hle.trans hcovers⟩
    exact hwritten.setInstance rfl
  · apply backed_of_fresh (s := s) (i := i)
    · rfl
    · rw [acquired_setInstance]
      rfl

/-- A `renew` that finds the key absent is not that of a holder. -/
theorem backed_renew (backed : s.Backed options) (exclusive : Exclusive options s) (i : ι) :
    (renew options s i).Backed options := by
  unfold renew
  dsimp only
  split
  · exact backed.setInstance rfl
  · next hholds =>
    obtain ⟨acquired, hacquired, hlease⟩ := holds_iff_acquired.mp (holds_iff.mpr hholds)
    obtain ⟨v, hkey, -, -⟩ := exclusive.stamped i acquired hacquired hlease
    rw [hkey]
    apply backed_of_fresh (s := s) (i := i)
    · rfl
    · rw [acquired_setInstance]
      rfl

theorem backed_unlock (backed : s.Backed options) (i : ι) :
    (unlock options s i).Backed options := by
  unfold unlock
  dsimp only
  split
  · exact backed.setInstance rfl
  · intro v hkey
    cases hkey

/-- Every event that meets the condition keeps the stamps backed. -/
theorem backed_step {event : Event ι} (backed : s.Backed options)
    (exclusive : Exclusive options s) (hreplaces : Replaces options s event)
    (hstep : step options s event = some s') : s'.Backed options := by
  cases event with
  | tick elapsed =>
      cases hstep
      exact backed.congr (Nat.le_add_right _ elapsed) rfl rfl
  | setnx i =>
      simp only [step] at hstep
      split at hstep
      · cases hstep
        exact backed_setnx backed i
      · cases hstep
  | get i =>
      simp only [step] at hstep
      split at hstep
      · cases hstep
        exact backed_get backed i _
      · cases hstep
  | getset i =>
      simp only [step] at hstep
      split at hstep
      · cases hstep
        exact backed_getset backed hreplaces
      · cases hstep
  | renew i =>
      cases hstep
      exact backed_renew backed exclusive i
  | unlock i =>
      cases hstep
      exact backed_unlock backed i

/-! ## The next call -/

/-- An absent key is taken by `setnx`. -/
theorem setnx_of_absent (options : Options) {i : ι}
    (hidle : (s.instances i).pending = .idle) (hkey : s.key = none) :
    ∃ s', step options s (.setnx i) = some s' ∧ (s'.instances i).reply = .true ∧
      s'.acquired i = some (round3 s'.clock) := by
  refine ⟨trySetnx options s i, ?_, ?_⟩
  · simp only [step, hidle]
  · unfold trySetnx
    rw [hkey]
    dsimp only
    rw [setInstance_self, acquired_setInstance, Function.update_self]
    exact ⟨rfl, rfl⟩

/-- `setnx` leaves a present key to `get`. -/
theorem setnx_of_present (options : Options) {i : ι} {v : Nat}
    (hidle : (s.instances i).pending = .idle)
    (hkey : s.key = some v) :
    ∃ s', step options s (.setnx i) = some s' ∧ s'.key = s.key ∧ s'.clock = s.clock ∧
      (s'.instances i).pending = .beforeGet (round3 s.clock) := by
  refine ⟨trySetnx options s i, ?_, ?_⟩
  · simp only [step, hidle]
  · unfold trySetnx
    rw [hkey]
    dsimp only
    rw [setInstance_self]
    exact ⟨hkey, rfl, rfl⟩

/-- `get` leaves a stamp whose grace is over to `getset`. -/
theorem get_of_expired {i : ι} {now v : Nat} (hpending : (s.instances i).pending = .beforeGet now)
    (hkey : s.key = some v) (hexpired : v + options.expiryGrace < now) :
    ∃ s', step options s (.get i) = some s' ∧ s'.key = s.key ∧ s'.clock = s.clock ∧
      (s'.instances i).pending = .beforeGetset := by
  refine ⟨tryGet options s i now, ?_, ?_⟩
  · simp only [step, hpending]
  · unfold tryGet
    rw [hkey]
    dsimp only
    rw [if_neg (Nat.not_le.mpr hexpired), setInstance_self]
    exact ⟨hkey, rfl, rfl⟩

/-- `getset` takes the place of an expired stamp. -/
theorem getset_of_expired (options : Options) {i : ι} {v : Nat}
    (hpending : (s.instances i).pending = .beforeGetset)
    (hkey : s.key = some v) (hexpired : v < round3 s.clock) :
    ∃ s', step options s (.getset i) = some s' ∧ (s'.instances i).reply = .true ∧
      s'.acquired i = some (round3 s'.clock) := by
  refine ⟨tryGetset options s i, ?_, ?_⟩
  · simp only [step, hpending]
  · unfold tryGetset
    rw [hkey]
    dsimp only
    rw [if_neg (Nat.not_le.mpr hexpired), setInstance_self, acquired_setInstance,
      Function.update_self]
    exact ⟨rfl, rfl⟩

/-- A free key is taken at once when it is absent, and otherwise as soon as the
grace is over too.  Half a millisecond is lost in rounding. -/
theorem State.Free.obtains (hfree : s.Free) {i : ι} (hidle : (s.instances i).pending = .idle)
    {elapsed : Nat}
    (helapsed : s.key = none ∨ 1000 * options.expiryGrace + 500 ≤ elapsed) :
    Obtains options s i elapsed := by
  unfold Obtains State.trylock
  generalize hlater : ({ s with clock := s.clock + elapsed } : State ι) = later
  have htick : step options s (.tick elapsed) = some later := by
    rw [← hlater]
    rfl
  have hidleLater : (later.instances i).pending = .idle := by
    rw [← hlater]
    exact hidle
  have hkeyLater : later.key = s.key := by rw [← hlater]
  cases hkey : s.key with
  | none =>
      obtain ⟨last, hsetnx, hlast⟩ :=
        setnx_of_absent options hidleLater (hkeyLater.trans hkey)
      refine ⟨last, ?_, hlast⟩
      simp only [exec, free, if_true, htick, hsetnx]
  | some v =>
      have hexpired : v + options.expiryGrace < round3 later.clock := by
        have hv := hfree v hkey
        have hwait : 1000 * options.expiryGrace + 500 ≤ elapsed :=
          helapsed.resolve_left (by rw [hkey]; exact Option.some_ne_none v)
        rw [← hlater]
        show v + options.expiryGrace < (s.clock + elapsed + 500) / 1000
        omega
      obtain ⟨first, hsetnx, hkeyFirst, hclockFirst, hfirst⟩ :=
        setnx_of_present options hidleLater (hkeyLater.trans hkey)
      rw [hkeyLater, hkey] at hkeyFirst
      obtain ⟨second, hget, hkeySecond, hclockSecond, hsecond⟩ :=
        get_of_expired hfirst hkeyFirst hexpired
      rw [hkeyFirst] at hkeySecond
      have hover : v < round3 second.clock := by
        rw [hclockSecond, hclockFirst]
        exact Nat.lt_of_le_of_lt (Nat.le_add_right v _) hexpired
      obtain ⟨last, hgetset, hlast⟩ :=
        getset_of_expired options hsecond hkeySecond hover
      refine ⟨last, ?_, hlast⟩
      simp only [exec, free, if_true, htick, hsetnx, hget, hgetset]

/-! ## Runs -/

theorem backed_run {key : Option Nat} {clock : Nat} {events : List (Event ι)}
    (hstart : ∀ v, key = some v → 1000 * v < clock)
    (hrun : Run (step options) (Replaces options) (initial key clock) events s) :
    s.Backed options ∧ Exclusive options s := by
  induction hrun with
  | refl => exact ⟨fun v hkey => .inl (hstart v hkey), exclusive_initial options key clock⟩
  | snoc _ hreplaces hstep ih =>
      obtain ⟨backed, exclusive⟩ := ih
      exact ⟨backed_step backed exclusive hreplaces hstep, exclusive.step hstep⟩

/-- In a run whose `getset`s meet the condition, the key is free whenever nobody
holds the lock, and the next `trylock` gets it. -/
theorem free_of_run {key : Option Nat} {clock : Nat} {events : List (Event ι)}
    (hstart : ∀ v, key = some v → 1000 * v < clock)
    (hrun : Run (step options) (Replaces options) (initial key clock) events s)
    (hidle : ∀ i, (s.instances i).pending = .idle) (hnone : ∀ i, ¬ Holds options s i) :
    s.Free ∧ ∀ i elapsed, s.key = none ∨ 1000 * options.expiryGrace + 500 ≤ elapsed →
      Obtains options s i elapsed := by
  have hfree : s.Free := (backed_run hstart hrun).1.free hnone
  exact ⟨hfree, fun i elapsed helapsed => hfree.obtains (hidle i) helapsed⟩

/-- An instance lets its lock expire.  The next one takes it over and gives it
back, and so does a third one. -/
def givenBack : List (Event (Fin 3)) :=
  [.setnx 0, .tick 10400000, .setnx 2, .get 2, .getset 2, .unlock 2, .setnx 1, .unlock 1]

def givenBackEnd : State (Fin 3) :=
  (exec (step {}) (Replaces {}) (initial none 0) givenBack).getD (initial none 0)

theorem free_givenBack :
    givenBackEnd.Free ∧ ∀ i elapsed, givenBackEnd.key = none ∨ 1000 * 300 + 500 ≤ elapsed →
      Obtains {} givenBackEnd i elapsed := by
  have hrun : Run (step {}) (Replaces {}) (initial none 0) givenBack givenBackEnd :=
    run_exec_getD _ (by decide)
  have hstart : ∀ v, (none : Option Nat) = some v → 1000 * v < 0 := fun v hkey => (nomatch hkey)
  exact free_of_run hstart hrun (by decide) (by decide)

/-- The second and the third instance find the lock of the first expired, and the
third one takes it over and gives it back. -/
def abandoned : List (Event (Fin 3)) :=
  [.setnx 0, .tick 10400000, .setnx 1, .get 1, .setnx 2, .get 2, .getset 2, .unlock 2]

/-- The `getset` of the second instance comes when the key is gone again. -/
def orphaned : State (Fin 3) :=
  (exec (step {}) free (initial none 0) (abandoned ++ [.getset 1])).getD (initial none 0)

/-- Without the condition a stamp stays that nobody answers for. -/
theorem not_free_orphaned :
    ¬ ∀ (events : List (Event (Fin 3))) (s : State (Fin 3)),
      Run (step {}) free (initial none 0) events s → (∀ i, (s.instances i).pending = .idle) →
        (∀ i, ¬ Holds {} s i) → s.Free := by
  intro h
  have hrun : Run (step {}) free (initial none 0) (abandoned ++ [.getset 1]) orphaned :=
    run_exec_getD _ (by decide)
  have hfree := h _ _ hrun (by decide) (by decide) 20400 (by decide)
  exact absurd hfree (by decide)

end RedisLock
end Storage
end ArmyRs
