import ArmyRs.Foundation.Leases
import ArmyRs.Storage.RedisLock

/-!
# Mutual exclusion of the Redis lock

For the acquire times, the key and the clock an instance is a client of a lease; the
position and the reply of a call do not matter for exclusion.  Times are whole
milliseconds here, as the doubles of the code are when the timeout is a number of eighths
of a second; `RedisLockDoubles` has the lock with its doubles.
-/

namespace ArmyRs
namespace Storage
namespace RedisLock

open Foundation

variable {ι : Type*} [DecidableEq ι]

/-- The acquire times of all instances. -/
def State.acquired (s : State ι) : ι → Option Nat := fun i => (s.instances i).lockAcquireTime

/-- The clock, the key and the acquire times. -/
def State.leases (s : State ι) : LeaseState ι Nat Nat := ⟨s.clock, s.key, s.acquired⟩

theorem round3_mono {t u : Nat} (h : t ≤ u) : round3 t ≤ round3 u :=
  Nat.div_le_div_right (by omega)

/-- The timing of a lock.  Once the rounded clock is past a stamp, the clock is past the
end of every lease the stamp covers. -/
def timing (options : Options) : LeaseTiming Nat Nat where
  now := round3
  stamp acquired := acquired + options.lockTimeout
  Valid acquired clock := clock ≤ 1000 * acquired + 1000 * options.lockTimeout
  span := Set.univ
  readings := Set.univ
  now_mem _ _ := trivial
  stamp_mono _ _ _ _ hle := Nat.add_le_add_right (round3_mono hle) _
  valid_anti _ _ _ hle hvalid := hle.trans hvalid
  ended a _ c _ hlate := by
    unfold round3 at hlate
    omega

theorem acquired_setInstance (s : State ι) (i : ι) (lock : Instance) :
    (s.setInstance i lock).acquired = Function.update s.acquired i lock.lockAcquireTime := by
  funext j
  by_cases hj : j = i
  · subst hj
    simp [State.acquired, State.setInstance]
  · simp [State.acquired, State.setInstance, Function.update_of_ne hj]

/-- Setting an instance that keeps its acquire time keeps all of them. -/
theorem acquired_setInstance_self {s : State ι} {i : ι} {lock : Instance}
    (h : lock.lockAcquireTime = (s.instances i).lockAcquireTime) :
    (s.setInstance i lock).acquired = s.acquired := by
  rw [acquired_setInstance, h]
  exact Function.update_eq_self i s.acquired

omit [DecidableEq ι] in
/-- A holder is an instance with an acquire time whose lease has not ended. -/
theorem holds_iff_acquired {options : Options} {s : State ι} {i : ι} :
    Holds options s i ↔ ∃ acquired, s.acquired i = some acquired ∧
      s.clock ≤ 1000 * acquired + 1000 * options.lockTimeout := by
  unfold Holds Instance.timedOut State.acquired
  cases (s.instances i).lockAcquireTime with
  | none => simp
  | some acquired => simp

theorem change_trySetnx (options : Options) (s : State ι) (i : ι) :
    LeaseChange (timing options) s.leases (trySetnx options s i).leases := by
  unfold trySetnx
  cases hkey : s.key with
  | none =>
      refine .acquire i rfl rfl (fun v hv => ?_) (acquired_setInstance _ i _)
      exact absurd (hkey.symm.trans hv) nofun
  | some v =>
      exact .quiet le_rfl rfl (acquired_setInstance_self rfl)

theorem change_tryGet (options : Options) (s : State ι) (i : ι) (now : Nat) :
    LeaseChange (timing options) s.leases (tryGet options s i now).leases := by
  unfold tryGet
  cases hkey : s.key with
  | none => exact .quiet le_rfl rfl (acquired_setInstance_self rfl)
  | some v =>
      simp only
      split
      · split
        · exact .quiet le_rfl rfl (acquired_setInstance_self rfl)
        · exact .quiet le_rfl rfl (acquired_setInstance_self rfl)
      · exact .quiet le_rfl rfl (acquired_setInstance_self rfl)

theorem change_tryGetset (options : Options) (s : State ι) (i : ι) :
    LeaseChange (timing options) s.leases (tryGetset options s i).leases := by
  unfold tryGetset
  cases hkey : s.key with
  | none => exact .overwrite rfl rfl (acquired_setInstance_self rfl)
  | some v =>
      simp only
      split
      · exact .overwrite rfl rfl (acquired_setInstance_self rfl)
      · next hexpired =>
        refine .acquire i rfl rfl (fun u hu => ?_) (acquired_setInstance _ i _)
        obtain rfl : v = u := Option.some.inj (hkey.symm.trans hu)
        exact not_le.mp hexpired

omit [DecidableEq ι] in
/-- The test in front of `renew` and `unlock` fails exactly for a holder. -/
theorem holds_iff {options : Options} {s : State ι} {i : ι} :
    Holds options s i ↔ ¬ ((s.instances i).lockAcquireTime = none ∨
      (s.instances i).timedOut options s.clock = true) := by
  unfold Holds
  rw [not_or, Bool.not_eq_true]

theorem change_renew (options : Options) (s : State ι) (i : ι) :
    LeaseChange (timing options) s.leases (renew options s i).leases := by
  unfold renew
  simp only
  split
  · exact .quiet le_rfl rfl (acquired_setInstance_self rfl)
  · next hholds =>
    cases hkey : s.key with
    | none => exact .overwrite rfl rfl (acquired_setInstance_self rfl)
    | some v =>
        exact .renew i (holds_iff_acquired.mp (holds_iff.mpr hholds)) rfl rfl
          (acquired_setInstance _ i _)

theorem change_unlock (options : Options) (s : State ι) (i : ι) :
    LeaseChange (timing options) s.leases (unlock options s i).leases := by
  unfold unlock
  simp only
  split
  · exact .quiet le_rfl rfl (acquired_setInstance_self rfl)
  · next hholds =>
    exact .release i (holds_iff_acquired.mp (holds_iff.mpr hholds)) rfl rfl
      (acquired_setInstance _ i _)

/-- Every event is one of the changes. -/
theorem change_of_step {options : Options} {s s' : State ι} {event : Event ι}
    (h : step options s event = some s') : LeaseChange (timing options) s.leases s'.leases := by
  cases event with
  | tick elapsed =>
      cases h
      exact .quiet (Nat.le_add_right _ _) rfl rfl
  | setnx i =>
      simp only [step] at h
      split at h
      · cases h
        exact change_trySetnx options s i
      · cases h
  | get i =>
      simp only [step] at h
      split at h
      · cases h
        exact change_tryGet options s i _
      · cases h
  | getset i =>
      simp only [step] at h
      split at h
      · cases h
        exact change_tryGetset options s i
      · cases h
  | renew i =>
      cases h
      exact change_renew options s i
  | unlock i =>
      cases h
      exact change_unlock options s i

/-- The instance an event is about. -/
def Event.subject : Event ι → Option ι
  | .tick _ => none
  | .setnx i | .get i | .getset i | .renew i | .unlock i => some i

theorem setInstance_of_ne {s : State ι} {i j : ι} {lock : Instance} (h : j ≠ i) :
    (s.setInstance i lock).instances j = s.instances j := by
  simp [State.setInstance, Function.update_of_ne h]

/-- An event leaves all other instances alone. -/
theorem step_instances_of_ne {options : Options} {s s' : State ι} {event : Event ι} {j : ι}
    (hstep : step options s event = some s') (hne : event.subject ≠ some j) :
    s'.instances j = s.instances j := by
  cases event with
  | tick elapsed =>
      cases hstep
      rfl
  | setnx i =>
      -- every command writes the instance of its caller only
      have hji : j ≠ i := fun h => hne (by rw [h]; rfl)
      simp only [step] at hstep
      split at hstep
      · cases hstep
        unfold trySetnx
        cases s.key with
        | none => exact setInstance_of_ne hji
        | some v => exact setInstance_of_ne hji
      · cases hstep
  | get i =>
      have hji : j ≠ i := fun h => hne (by rw [h]; rfl)
      simp only [step] at hstep
      split at hstep
      · cases hstep
        unfold tryGet
        cases s.key with
        | none => exact setInstance_of_ne hji
        | some v =>
            simp only
            split
            · split
              · exact setInstance_of_ne hji
              · exact setInstance_of_ne hji
            · exact setInstance_of_ne hji
      · cases hstep
  | getset i =>
      have hji : j ≠ i := fun h => hne (by rw [h]; rfl)
      simp only [step] at hstep
      split at hstep
      · cases hstep
        unfold tryGetset
        cases s.key with
        | none => exact setInstance_of_ne hji
        | some v =>
            simp only
            split
            · exact setInstance_of_ne hji
            · exact setInstance_of_ne hji
      · cases hstep
  | renew i =>
      have hji : j ≠ i := fun h => hne (by rw [h]; rfl)
      cases hstep
      unfold renew
      simp only
      split
      · exact setInstance_of_ne hji
      · cases s.key with
        | none => exact setInstance_of_ne hji
        | some v => exact setInstance_of_ne hji
  | unlock i =>
      have hji : j ≠ i := fun h => hne (by rw [h]; rfl)
      cases hstep
      unfold unlock
      simp only
      split
      · exact setInstance_of_ne hji
      · exact setInstance_of_ne hji

theorem setInstance_self {s : State ι} {i : ι} {lock : Instance} :
    (s.setInstance i lock).instances i = lock := by
  simp [State.setInstance]

/-- A command that ends `trylock` with `true` has acquired the lock. -/
theorem acquired_of_reply {options : Options} {s s' : State ι} {event : Event ι} {i : ι}
    (hevent : event = .setnx i ∨ event = .get i ∨ event = .getset i)
    (hstep : step options s event = some s') (hidle : (s'.instances i).pending = .idle)
    (hreply : (s'.instances i).reply = .true) :
    (s'.instances i).lockAcquireTime = some (round3 s.clock) := by
  rcases hevent with rfl | rfl | rfl
  · simp only [step] at hstep
    split at hstep
    · cases hstep
      unfold trySetnx at hidle ⊢
      -- `setnx` has taken the key when there was none
      cases hkey : s.key with
      | none => simp only [setInstance_self]
      | some v =>
          simp only [hkey, setInstance_self] at hidle
          cases hidle
    · cases hstep
  · simp only [step] at hstep
    split at hstep
    · cases hstep
      unfold tryGet at hidle hreply
      -- `get` never ends with `true`
      cases hkey : s.key with
      | none =>
          simp only [hkey, setInstance_self] at hreply
          cases hreply
      | some v =>
          simp only [hkey] at hidle hreply
          split at hidle
          · next hgrace =>
            rw [if_pos hgrace] at hreply
            split at hreply
            · simp only [setInstance_self] at hreply
              cases hreply
            · simp only [setInstance_self] at hreply
              cases hreply
          · simp only [setInstance_self] at hidle
            cases hidle
    · cases hstep
  · simp only [step] at hstep
    split at hstep
    · cases hstep
      unfold tryGetset at hreply ⊢
      -- `getset` has taken the key when the stamp it replaced was over
      cases hkey : s.key with
      | none =>
          simp only [hkey, setInstance_self] at hreply
          cases hreply
      | some v =>
          simp only [hkey] at hreply ⊢
          split at hreply
          · simp only [setInstance_self] at hreply
            cases hreply
          · next hexpired =>
            rw [if_neg hexpired]
            simp only [setInstance_self]
    · cases hstep

/-! ## The invariant -/

/-- The key carries a stamp for every holder, and there is at most one. -/
structure Exclusive (options : Options) (s : State ι) : Prop where
  stamped : ∀ i acquired, s.acquired i = some acquired →
    s.clock ≤ 1000 * acquired + 1000 * options.lockTimeout →
    ∃ v, s.key = some v ∧ acquired + options.lockTimeout ≤ v ∧ v ≤ stamp options s.clock
  unique : ∀ i j, Holds options s i → Holds options s j → i = j

omit [DecidableEq ι] in
theorem exclusive_iff {options : Options} {s : State ι} :
    Exclusive options s ↔ Leased (timing options) s.leases := by
  constructor
  · intro h
    exact ⟨fun _ _ _ => trivial, h.stamped,
      fun i j hi hj => h.unique i j (holds_iff_acquired.mpr hi) (holds_iff_acquired.mpr hj)⟩
  · intro h
    exact ⟨h.stamped,
      fun i j hi hj => h.unique i j (holds_iff_acquired.mp hi) (holds_iff_acquired.mp hj)⟩

/-- One event keeps exclusion. -/
theorem Exclusive.step {options : Options} {s s' : State ι} {event : Event ι}
    (h : Exclusive options s) (hstep : step options s event = some s') :
    Exclusive options s' :=
  exclusive_iff.mpr ((exclusive_iff.mp h).change trivial trivial (change_of_step hstep))

omit [DecidableEq ι] in
theorem exclusive_initial (options : Options) (key : Option Nat) (clock : Nat) :
    Exclusive options (initial key clock : State ι) :=
  exclusive_iff.mpr (leased_of_new fun _ => rfl)

/-- In every state of every run over one key, whatever the key held at the
start, at most one instance has acquired the lock and is not past its own
timeout. -/
theorem mutual_exclusion {options : Options} {key : Option Nat} {clock : Nat}
    {events : List (Event ι)} {s : State ι}
    (hrun : Run (step options) free (initial key clock) events s) :
    {i | Holds options s i}.Subsingleton := by
  have hexclusive : Exclusive options s :=
    hrun.invariant (exclusive_initial options key clock) fun _ _ _ h _ hstep => h.step hstep
  intro i hi j hj
  exact hexclusive.unique i j hi hj

end RedisLock
end Storage
end ArmyRs
