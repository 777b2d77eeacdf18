import ArmyRs.Winnie.Scheduler

/-!
# Runs of the scheduler

In a run that heeds the condition of `Heeds`, no clock is called after its
handle was unscheduled, a delayed function is called once at most, and what is
called is what was given (`obeys_of_run`).

A clock object that is in use lies in one of the five lists, and its handle is
its own (`Kept`).  A clock that was unscheduled is stopped as long as it is in
use, and it is not among the collected ones.
-/

namespace ArmyRs
namespace Winnie

open Foundation

variable {F : Type*}

/-- What the log has to say. -/
structure Obeys (log : List (Entry F)) : Prop where
  unscheduled : ∀ kind id func other,
    ¬ [.scheduled kind id func, .unscheduled kind id, .ran kind id other].Sublist log
  delayed : ∀ id func, .delayed id func ∈ log → log.countP (isRan id) ≤ 1
  given : ∀ kind id func, .ran kind id func ∈ log →
    .scheduled kind id func ∈ log ∨ kind = .update ∧ .delayed id func ∈ log

/-! ## The log -/

section

variable {log before : List (Entry F)} {last entry : Entry F} {id uuid : Nat}

/-- What happened in this order has happened before, or it ends now. -/
theorem sublist_snoc (entries : List (Entry F)) :
    (entries ++ [entry]).Sublist (log ++ [last]) ↔
      (entries ++ [entry]).Sublist log ∨ entry = last ∧ entries.Sublist log := by
  rw [List.sublist_append_iff]
  constructor
  · rintro ⟨first, rest, heq, hfirst, hrest⟩
    rcases List.sublist_singleton.mp hrest with rfl | rfl
    · rw [List.append_nil] at heq
      exact .inl (heq ▸ hfirst)
    · obtain ⟨rfl, hlast⟩ := List.append_inj' heq rfl
      exact .inr ⟨List.singleton_inj.mp hlast, hfirst⟩
  · rintro (hsub | ⟨rfl, hsub⟩)
    · exact ⟨_, [], (List.append_nil _).symm, hsub, List.nil_sublist _⟩
    · exact ⟨_, _, rfl, hsub, List.Sublist.refl _⟩

/-- The number of the entry, when it has been given out. -/
def Entry.Old (uuid : Nat) : Entry F → Prop
  | .scheduled _ id _ | .delayed id _ | .ran _ id _ => id ≤ uuid
  | .unscheduled .. => True

theorem Entry.Old.mono {later : Nat} (hle : uuid ≤ later) (h : entry.Old uuid) :
    entry.Old later := by
  cases entry with
  | scheduled kind id func => exact Nat.le_trans h hle
  | delayed id func => exact Nat.le_trans h hle
  | ran kind id func => exact Nat.le_trans h hle
  | unscheduled kind id => trivial

/-- A number that is not given out yet has not been called. -/
theorem not_any_isRan (hold : ∀ entry ∈ log, entry.Old uuid) (hid : uuid < id) :
    log.any (isRan id) = false := by
  rw [List.any_eq_false]
  intro entry hentry hran
  have hle := hold entry hentry
  cases entry with
  | ran kind other func =>
      have heq : other = id := by simpa [isRan] using hran
      subst heq
      exact Nat.lt_irrefl _ (Nat.lt_of_lt_of_le hid hle)
  | scheduled kind other func => cases hran
  | delayed other func => cases hran
  | unscheduled kind other => cases hran

theorem any_isDelayed_iff : log.any (isDelayed id) = true ↔ ∃ func, .delayed id func ∈ log := by
  rw [List.any_eq_true]
  constructor
  · rintro ⟨entry, hentry, hdelayed⟩
    cases entry with
    | delayed other func =>
        have heq : other = id := by simpa [isDelayed] using hdelayed
        exact ⟨func, heq ▸ hentry⟩
    | scheduled kind other func => cases hdelayed
    | ran kind other func => cases hdelayed
    | unscheduled kind other => cases hdelayed
  · rintro ⟨func, hmem⟩
    exact ⟨_, hmem, by simp [isDelayed]⟩

end

namespace Scheduler

/-- The clock object lies in one of the lists. -/
def InUse (s : Scheduler F) (ref : Nat) : Prop :=
  ∃ kind, ref ∈ s.clocks kind

/-- The function was given with this number. -/
def Given (s : Scheduler F) (kind : Kind) (id : Nat) (func : F) : Prop :=
  .scheduled kind id func ∈ s.log ∨ kind = .update ∧ .delayed id func ∈ s.log

end Scheduler

/-- The clock objects in use are in one place each, and hold what was given with
their numbers. -/
structure Placed (s : Scheduler F) : Prop where
  apart : s.clockPool.Apart s.InUse
  nodup : ∀ kind, (s.clocks kind).Nodup
  kinds : ∀ kind, ∀ ref ∈ s.clocks kind, (s.clock ref).kind = kind
  ids : ∀ ref other, s.InUse ref → s.InUse other → (s.clock ref).id = (s.clock other).id →
    ref = other
  id_le : ∀ ref, s.InUse ref → (s.clock ref).id ≤ s.uuid
  funcs : ∀ ref, s.InUse ref → ∃ func, (s.clock ref).func = some func ∧
    s.Given (s.clock ref).kind (s.clock ref).id func

/-- What every step keeps. -/
structure Kept (s : Scheduler F) : Prop extends Placed s where
  pending : ∀ ref ∈ s.currentFuncs, s.InUse ref
  pending_nodup : s.currentFuncs.Nodup
  old : ∀ entry ∈ s.log, entry.Old s.uuid
  stopped : ∀ kind id func, [.scheduled kind id func, .unscheduled kind id].Sublist s.log →
    ∀ ref ∈ s.clocks kind, (s.clock ref).id = id →
      (s.clock ref).stopped = true ∧ ref ∉ s.currentFuncs
  unrun : ∀ ref ∈ s.currentFuncs, s.log.any (isDelayed (s.clock ref).id) = true →
    s.log.any (isRan (s.clock ref).id) = false
  obeys : Obeys s.log

variable {s next : Scheduler F}

theorem kept_new : Kept (Scheduler.new : Scheduler F) where
  apart := Pool.apart_new 1024 fun _ ⟨_, h⟩ => nomatch h
  nodup := fun _ => List.nodup_nil
  kinds := fun _ _ h => nomatch h
  ids := fun _ _ ⟨_, h⟩ => nomatch h
  id_le := fun _ ⟨_, h⟩ => nomatch h
  funcs := fun _ ⟨_, h⟩ => nomatch h
  pending := fun _ h => nomatch h
  pending_nodup := List.nodup_nil
  old := fun _ h => nomatch h
  stopped := fun _ _ _ h => nomatch h
  unrun := fun _ h => nomatch h
  obeys := ⟨fun _ _ _ _ h => (nomatch h), fun _ _ h => (nomatch h), fun _ _ _ h => (nomatch h)⟩

/-! ## Scheduling -/

/-- What scheduling does: an object that was not in use gets a clock with the next
number, and stands at the end of its list. -/
structure Adds (s : Scheduler F) (kind : Kind) (func : F) (ref : Nat) (next : Scheduler F) :
    Prop where
  unused : ¬ s.InUse ref
  apart : next.clockPool.Apart fun other => s.InUse other ∨ other = ref
  clock : ∃ interval, next.clock =
    Function.update s.clock ref ⟨s.uuid + 1, kind, interval, none, some func, false⟩
  clocks : next.clocks = Function.update s.clocks kind (s.clocks kind ++ [ref])
  uuid : next.uuid = s.uuid + 1
  currentFuncs : next.currentFuncs = s.currentFuncs

theorem adds_scheduleWith (h : Placed s) (kind : Kind) (interval : ℚ) (func : F) :
    ∃ ref, Adds s kind func ref (s.scheduleWith kind interval func) :=
  ⟨s.clockPool.borrow.1, h.apart.borrow_unused, h.apart.borrow, ⟨interval, rfl⟩, rfl, rfl, rfl⟩

section

variable {kind : Kind} {func : F} {ref : Nat}

theorem Adds.mem_clocks (hadds : Adds s kind func ref next) {other : Nat} {of : Kind} :
    other ∈ next.clocks of ↔ other ∈ s.clocks of ∨ of = kind ∧ other = ref := by
  rw [hadds.clocks]
  by_cases hof : of = kind
  · subst hof
    simp
  · simp [hof]

theorem Adds.inUse (hadds : Adds s kind func ref next) {other : Nat} :
    next.InUse other ↔ s.InUse other ∨ other = ref := by
  unfold Scheduler.InUse
  simp only [hadds.mem_clocks, exists_or, exists_eq_left]

/-- The clocks that were in use are as they were. -/
theorem Adds.clock_of_inUse (hadds : Adds s kind func ref next) {other : Nat}
    (hother : s.InUse other) : next.clock other = s.clock other := by
  obtain ⟨interval, hclock⟩ := hadds.clock
  rw [hclock, Function.update_of_ne]
  rintro rfl
  exact hadds.unused hother

theorem Adds.clock_new (hadds : Adds s kind func ref next) :
    ∃ interval, next.clock ref = ⟨s.uuid + 1, kind, interval, none, some func, false⟩ := by
  obtain ⟨interval, hclock⟩ := hadds.clock
  exact ⟨interval, by rw [hclock, Function.update_self]⟩

/-- What the log says of a call stays as it is with a new clock. -/
theorem countP_isRan_snoc {log : List (Entry F)} {entry : Entry F}
    (hentry : ∀ id, isRan id entry = false) (id : Nat) :
    (log ++ [entry]).countP (isRan id) = log.countP (isRan id) := by
  rw [List.countP_append, List.countP_singleton, hentry id]
  simp

theorem any_isRan_snoc {log : List (Entry F)} {entry : Entry F}
    (hentry : ∀ id, isRan id entry = false) (id : Nat) :
    (log ++ [entry]).any (isRan id) = log.any (isRan id) := by
  simp [hentry id]

/-- An entry that is no call keeps what the log has to say, when a function that
is delayed by it has a new number. -/
theorem Obeys.snoc {log : List (Entry F)} {entry : Entry F} (h : Obeys log)
    (hentry : ∀ id, isRan id entry = false)
    (hnew : ∀ id func, entry = .delayed id func → log.any (isRan id) = false) :
    Obeys (log ++ [entry]) := by
  have hnot : ∀ kind id other, Entry.ran kind id other ≠ entry := by
    rintro kind id other rfl
    simpa [isRan] using hentry id
  constructor
  · intro kind id func other hsub
    rcases (sublist_snoc [_, _]).mp hsub with hbefore | ⟨hlast, -⟩
    · exact h.unscheduled kind id func other hbefore
    · exact hnot kind id other hlast
  · intro id func hmem
    rw [countP_isRan_snoc hentry]
    rcases List.mem_append.mp hmem with hbefore | hlast
    · exact h.delayed id func hbefore
    · have hzero : log.countP (isRan id) = 0 := by
        rw [List.countP_eq_zero]
        have hany := hnew id func (List.mem_singleton.mp hlast).symm
        rw [List.any_eq_false] at hany
        exact hany
      omega
  · intro kind id func hmem
    rcases List.mem_append.mp hmem with hbefore | hlast
    · exact (h.given kind id func hbefore).imp (List.mem_append_left _)
        (And.imp_right (List.mem_append_left _))
    · exact absurd (List.mem_singleton.mp hlast) (hnot kind id func)

/-- A new clock is in a place of its own. -/
theorem Placed.adds (h : Placed s) (hadds : Adds s kind func ref next)
    (hmem : ∀ entry ∈ s.log, entry ∈ next.log)
    (hgiven : next.Given kind (s.uuid + 1) func) : Placed next := by
  obtain ⟨interval, hnew⟩ := hadds.clock_new
  constructor
  · exact hadds.apart.mono fun other hother => hadds.inUse.mp hother
  · intro of
    rw [hadds.clocks]
    by_cases hof : of = kind
    · subst hof
      rw [Function.update_self, List.nodup_append]
      refine ⟨h.nodup of, List.nodup_singleton ref, ?_⟩
      rintro other hother _ hlast rfl
      exact hadds.unused ⟨of, List.mem_singleton.mp hlast ▸ hother⟩
    · rw [Function.update_of_ne hof]
      exact h.nodup of
  · intro of other hother
    rcases hadds.mem_clocks.mp hother with hold | ⟨rfl, rfl⟩
    · rw [hadds.clock_of_inUse ⟨of, hold⟩]
      exact h.kinds of other hold
    · rw [hnew]
  · intro first second hfirst hsecond hid
    rcases hadds.inUse.mp hfirst with hfirst | rfl
    · have hle := h.id_le first hfirst
      rw [hadds.clock_of_inUse hfirst] at hid
      rcases hadds.inUse.mp hsecond with hsecond | rfl
      · rw [hadds.clock_of_inUse hsecond] at hid
        exact h.ids first second hfirst hsecond hid
      · rw [hnew] at hid
        dsimp only at hid
        omega
    · rcases hadds.inUse.mp hsecond with hsecond | rfl
      · have hle := h.id_le second hsecond
        rw [hadds.clock_of_inUse hsecond, hnew] at hid
        dsimp only at hid
        omega
      · rfl
  · intro other hother
    rw [hadds.uuid]
    rcases hadds.inUse.mp hother with hold | rfl
    · rw [hadds.clock_of_inUse hold]
      exact Nat.le_succ_of_le (h.id_le other hold)
    · rw [hnew]
  · intro other hother
    rcases hadds.inUse.mp hother with hold | rfl
    · rw [hadds.clock_of_inUse hold]
      obtain ⟨given, hfunc, hgiven⟩ := h.funcs other hold
      exact ⟨given, hfunc, hgiven.imp (hmem _) (And.imp_right (hmem _))⟩
    · rw [hnew]
      exact ⟨func, rfl, hgiven⟩

/-- A new clock with the next number, whichever of the two the log says. -/
theorem Kept.adds (h : Kept s) (hadds : Adds s kind func ref next) {entry : Entry F}
    (hentry : entry = .scheduled kind (s.uuid + 1) func ∨
      kind = .update ∧ entry = .delayed (s.uuid + 1) func)
    (hlog : next.log = s.log ++ [entry]) : Kept next := by
  obtain ⟨interval, hnew⟩ := hadds.clock_new
  have hmem : ∀ e ∈ s.log, e ∈ next.log := by
    intro e he
    rw [hlog]
    exact List.mem_append_left _ he
  have hnotRan : ∀ id, isRan id entry = false := by
    intro id
    rcases hentry with rfl | ⟨-, rfl⟩ <;> rfl
  have hnotUnscheduled : ∀ k id, Entry.unscheduled k id ≠ entry := by
    rintro k id heq
    rcases hentry with rfl | ⟨-, rfl⟩ <;> cases heq
  have hgiven : next.Given kind (s.uuid + 1) func := by
    unfold Scheduler.Given
    rw [hlog]
    rcases hentry with rfl | ⟨hkind, rfl⟩
    · exact .inl (List.mem_append_right _ List.mem_cons_self)
    · exact .inr ⟨hkind, List.mem_append_right _ List.mem_cons_self⟩
  refine ⟨h.toPlaced.adds hadds hmem hgiven, ?_, ?_, ?_, ?_, ?_, ?_⟩
  · intro other hother
    rw [hadds.currentFuncs] at hother
    exact hadds.inUse.mpr (.inl (h.pending other hother))
  · rw [hadds.currentFuncs]
    exact h.pending_nodup
  · intro e he
    rw [hadds.uuid]
    rw [hlog] at he
    rcases List.mem_append.mp he with hold | hlast
    · exact (h.old e hold).mono (Nat.le_succ _)
    · rw [List.mem_singleton.mp hlast]
      rcases hentry with rfl | ⟨-, rfl⟩
      · exact Nat.le_refl _
      · exact Nat.le_refl _
  · intro k id given hsub other hother hid
    rw [hlog] at hsub
    rcases (sublist_snoc [_]).mp hsub with hbefore | ⟨hlast, -⟩
    · rcases hadds.mem_clocks.mp hother with hold | ⟨rfl, rfl⟩
      · rw [hadds.clock_of_inUse ⟨k, hold⟩] at hid ⊢
        rw [hadds.currentFuncs]
        exact h.stopped k id given hbefore other hold hid
      · -- the number of the new clock was not given out before
        have hle : id ≤ s.uuid := h.old _ (hbefore.subset List.mem_cons_self)
        rw [hnew] at hid
        dsimp only at hid
        omega
    · exact absurd hlast (hnotUnscheduled k id)
  · intro other hother hdelayed
    rw [hadds.currentFuncs] at hother
    have hold := h.pending other hother
    rw [hadds.clock_of_inUse hold] at hdelayed ⊢
    rw [hlog, any_isRan_snoc hnotRan]
    apply h.unrun other hother
    rw [hlog, List.any_append, Bool.or_eq_true] at hdelayed
    rcases hdelayed with hbefore | hlast
    · exact hbefore
    · have hle := h.id_le other hold
      rcases hentry with rfl | ⟨-, rfl⟩
      · simp [isDelayed] at hlast
      · simp [isDelayed] at hlast
        omega
  · rw [hlog]
    apply h.obeys.snoc hnotRan
    intro id given heq
    apply not_any_isRan h.old
    rcases hentry with rfl | ⟨-, rfl⟩
    · cases heq
    · cases heq
      exact Nat.lt_succ_self _

end

theorem Kept.schedule (h : Kept s) (kind : Kind) (interval : ℚ) (func : F) :
    Kept (s.schedule kind interval func) := by
  obtain ⟨ref, hadds⟩ := adds_scheduleWith h.toPlaced kind interval func
  have hnext : Adds s kind func ref (s.schedule kind interval func) :=
    ⟨hadds.unused, hadds.apart, hadds.clock, hadds.clocks, hadds.uuid, hadds.currentFuncs⟩
  exact h.adds hnext (.inl rfl) rfl

theorem Kept.performWithDelay (h : Kept s) (delay : ℚ) (func : F) :
    Kept (s.performWithDelay delay func) := by
  obtain ⟨ref, hadds⟩ := adds_scheduleWith h.toPlaced .update delay func
  have hnext : Adds s .update func ref (s.performWithDelay delay func) :=
    ⟨hadds.unused, hadds.apart, hadds.clock, hadds.clocks, hadds.uuid, hadds.currentFuncs⟩
  exact h.adds hnext (.inr ⟨rfl, rfl⟩) rfl

/-! ## Unscheduling -/

/-- Clocks that only differ in being stopped and in their last time. -/
def Clock.Alike (clock other : Clock F) : Prop :=
  other.id = clock.id ∧ other.kind = clock.kind ∧ other.func = clock.func

theorem Placed.same (h : Placed s) (hpool : next.clockPool = s.clockPool)
    (hclocks : next.clocks = s.clocks) (huuid : next.uuid = s.uuid)
    (halike : ∀ ref, (s.clock ref).Alike (next.clock ref))
    (hmem : ∀ entry ∈ s.log, entry ∈ next.log) : Placed next := by
  have hinUse : ∀ ref, next.InUse ref ↔ s.InUse ref := by
    intro ref
    unfold Scheduler.InUse
    rw [hclocks]
  constructor
  · rw [hpool]
    exact h.apart.mono fun ref hused => (hinUse ref).mp hused
  · rw [hclocks]
    exact h.nodup
  · intro kind ref href
    rw [hclocks] at href
    rw [(halike ref).2.1]
    exact h.kinds kind ref href
  · intro ref other href hother hid
    rw [(halike ref).1, (halike other).1] at hid
    exact h.ids ref other ((hinUse ref).mp href) ((hinUse other).mp hother) hid
  · intro ref href
    rw [(halike ref).1, huuid]
    exact h.id_le ref ((hinUse ref).mp href)
  · intro ref href
    obtain ⟨hid, hkind, hfunc⟩ := halike ref
    rw [hid, hkind, hfunc]
    obtain ⟨func, hsome, hgiven⟩ := h.funcs ref ((hinUse ref).mp href)
    exact ⟨func, hsome, hgiven.imp (hmem _) (And.imp_right (hmem _))⟩

/-- No clock has the number, or the one that has it is stopped. -/
theorem unscheduleUpdater_cases (s : Scheduler F) (kind : Kind) (id : Nat) :
    (∀ ref ∈ s.clocks kind, (s.clock ref).id ≠ id) ∧ s.unscheduleUpdater kind id = s ∨
      ∃ ref ∈ s.clocks kind, (s.clock ref).id = id ∧ s.unscheduleUpdater kind id =
        { s with clock := Function.update s.clock ref { s.clock ref with stopped := true } } := by
  unfold Scheduler.unscheduleUpdater
  cases hfind : (s.clocks kind).find? fun ref => (s.clock ref).id = id with
  | none => exact .inl ⟨by simpa using List.find?_eq_none.mp hfind, rfl⟩
  | some ref =>
      have hid := List.find?_some hfind
      exact .inr ⟨ref, List.mem_of_find?_eq_some hfind, by simpa using hid, rfl⟩

theorem Kept.unschedule (h : Kept s) {kind : Kind} {id : Nat}
    (hheeds : ∀ ref ∈ s.currentFuncs, (s.clock ref).kind = kind → (s.clock ref).id ≠ id) :
    Kept (s.unschedule kind id) := by
  have hentry : ∀ other, isRan other (Entry.unscheduled kind id : Entry F) = false := fun _ => rfl
  unfold Scheduler.unschedule
  generalize hnext : s.unscheduleUpdater kind id = next
  have hrest : next.clockPool = s.clockPool ∧ next.clocks = s.clocks ∧ next.uuid = s.uuid ∧
      next.currentFuncs = s.currentFuncs := by
    rcases unscheduleUpdater_cases s kind id with ⟨-, heq⟩ | ⟨ref, -, -, heq⟩
    · rw [← hnext, heq]
      exact ⟨rfl, rfl, rfl, rfl⟩
    · rw [← hnext, heq]
      exact ⟨rfl, rfl, rfl, rfl⟩
  have hclock : ∀ ref, (s.clock ref).Alike (next.clock ref) ∧
      ((s.clock ref).stopped = true → (next.clock ref).stopped = true) := by
    intro ref
    rcases unscheduleUpdater_cases s kind id with ⟨-, heq⟩ | ⟨found, -, -, heq⟩
    · rw [← hnext, heq]
      exact ⟨⟨rfl, rfl, rfl⟩, fun hstopped => hstopped⟩
    · rw [← hnext, heq]
      dsimp only
      by_cases href : ref = found
      · subst href
        rw [Function.update_self]
        exact ⟨⟨rfl, rfl, rfl⟩, fun _ => rfl⟩
      · rw [Function.update_of_ne href]
        exact ⟨⟨rfl, rfl, rfl⟩, fun hstopped => hstopped⟩
  have hstop : ∀ ref ∈ s.clocks kind, (s.clock ref).id = id → (next.clock ref).stopped = true := by
    intro ref href hid
    rcases unscheduleUpdater_cases s kind id with ⟨hnone, -⟩ | ⟨found, hfound, hfoundId, heq⟩
    · exact absurd hid (hnone ref href)
    · have hsame := h.ids ref found ⟨kind, href⟩ ⟨kind, hfound⟩ (hid.trans hfoundId.symm)
      subst hsame
      rw [← hnext, heq]
      dsimp only
      rw [Function.update_self]
  obtain ⟨hpool, hclocks, huuid, hpending⟩ := hrest
  refine ⟨h.toPlaced.same hpool hclocks huuid (fun ref => (hclock ref).1)
    fun _ => List.mem_append_left _, ?_, ?_, ?_, ?_, ?_, ?_⟩
  · intro ref href
    show ∃ kind, ref ∈ next.clocks kind
    rw [hclocks]
    exact h.pending ref (hpending ▸ href)
  · show next.currentFuncs.Nodup
    rw [hpending]
    exact h.pending_nodup
  · intro entry hentryMem
    show entry.Old next.uuid
    rw [huuid]
    rcases List.mem_append.mp hentryMem with hold | hlast
    · exact h.old entry hold
    · rw [List.mem_singleton.mp hlast]
      trivial
  · intro other otherId func hsub ref href hid
    dsimp only at hsub href hid ⊢
    rw [hclocks] at href
    rw [(hclock ref).1.1] at hid
    rw [hpending]
    rcases (sublist_snoc [_]).mp hsub with hbefore | ⟨hlast, -⟩
    · obtain ⟨hstopped, hnotMem⟩ := h.stopped other otherId func hbefore ref href hid
      exact ⟨(hclock ref).2 hstopped, hnotMem⟩
    · cases hlast
      exact ⟨hstop ref href hid, fun hmem => hheeds ref hmem (h.kinds kind ref href) hid⟩
  · intro ref href hdelayed
    dsimp only at href hdelayed ⊢
    rw [hpending] at href
    rw [(hclock ref).1.1] at hdelayed ⊢
    rw [any_isRan_snoc hentry]
    apply h.unrun ref href
    simpa [isDelayed] using hdelayed
  · exact h.obeys.snoc hentry fun other func heq => nomatch heq

/-! ## Passes -/

theorem mem_clocks_removeStopped {kind of : Kind} {ref : Nat} :
    ref ∈ (s.removeStopped kind).clocks of ↔
      ref ∈ s.clocks of ∧ (of = kind → (s.clock ref).stopped = false) := by
  show ref ∈ Function.update s.clocks kind _ of ↔ _
  by_cases hof : of = kind
  · subst hof
    simp
  · simp [hof]

/-- A clock that stays in use is not one that is taken out. -/
theorem Placed.stays (h : Placed s) {kind : Kind} {ref : Nat}
    (hused : (s.removeStopped kind).InUse ref) :
    s.InUse ref ∧ ref ∉ (s.clocks kind).filter fun ref => (s.clock ref).stopped := by
  obtain ⟨of, hmem⟩ := hused
  obtain ⟨hold, hstopped⟩ := mem_clocks_removeStopped.mp hmem
  refine ⟨⟨of, hold⟩, ?_⟩
  rw [List.mem_filter]
  rintro ⟨hkind, htrue⟩
  have hof : of = kind := (h.kinds of ref hold).symm.trans (h.kinds kind ref hkind)
  rw [hstopped hof] at htrue
  cases htrue

/-- Clocks that are taken out give their objects back. -/
theorem Placed.removeStopped (h : Placed s) (kind : Kind) : Placed (s.removeStopped kind) := by
  have hclock : ∀ ref, (s.removeStopped kind).InUse ref →
      (s.removeStopped kind).clock ref = s.clock ref := by
    intro ref hused
    exact if_neg (h.stays hused).2
  constructor
  · refine h.apart.recycleAll ?_ ?_ ?_
    · exact List.nodup_reverse.mpr ((h.nodup kind).filter _)
    · intro ref href
      rw [List.mem_reverse, List.mem_filter] at href
      exact ⟨kind, href.1⟩
    · intro ref hused
      rw [List.mem_reverse]
      exact h.stays hused
  · intro of
    show (Function.update s.clocks kind _ of).Nodup
    by_cases hof : of = kind
    · subst hof
      rw [Function.update_self]
      exact (h.nodup of).filter _
    · rw [Function.update_of_ne hof]
      exact h.nodup of
  · intro of ref href
    rw [hclock ref ⟨of, href⟩]
    exact h.kinds of ref (mem_clocks_removeStopped.mp href).1
  · intro ref other href hother hid
    rw [hclock ref href, hclock other hother] at hid
    exact h.ids ref other (h.stays href).1 (h.stays hother).1 hid
  · intro ref href
    rw [hclock ref href]
    exact h.id_le ref (h.stays href).1
  · intro ref href
    rw [hclock ref href]
    exact h.funcs ref (h.stays href).1

/-- What a pass leaves of a clock, before the calls. -/
theorem clock_runClocks (s : Scheduler F) (kind : Kind) (now : ℚ) (ref : Nat) :
    ((s.runClocks kind now).clock ref).id = (s.clock ref).id ∧
      ((s.runClocks kind now).clock ref).stopped = (s.clock ref).stopped := by
  unfold Scheduler.runClocks Scheduler.removeStopped Scheduler.collect Clock.touch
  dsimp only
  split
  · split
    · exact ⟨rfl, rfl⟩
    · exact ⟨rfl, rfl⟩
  · split
    · exact ⟨rfl, rfl⟩
    · exact ⟨rfl, rfl⟩

theorem stopped_of_due {clock : Clock F} {now : ℚ} (h : clock.due now = true) :
    clock.stopped = false := by
  unfold Clock.due at h
  rw [Bool.and_eq_true, Bool.not_eq_true'] at h
  exact h.1

theorem Kept.runClocks (h : Kept s) {kind : Kind} {now : ℚ}
    (hheeds : Heeds s (.runClocks kind now)) : Kept (s.runClocks kind now) := by
  have hcollect : Placed (s.collect kind now) := by
    refine h.toPlaced.same rfl rfl rfl ?_ fun _ hentry => hentry
    intro ref
    show (s.clock ref).Alike (if ref ∈ s.clocks kind then (s.clock ref).touch now else s.clock ref)
    split
    · exact ⟨rfl, rfl, rfl⟩
    · exact ⟨rfl, rfl, rfl⟩
  have hpending : ∀ ref, ref ∈ (s.runClocks kind now).currentFuncs ↔
      ref ∈ s.clocks kind ∧ (s.clock ref).due now = true := fun ref => List.mem_filter
  have hclocks : ∀ of ref, ref ∈ (s.runClocks kind now).clocks of →
      ref ∈ s.clocks of := fun of ref href => (mem_clocks_removeStopped.mp href).1
  refine ⟨hcollect.removeStopped kind, ?_, ?_, h.old, ?_, ?_, h.obeys⟩
  · intro ref href
    obtain ⟨hmem, hdue⟩ := (hpending ref).mp href
    refine ⟨kind, mem_clocks_removeStopped.mpr ⟨hmem, fun _ => ?_⟩⟩
    have hstopped := stopped_of_due hdue
    show (if ref ∈ s.clocks kind then (s.clock ref).touch now else s.clock ref).stopped = false
    rw [if_pos hmem]
    exact hstopped
  · exact (h.nodup kind).filter _
  · intro of id func hsub ref href hid
    obtain ⟨hsameId, hsameStopped⟩ := clock_runClocks s kind now ref
    rw [hsameId] at hid
    obtain ⟨hstopped, -⟩ := h.stopped of id func hsub ref (hclocks of ref href) hid
    refine ⟨hsameStopped.trans hstopped, ?_⟩
    intro hmem
    rw [stopped_of_due ((hpending ref).mp hmem).2] at hstopped
    cases hstopped
  · intro ref href hdelayed
    obtain ⟨hmem, hdue⟩ := (hpending ref).mp href
    rw [(clock_runClocks s kind now ref).1] at hdelayed ⊢
    exact hheeds ref hmem hdue hdelayed

/-! ## Calls -/

/-- What a call does: the first of the collected clocks is called. -/
theorem call_cases (hnext : s.call = some next) :
    ∃ ref rest func, s.currentFuncs = ref :: rest ∧ (s.clock ref).func = some func ∧ next = { s with
      clock := Function.update s.clock ref { s.clock ref with lastTime := some s.now }
      currentFuncs := rest
      log := s.log ++ [.ran (s.clock ref).kind (s.clock ref).id func] } := by
  unfold Scheduler.call at hnext
  split at hnext
  · cases hnext
  · next ref rest hpending =>
    split at hnext
    · cases hnext
    · next func hfunc => exact ⟨ref, rest, func, hpending, hfunc, (Option.some_inj.mp hnext).symm⟩

/-- No collected clock is without a function. -/
theorem Kept.call_isSome (h : Kept s) (hpending : s.currentFuncs ≠ []) : s.call.isSome = true := by
  unfold Scheduler.call
  cases hrefs : s.currentFuncs with
  | nil => exact absurd hrefs hpending
  | cons ref rest =>
      obtain ⟨func, hfunc, -⟩ :=
        h.funcs ref (h.pending ref (by rw [hrefs]; exact List.mem_cons_self))
      simp [hfunc]

theorem Kept.call (h : Kept s) (hnext : s.call = some next) : Kept next := by
  obtain ⟨ref, rest, func, hpending, hfunc, rfl⟩ := call_cases hnext
  have hmem : ref ∈ s.currentFuncs := by
    rw [hpending]
    exact List.mem_cons_self
  have hrest : ∀ other ∈ rest, other ∈ s.currentFuncs := by
    intro other hother
    rw [hpending]
    exact List.mem_cons_of_mem _ hother
  have hnodup : ref ∉ rest ∧ rest.Nodup := by
    rw [← List.nodup_cons, ← hpending]
    exact h.pending_nodup
  have hclock : ∀ other, (s.clock other).Alike (Function.update s.clock ref
      { s.clock ref with lastTime := some s.now } other) ∧ (Function.update s.clock ref
        { s.clock ref with lastTime := some s.now } other).stopped = (s.clock other).stopped := by
    intro other
    by_cases heq : other = ref
    · subst heq
      rw [Function.update_self]
      exact ⟨⟨rfl, rfl, rfl⟩, rfl⟩
    · rw [Function.update_of_ne heq]
      exact ⟨⟨rfl, rfl, rfl⟩, rfl⟩
  refine ⟨h.toPlaced.same rfl rfl rfl (fun other => (hclock other).1)
    fun _ => List.mem_append_left _, ?_, hnodup.2, ?_, ?_, ?_, ?_⟩
  · exact fun other hother => h.pending other (hrest other hother)
  · intro entry hentry
    rcases List.mem_append.mp hentry with hold | hlast
    · exact h.old entry hold
    · rw [List.mem_singleton.mp hlast]
      exact h.id_le ref (h.pending ref hmem)
  · intro kind id given hsub other hother hid
    dsimp only at hsub hother hid ⊢
    rw [(hclock other).1.1] at hid
    rw [(hclock other).2]
    rcases (sublist_snoc [_]).mp hsub with hbefore | ⟨hlast, -⟩
    · obtain ⟨hstopped, hnotMem⟩ := h.stopped kind id given hbefore other hother hid
      exact ⟨hstopped, fun hin => hnotMem (hrest other hin)⟩
    · cases hlast
  · intro other hother hdelayed
    dsimp only at hother hdelayed ⊢
    rw [(hclock other).1.1] at hdelayed ⊢
    have hne : (s.clock ref).id ≠ (s.clock other).id := by
      intro hid
      have hsame := h.ids ref other (h.pending ref hmem) (h.pending other (hrest other hother)) hid
      exact hnodup.1 (hsame ▸ hother)
    have hbefore : s.log.any (isDelayed (s.clock other).id) = true := by
      simpa [isDelayed] using hdelayed
    simpa [isRan, hne] using h.unrun other (hrest other hother) hbefore
  · constructor
    · intro kind id given other hsub
      rcases (sublist_snoc [_, _]).mp hsub with hbefore | ⟨hlast, hbefore⟩
      · exact h.obeys.unscheduled kind id given other hbefore
      · -- the clock is collected, so that it has not been unscheduled
        cases hlast
        obtain ⟨of, hof⟩ := h.pending ref hmem
        have hkind := h.kinds of ref hof
        rw [← hkind] at hof
        exact (h.stopped _ _ given hbefore ref hof rfl).2 hmem
    · intro id given hdelayed
      have hdelayed : .delayed id given ∈ s.log := by simpa using hdelayed
      rw [List.countP_append]
      by_cases hid : (s.clock ref).id = id
      · subst hid
        have hany := h.unrun ref hmem (any_isDelayed_iff.mpr ⟨given, hdelayed⟩)
        have hzero : s.log.countP (isRan (s.clock ref).id) = 0 := by
          rw [List.countP_eq_zero]
          rw [List.any_eq_false] at hany
          exact hany
        simp [hzero, isRan]
      · have hle := h.obeys.delayed id given hdelayed
        simpa [isRan, hid] using hle
    · intro kind id given hran
      rcases List.mem_append.mp hran with hbefore | hlast
      · exact (h.obeys.given kind id given hbefore).imp (List.mem_append_left _)
          (And.imp_right (List.mem_append_left _))
      · cases List.mem_singleton.mp hlast
        obtain ⟨func', hfunc', hgiven⟩ := h.funcs ref (h.pending ref hmem)
        rw [hfunc, Option.some_inj] at hfunc'
        subst hfunc'
        exact hgiven.imp (List.mem_append_left _) (And.imp_right (List.mem_append_left _))

/-! ## Runs -/

theorem kept_step {event : Event F} (h : Kept s) (hheeds : Heeds s event)
    (hstep : step s event = some next) : Kept next := by
  cases event with
  | schedule kind interval func =>
      cases hstep
      exact h.schedule kind interval func
  | performWithDelay delay func =>
      cases hstep
      exact h.performWithDelay delay func
  | unschedule kind id =>
      cases hstep
      exact h.unschedule hheeds
  | runClocks kind now =>
      unfold step at hstep
      dsimp only at hstep
      split at hstep
      · cases hstep
        exact h.runClocks hheeds
      · cases hstep
  | call => exact h.call hstep

/-- In a run that heeds the condition the log says what it has to say in every
state. -/
theorem obeys_of_run {events : List (Event F)} {s : Scheduler F}
    (hrun : Run step Heeds Scheduler.new events s) : Obeys s.log :=
  (hrun.invariant kept_new fun _ _ _ => kept_step).obeys

/-- Two clocks, of which the first one unschedules itself, and a delayed function
that is called once. -/
def quietRun : List (Event Nat) :=
  [.schedule .update 10 7, .schedule .update 10 8, .performWithDelay 100 9, .runClocks .update 0,
    .runClocks .update 20, .call, .unschedule .update 1, .call, .runClocks .update 120, .call,
    .call, .unschedule .update 2, .schedule .lateupdate 10 5, .runClocks .update 140]

theorem obeys_quietRun :
    Obeys ((exec step Heeds Scheduler.new quietRun).getD Scheduler.new).log := by
  have hrun : Run step Heeds Scheduler.new quietRun
      ((exec step Heeds Scheduler.new quietRun).getD Scheduler.new) :=
    run_exec_getD Scheduler.new (by decide +kernel)
  exact obeys_of_run hrun

/-- The first of two collected clocks unschedules the second one, which is called
all the same. -/
def calledLate : List (Event Nat) :=
  [.schedule .update 10 7, .schedule .update 10 8, .runClocks .update 0, .runClocks .update 20,
    .call, .unschedule .update 2, .call]

/-- Without the condition a function is called after its handle was
unscheduled. -/
theorem not_obeys_calledLate :
    ¬ ∀ (events : List (Event Nat)) (s : Scheduler Nat),
      Run step free Scheduler.new events s → Obeys s.log := by
  intro h
  generalize hlast : (exec step free Scheduler.new calledLate).getD Scheduler.new = last
  have hrun : Run step free Scheduler.new calledLate last := by
    rw [← hlast]
    exact run_exec_getD Scheduler.new (by decide +kernel)
  have hlog : last.log = [.scheduled .update 1 7, .scheduled .update 2 8, .ran .update 1 7,
      .unscheduled .update 2, .ran .update 2 8] := by
    subst hlast
    decide +kernel
  refine (h _ _ hrun).unscheduled .update 2 8 8 ?_
  rw [hlog]
  decide +kernel

end Winnie
end ArmyRs
