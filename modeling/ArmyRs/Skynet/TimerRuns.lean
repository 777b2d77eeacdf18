import ArmyRs.Skynet.TimerSlots

/-!
# Every timer once, at its tick

In every run, whatever workers do while the timer thread dispatches, the messages pushed
at a tick are those of the timers due at it, each once and in the order in which they
were set (`pushed_when_due`).  The word of 32 bits in which the time is kept may wrap
around any number of times.
-/

namespace ArmyRs
namespace Skynet

open Foundation

/-- A timer as the lists keep it. -/
def nodeOf (timer : ℕ × TimerEvent) : TimerNode := ⟨timer.2, BitVec.ofNat 32 timer.1⟩

/-- The timers that are still to be pushed, in the order in which they were set. -/
structure Waiting (s : TimerState) (waiting : List (ℕ × TimerEvent)) : Prop where
  time : s.T.time = BitVec.ofNat 32 s.ticks
  lists : Bucketed (fun timer => wheel.slotAt s.ticks timer.1) nodeOf waiting s.T.lists
  due : ∀ timer ∈ waiting, s.ticks ≤ timer.1
  later : s.phase ≠ .after → ∀ timer ∈ waiting, s.ticks < timer.1
  near : ∀ timer ∈ waiting, timer.1 < s.ticks + 2 ^ 31
  account : ∀ n, ((s.pushed ++ waiting).filter fun timer => timer.1 = n) =
    s.set.filter fun timer => timer.1 = n

section

variable {s : TimerState} {waiting : List (ℕ × TimerEvent)}

theorem Waiting.listOf_nodeOf (h : Waiting s waiting) {timer : ℕ × TimerEvent}
    (hlow : s.ticks ≤ timer.1) (hhigh : timer.1 < s.ticks + 2 ^ 31) :
    listOf s.T.time (nodeOf timer).expire = wheel.slotAt s.ticks timer.1 := by
  rw [h.time]
  exact listOf_eq_slotAt hlow hhigh

/-- The present list has the timers that are due now. -/
theorem Waiting.slotAt_eq_present (h : Waiting s waiting) {timer : ℕ × TimerEvent}
    (htimer : timer ∈ waiting) :
    wheel.slotAt s.ticks timer.1 = presentList s.T ↔ timer.1 = s.ticks := by
  rw [presentList, h.time, near_index]
  exact Wheel.slotAt_eq_near_iff (h.due timer htimer)

theorem Waiting.filter_present (h : Waiting s waiting) :
    (waiting.filter fun timer => wheel.slotAt s.ticks timer.1 = presentList s.T) =
      waiting.filter fun timer => timer.1 = s.ticks := by
  refine List.filter_congr fun timer htimer => ?_
  exact decide_eq_decide.mpr (h.slotAt_eq_present htimer)

theorem Waiting.present (h : Waiting s waiting) :
    s.T.lists (presentList s.T) =
      (waiting.filter fun timer => timer.1 = s.ticks).map nodeOf := by
  rw [h.lists, h.filter_present]

/-- While the present list is empty, nothing is due now. -/
theorem Waiting.lt_of_present_nil (h : Waiting s waiting)
    (hempty : s.T.lists (presentList s.T) = []) : ∀ timer ∈ waiting, s.ticks < timer.1 := by
  intro timer htimer
  rw [h.present, List.map_eq_nil_iff, List.filter_eq_nil_iff] at hempty
  have hne : timer.1 ≠ s.ticks := fun heq => hempty timer htimer (decide_eq_true heq)
  have hle := h.due timer htimer
  omega

/-! ## The steps -/

theorem Waiting.timeout (h : Waiting s waiting) (event : TimerEvent) (time : BitVec 32) :
    ∃ waiting', Waiting (skynetTimeout s event time) waiting' := by
  unfold skynetTimeout
  split
  · exact ⟨waiting, h⟩
  · next hpositive =>
    have hrange : 0 < time.toNat ∧ time.toNat < 2 ^ 31 := by
      rw [BitVec.toInt_eq_toNat_cond] at hpositive
      split at hpositive <;> omega
    have hexpire : time + s.T.time = BitVec.ofNat 32 (s.ticks + time.toNat) := by
      rw [h.time, BitVec.ofNat_add, BitVec.ofNat_toNat, BitVec.setWidth_eq, BitVec.add_comm]
    have hlow : s.ticks < s.ticks + time.toNat := by omega
    refine ⟨waiting ++ [(s.ticks + time.toNat, event)], h.time, ?_, ?_, ?_, ?_, ?_⟩
    · have hplaced := @Bucketed.putInto _ _ _ _ _ _ _ _
        (fun node => listOf s.T.time node.expire) h.lists (s.ticks + time.toNat, event)
        (h.listOf_nodeOf hlow.le (by dsimp only; omega))
      unfold nodeOf at hplaced
      rw [← hexpire] at hplaced
      exact hplaced
    · exact List.forall_mem_append.mpr ⟨h.due, by simp⟩
    · exact fun hphase => List.forall_mem_append.mpr ⟨h.later hphase, by simpa using hrange.1⟩
    · exact List.forall_mem_append.mpr ⟨h.near, by simpa using hrange.2⟩
    · intro n
      rw [← List.append_assoc, List.filter_append, h.account, ← List.filter_append]

theorem Waiting.execute (h : Waiting s waiting) :
    Waiting
      { s with
        T := (takePresent s.T).2
        pushed := s.pushed ++ (takePresent s.T).1.map fun node => (s.ticks, node.event) }
      (waiting.filter fun timer => timer.1 ≠ s.ticks) := by
  have hnow : ((takePresent s.T).1.map fun node => (s.ticks, node.event)) =
      waiting.filter fun timer => timer.1 = s.ticks := by
    show ((s.T.lists (presentList s.T)).map _) = _
    rw [h.present, List.map_map]
    refine (List.map_congr_left fun timer htimer => ?_).trans (List.map_id _)
    have hdue : timer.1 = s.ticks := of_decide_eq_true (List.mem_filter.mp htimer).2
    exact Prod.ext hdue.symm rfl
  have hrest : (waiting.filter fun timer => wheel.slotAt s.ticks timer.1 ≠ presentList s.T) =
      waiting.filter fun timer => timer.1 ≠ s.ticks := by
    refine List.filter_congr fun timer htimer => ?_
    exact decide_eq_decide.mpr (not_congr (h.slotAt_eq_present htimer))
  have hmem : ∀ timer, timer ∈ (waiting.filter fun timer => timer.1 ≠ s.ticks) →
      timer ∈ waiting ∧ timer.1 ≠ s.ticks := fun timer htimer => by
    have hboth := List.mem_filter.mp htimer
    exact ⟨hboth.1, of_decide_eq_true hboth.2⟩
  refine ⟨h.time, ?_, fun timer htimer => h.due timer (hmem timer htimer).1, ?_,
    fun timer htimer => h.near timer (hmem timer htimer).1, ?_⟩
  · have hclear := h.lists.clear (presentList s.T)
    rw [hrest] at hclear
    exact hclear
  · intro _ timer htimer
    have hle := h.due timer (hmem timer htimer).1
    have hne := (hmem timer htimer).2
    show s.ticks < timer.1
    omega
  · intro n
    dsimp only
    rw [hnow, ← h.account n, List.filter_append, List.filter_append, List.filter_append,
      List.append_assoc]
    congr 1
    rw [List.filter_filter, List.filter_filter]
    by_cases hn : n = s.ticks
    · subst hn
      have hnone : (waiting.filter fun timer =>
          decide (timer.1 = s.ticks) && decide (timer.1 ≠ s.ticks)) = [] :=
        List.filter_eq_nil_iff.mpr fun timer _ => by simp
      rw [hnone, List.append_nil]
      simp
    · have hnone : (waiting.filter fun timer =>
          decide (timer.1 = n) && decide (timer.1 = s.ticks)) = [] :=
        List.filter_eq_nil_iff.mpr fun timer _ => by simp only [Bool.and_eq_true, decide_eq_true_eq]; omega
      rw [hnone, List.nil_append]
      refine List.filter_congr fun timer _ => ?_
      by_cases htimer : timer.1 = n
      · simp [htimer, hn]
      · simp [htimer]

theorem foldl_addNode (nodes : List TimerNode) (T : Timer) :
    nodes.foldl addNode T =
      { T with lists := nodes.foldl (putInto fun node => listOf T.time node.expire) T.lists } := by
  induction nodes generalizing T with
  | nil => rfl
  | cons node rest ih =>
      rw [List.foldl_cons, ih]
      rfl

/-- The time is shifted when nothing is due any more. -/
theorem Waiting.shift (h : Waiting s waiting) (hlater : ∀ timer ∈ waiting, s.ticks < timer.1) :
    Waiting { s with T := timerShift s.T, ticks := s.ticks + 1, phase := .after } waiting := by
  have htime : s.T.time + 1 = BitVec.ofNat 32 (s.ticks + 1) := by
    rw [h.time, BitVec.ofNat_add]
    rfl
  have hnear : ∀ timer ∈ waiting, timer.1 < s.ticks + 1 + 2 ^ 31 := fun timer htimer =>
    (h.near timer htimer).trans (by omega)
  have hspec := shiftedList_spec (s.ticks + 1)
  have hlists : (timerShift s.T).time = BitVec.ofNat 32 (s.ticks + 1) ∧
      Bucketed (fun timer => wheel.slotAt (s.ticks + 1) timer.1) nodeOf waiting
        (timerShift s.T).lists := by
    unfold timerShift
    dsimp only
    rw [htime]
    cases hlist : shiftedList (BitVec.ofNat 32 (s.ticks + 1)) with
    | none =>
        rw [hlist] at hspec
        refine ⟨rfl, h.lists.congr fun timer htimer => ?_⟩
        exact Wheel.slotAt_succ_of_not_dvd hspec
    | some entered =>
        obtain ⟨level, idx⟩ := entered
        rw [hlist] at hspec
        obtain ⟨henters, hidx⟩ := hspec
        dsimp only
        rw [moveList, foldl_addNode]
        refine ⟨rfl, h.lists.rebucket ?_ ?_ ?_⟩
        · intro timer htimer _
          exact listOf_eq_slotAt (hlater timer htimer) (hnear timer htimer)
        · intro timer htimer hstays
          rw [hidx] at hstays
          exact henters.slotAt_eq (hlater timer htimer) hstays
        · intro timer htimer hmoved other hother _
          rw [hidx] at hmoved
          have hhorizon : wheel.WithinHorizon (s.ticks + 1) timer.1 := by
            have hhigh := hnear timer htimer
            unfold Wheel.WithinHorizon
            show timer.1 / wheel.width 3 - (s.ticks + 1) / wheel.width 3 < 64
            rw [width_wheel]
            omega
          exact henters.apart (hlater other hother)
            (henters.rank_le (hlater timer htimer) hhorizon hmoved)
  exact ⟨hlists.1, hlists.2, hlater, fun hphase => absurd rfl hphase, hnear, h.account⟩

theorem Waiting.step (h : Waiting s waiting) {event : TimerStep} {next : TimerState}
    (hstep : step s event = some next) : ∃ waiting', Waiting next waiting' := by
  cases event with
  | timeout event time =>
      cases hstep
      exact h.timeout event time
  | updatetime cp =>
      simp only [Skynet.step] at hstep
      split at hstep
      · cases hstep
        refine ⟨waiting, ?_⟩
        unfold skynetUpdatetime
        split <;> exact ⟨h.time, h.lists, h.due, h.later, h.near, h.account⟩
      · cases hstep
  | begin =>
      simp only [Skynet.step] at hstep
      split at hstep
      · next hidle =>
        cases hstep
        have hlater := h.later (by rw [hidle.1]; decide)
        exact ⟨waiting, h.time, h.lists, h.due, fun _ => hlater, h.near, h.account⟩
      · cases hstep
  | execute =>
      simp only [Skynet.step] at hstep
      split at hstep
      · cases hstep
        exact ⟨_, h.execute⟩
      · cases hstep
  | shift =>
      simp only [Skynet.step] at hstep
      split at hstep
      · next hbefore =>
        cases hstep
        exact ⟨waiting, h.shift (h.later (by rw [hbefore.1]; decide))⟩
      · cases hstep
  | finish =>
      simp only [Skynet.step] at hstep
      split at hstep
      · next hafter =>
        cases hstep
        exact ⟨waiting, h.time, h.lists, h.due, fun _ => h.lt_of_present_nil hafter.2, h.near,
          h.account⟩
      · cases hstep

end

/-! ## Whole runs -/

section

variable {current currentPoint : BitVec 64} {events : List TimerStep} {final : TimerState}

theorem exists_waiting (hrun : Run step free (timerInit current currentPoint) events final) :
    ∃ waiting, Waiting final waiting := by
  induction hrun with
  | refl =>
      exact ⟨[], rfl, bucketed_nil, by simp, by simp, by simp, fun _ => rfl⟩
  | snoc hrun hguard hstep ih =>
      obtain ⟨waiting, h⟩ := ih
      exact h.step hstep

/-- The ticks that `skynet_updatetime` has still to make are those by which the time is behind
the clock. -/
structure OnClock (start : BitVec 64) (s : TimerState) : Prop where
  clock : s.current =
    start + BitVec.ofNat 64 (s.ticks + s.left - if s.phase = .after then 1 else 0)
  busy : s.phase ≠ .idle → 0 < s.left

theorem OnClock.step {start : BitVec 64} {s next : TimerState} (h : OnClock start s)
    {event : TimerStep} (hstep : step s event = some next) : OnClock start next := by
  cases event with
  | timeout event time =>
      cases hstep
      unfold skynetTimeout
      split
      · exact h
      · exact ⟨h.clock, h.busy⟩
  | updatetime cp =>
      simp only [Skynet.step] at hstep
      split at hstep
      · next hrest =>
        cases hstep
        obtain ⟨hidle, hleft⟩ := hrest
        have hclock := h.clock
        rw [hidle, hleft] at hclock
        unfold skynetUpdatetime
        split
        · exact ⟨h.clock, h.busy⟩
        · refine ⟨?_, fun hbusy => absurd hidle hbusy⟩
          rw [if_neg (by decide), Nat.sub_zero, Nat.add_zero] at hclock
          dsimp only
          rw [hidle, if_neg (by decide), Nat.sub_zero, BitVec.ofNat_add, ← BitVec.add_assoc, hclock,
            BitVec.ofNat_toNat]
      · cases hstep
  | begin =>
      simp only [Skynet.step] at hstep
      split at hstep
      · next hidle =>
        cases hstep
        have hclock := h.clock
        rw [hidle.1] at hclock
        exact ⟨hclock, fun _ => hidle.2⟩
      · cases hstep
  | execute =>
      simp only [Skynet.step] at hstep
      split at hstep
      · cases hstep
        exact ⟨h.clock, h.busy⟩
      · cases hstep
  | shift =>
      simp only [Skynet.step] at hstep
      split at hstep
      · next hbefore =>
        cases hstep
        have hclock := h.clock
        rw [hbefore.1, if_neg (by decide), Nat.sub_zero] at hclock
        refine ⟨?_, fun _ => h.busy (by rw [hbefore.1]; decide)⟩
        dsimp only
        rw [hclock, if_pos rfl]
        congr 2
        omega
      · cases hstep
  | finish =>
      simp only [Skynet.step] at hstep
      split at hstep
      · next hafter =>
        cases hstep
        have hclock := h.clock
        have hbusy := h.busy (by rw [hafter.1]; decide)
        rw [hafter.1, if_pos rfl] at hclock
        refine ⟨?_, fun hidle => absurd rfl hidle⟩
        dsimp only
        rw [hclock, if_neg (by decide)]
        congr 2
        omega
      · cases hstep

theorem onClock_of_run (hrun : Run step free (timerInit current currentPoint) events final) :
    OnClock current final := by
  induction hrun with
  | refl => exact ⟨by simp [timerInit], fun hbusy => absurd rfl hbusy⟩
  | snoc hrun hguard hstep ih => exact ih.step hstep

/-- What was pushed at a tick are the timers due at it, each once and in the order in which
they were set; it is all of them when the tick is over.  When the timer thread is at rest, as
many ticks have passed as the clock has counted. -/
theorem pushed_when_due (hrun : Run step free (timerInit current currentPoint) events final) :
    (∀ n, (final.pushed.filter fun timer => timer.1 = n) <+:
      final.set.filter fun timer => timer.1 = n) ∧
    (∀ n, n < final.ticks ∨ n = final.ticks ∧ final.phase ≠ .after →
      (final.pushed.filter fun timer => timer.1 = n) =
        final.set.filter fun timer => timer.1 = n) ∧
    (final.left = 0 → final.ticks % 2 ^ 64 = (final.current - current).toNat) := by
  obtain ⟨waiting, h⟩ := exists_waiting hrun
  refine ⟨fun n => ?_, fun n hn => ?_, fun hleft => ?_⟩
  · rw [← h.account n, List.filter_append]
    exact List.prefix_append _ _
  · have hnone : (waiting.filter fun timer => timer.1 = n) = [] := by
      refine List.filter_eq_nil_iff.mpr fun timer htimer heq => ?_
      have hdue : timer.1 = n := of_decide_eq_true heq
      have hle := h.due timer htimer
      rcases hn with hlt | ⟨rfl, hphase⟩
      · omega
      · exact absurd hdue (h.later hphase timer htimer).ne'
    rw [← h.account n, List.filter_append, hnone, List.append_nil]
  · have hclock := onClock_of_run hrun
    have hidle : final.phase = .idle := by
      by_contra hbusy
      exact absurd (hclock.busy hbusy) (by omega)
    have hcurrent := hclock.clock
    rw [hidle, hleft, if_neg (by decide)] at hcurrent
    rw [hcurrent, BitVec.add_comm, BitVec.add_sub_cancel, BitVec.toNat_ofNat]
    rfl

end

/-- A round of the timer thread in which nothing is due, and one in which something is. -/
def quietRound : List TimerStep := [.begin, .shift, .finish]
def pushingRound : List TimerStep := [.begin, .shift, .execute, .finish]

/-- Two timers; the one that is set first is due in another block, and is moved on the way. -/
def twoTimers : List TimerStep :=
  [.timeout ⟨1, 7⟩ 260, .timeout ⟨2, 8⟩ 2, .updatetime 260] ++ quietRound ++ pushingRound ++
    (List.replicate 257 quietRound).flatten ++ pushingRound

def afterTwoTimers : TimerState :=
  (exec step free (timerInit 0 0) twoTimers).getD (timerInit 0 0)

theorem pushed_when_due_twoTimers :
    afterTwoTimers.pushed = [(2, ⟨2, 8⟩), (260, ⟨1, 7⟩)] ∧
      (afterTwoTimers.pushed.filter fun timer => timer.1 = 260) =
        afterTwoTimers.set.filter fun timer => timer.1 = 260 := by
  have hrun : Run step free (timerInit 0 0) twoTimers afterTwoTimers :=
    run_exec_getD _ (by decide +kernel)
  exact ⟨by decide +kernel, (pushed_when_due hrun).2.1 260 (Or.inr (by decide +kernel))⟩

end Skynet
end ArmyRs
