import ArmyRs.Messaging.RedisQueue

/-!
# Every message of the queue is accounted for

`Accounted` says that each pushed message is in the queue, in the process queue or
committed, exactly once, counting equal messages as often as they were pushed.

`commit` calls `lrem` with a count of zero, which removes every entry that equals
the last message of the object.  So it takes away the one message that the
consumer commits (`TakesItsMessage`) only if the process queue holds no second
entry like it, and if the object has not popped another message in between.  That
condition is exact.
-/

namespace ArmyRs
namespace Messaging

open Foundation

/-- Each message is waiting, in process or committed as often as it was pushed. -/
def Accounted (q : RedisQueue) : Prop :=
  ∀ m, q.queue.count m + q.processQueue.count m + q.committed.count m = q.pushed.count m

/-- What `lrem` removes for this object is the message alone: the process queue
holds one entry like the last message, and that is the message; without a message
it holds no entry that would be removed. -/
def TakesItsMessage (q : RedisQueue) (object : Nat) : Option String → Prop
  | none => q.processQueue.count (q.lremValue object) = 0
  | some message =>
      q.lremValue object = message ∧ q.processQueue.count (q.lremValue object) = 1

instance TakesItsMessage.decidable (q : RedisQueue) (object : Nat) (message : Option String) :
    Decidable (TakesItsMessage q object message) := by
  cases message with
  | none => exact inferInstanceAs (Decidable (_ = _))
  | some message => exact inferInstanceAs (Decidable (_ ∧ _))

/-- Every commit takes its message and no other. -/
def Careful (q : RedisQueue) (event : Event) : Prop :=
  ∀ pair ∈ committing q event, TakesItsMessage q pair.1 pair.2

instance Careful.decidable (q : RedisQueue) (event : Event) : Decidable (Careful q event) :=
  inferInstanceAs (Decidable (∀ pair ∈ committing q event, TakesItsMessage q pair.1 pair.2))

section

variable {q next : RedisQueue} {object fiber : Nat} {message : Option String} {event : Event}

/-! ## What each operation keeps -/

theorem Accounted.push (h : Accounted q) (obj : String) : Accounted (q.push obj) := by
  intro m
  have hm := h m
  unfold RedisQueue.push
  dsimp only
  rw [count_lpush, List.count_singleton, List.count_cons]
  omega

theorem Accounted.pushBatch (h : Accounted q) (args : List String) :
    Accounted (q.pushBatch args) := by
  intro m
  have hm := h m
  unfold RedisQueue.pushBatch
  dsimp only
  rw [count_lpush, count_lpush]
  omega

theorem Accounted.pop (h : Accounted q) (object : Nat) : Accounted (q.pop object).2 := by
  unfold RedisQueue.pop
  split
  · exact h
  · next popped queue processQueue hpopped =>
    intro m
    have hm := h m
    have hcount : queue.count m + processQueue.count m = q.queue.count m + q.processQueue.count m :=
      count_rpoplpush hpopped m
    dsimp only
    omega

theorem refillLoop_eq (queue processQueue : List String) :
    RedisQueue.refillLoop queue processQueue = queue ++ processQueue := by
  induction processQueue generalizing queue with
  | nil => simp [RedisQueue.refillLoop]
  | cons message processQueue ih => simp [RedisQueue.refillLoop, ih]

theorem Accounted.refill (h : Accounted q) : Accounted q.refill := by
  intro m
  have hm := h m
  unfold RedisQueue.refill
  dsimp only
  rw [refillLoop_eq, List.count_append, List.count_nil]
  omega

/-- A commit keeps the account exactly when it takes its message and no other. -/
theorem accounted_commit_iff (h : Accounted q) :
    Accounted (q.commit object message) ↔ TakesItsMessage q object message := by
  unfold RedisQueue.commit TakesItsMessage Accounted
  dsimp only
  constructor
  · intro hnext
    -- the entries that `lrem` removes are those that the commit adds
    have hvalue := hnext (q.lremValue object)
    have hold := h (q.lremValue object)
    rw [count_lrem_zero_self, List.count_append] at hvalue
    cases message with
    | none =>
        simp at hvalue
        dsimp only
        omega
    | some message =>
        have hmessage : q.lremValue object = message := by
          by_contra hne
          have hnew := hnext message
          have hbefore := h message
          rw [count_lrem_zero_of_ne (Ne.symm hne), List.count_append] at hnew
          simp at hnew
          omega
        subst hmessage
        simp at hvalue
        exact ⟨rfl, by omega⟩
  · intro htakes m
    have hm := h m
    by_cases hvalue : m = q.lremValue object
    · subst hvalue
      rw [count_lrem_zero_self, List.count_append]
      cases message with
      | none =>
          dsimp only at htakes
          simp
          omega
      | some message =>
          obtain ⟨rfl, hone⟩ := htakes
          simp
          omega
    · rw [count_lrem_zero_of_ne hvalue, List.count_append]
      cases message with
      | none =>
          simp
          omega
      | some message =>
          obtain ⟨rfl, hone⟩ := htakes
          have hnone : List.count m [q.lremValue object] = 0 := by
            rw [List.count_eq_zero]
            simpa using hvalue
          simp only [Option.toList_some, hnone]
          omega

/-! ## Steps and runs -/

/-- Nothing is asked of an event that commits nothing. -/
theorem accounted_iff_of_none (hnone : committing q event = none) (hnext : Accounted next) :
    Accounted next ↔ Careful q event := by
  apply iff_of_true hnext
  intro pair hpair
  rw [hnone] at hpair
  cases hpair

theorem careful_iff_of_some (hsome : committing q event = some (object, message)) :
    Careful q event ↔ TakesItsMessage q object message := by
  simp [Careful, hsome]

/-- A step that commits nothing keeps the account; one that commits does what
`commit` does. -/
theorem accounted_step_iff (h : Accounted q) (hstep : step q event = some next) :
    Accounted next ↔ Careful q event := by
  cases event with
  | push obj =>
      cases hstep
      exact accounted_iff_of_none rfl (h.push obj)
  | pushBatch args =>
      cases hstep
      exact accounted_iff_of_none rfl (h.pushBatch args)
  | pop object =>
      cases hstep
      exact accounted_iff_of_none rfl (h.pop object)
  | commit object =>
      cases hstep
      rw [careful_iff_of_some rfl]
      exact accounted_commit_iff h
  | refill =>
      cases hstep
      exact accounted_iff_of_none rfl h.refill
  | processOne fiber object =>
      dsimp only [step] at hstep
      split at hstep
      · cases hstep
      · cases hstep
        exact accounted_iff_of_none rfl (h.pop object)
  | finish fiber ret =>
      dsimp only [step] at hstep
      split at hstep
      · cases hstep
      · next object message hhandling =>
        cases hstep
        cases ret with
        | false => exact accounted_iff_of_none rfl h
        | true =>
            have hcommitting : committing q (.finish fiber true) = some (object, message) :=
              hhandling
            rw [careful_iff_of_some hcommitting]
            exact accounted_commit_iff h
  | fail fiber =>
      dsimp only [step] at hstep
      split at hstep
      · cases hstep
      · cases hstep
        exact accounted_iff_of_none rfl h
  | restart object =>
      cases hstep
      exact accounted_iff_of_none rfl h

/-- A step that commits a message carefully removes one entry from the process
queue, and that entry is the message. -/
theorem processQueue_of_commit {committed : String}
    (htakes : TakesItsMessage q object (some committed)) :
    ∃ before after, q.processQueue = before ++ committed :: after ∧
      (q.commit object (some committed)).processQueue = before ++ after := by
  obtain ⟨rfl, hone⟩ := htakes
  exact lrem_zero_of_count_eq_one hone

theorem processQueue_of_step {committed : String} (hcareful : Careful q event)
    (hstep : step q event = some next)
    (hcommitting : committing q event = some (object, some committed)) :
    ∃ before after, q.processQueue = before ++ committed :: after ∧
      next.processQueue = before ++ after := by
  have htakes : TakesItsMessage q object (some committed) := hcareful _ hcommitting
  cases event with
  | commit object' =>
      cases hstep
      simp only [committing, Option.some_inj, Prod.mk.injEq] at hcommitting
      obtain ⟨rfl, hlast⟩ := hcommitting
      rw [hlast]
      exact processQueue_of_commit htakes
  | finish fiber ret =>
      cases ret with
      | false => cases hcommitting
      | true =>
          have hhandling : q.handling fiber = some (object, some committed) := hcommitting
          dsimp only [step] at hstep
          rw [hhandling] at hstep
          cases hstep
          exact processQueue_of_commit htakes
  | _ => cases hcommitting

end

theorem accounted_new : Accounted .new := fun _ => rfl

/-- In a run whose commits each take their message and no other, every message is
accounted for in every state; there the next step keeps the account exactly when
it is careful, and a careful commit of a message removes one entry, the message. -/
theorem accounted_of_run {events : List Event} {q : RedisQueue}
    (hrun : Run step Careful .new events q) :
    Accounted q ∧
      ∀ event next, step q event = some next →
        (Accounted next ↔ Careful q event) ∧
          (Careful q event → ∀ object message, committing q event = some (object, some message) →
            ∃ before after, q.processQueue = before ++ message :: after ∧
              next.processQueue = before ++ after) := by
  have haccounted : Accounted q :=
    hrun.invariant accounted_new fun _ _ _ h hcareful hstep =>
      (accounted_step_iff h hstep).mpr hcareful
  refine ⟨haccounted, fun event next hstep => ⟨accounted_step_iff haccounted hstep, ?_⟩⟩
  intro hcareful object message hcommitting
  exact processQueue_of_step hcareful hstep hcommitting

/-! ## Pops without a commit, and a refill -/

/-- The state after each of the objects has popped in turn. -/
def RedisQueue.popAll (q : RedisQueue) (objects : List Nat) : RedisQueue :=
  objects.foldl (fun q object => (q.pop object).2) q

/-- A pop moves a message over the boundary of the two lists: `rpoplpush` takes it
from the right of the one and puts it to the left of the other. -/
theorem pop_append (q : RedisQueue) (object : Nat) :
    (q.pop object).2.queue ++ (q.pop object).2.processQueue = q.queue ++ q.processQueue := by
  unfold RedisQueue.pop
  split
  · rfl
  · next popped queue processQueue hpopped =>
    obtain ⟨hqueue, hprocess⟩ := rpoplpush_eq_some hpopped
    rw [hqueue, hprocess]
    simp

theorem popAll_append (q : RedisQueue) (objects : List Nat) :
    (q.popAll objects).queue ++ (q.popAll objects).processQueue = q.queue ++ q.processQueue := by
  induction objects generalizing q with
  | nil => rfl
  | cons object objects ih =>
      show ((q.pop object).2.popAll objects).queue ++
        ((q.pop object).2.popAll objects).processQueue = _
      rw [ih, pop_append]

/-- However many messages are popped, and by whichever objects, a refill brings all
of them back in the order in which they were; with nothing in process before, the
queue is what it was. -/
theorem refill_popAll (q : RedisQueue) (objects : List Nat) :
    (q.popAll objects).refill.queue = q.queue ++ q.processQueue ∧
      (q.popAll objects).refill.processQueue = [] := by
  constructor
  · show RedisQueue.refillLoop (q.popAll objects).queue (q.popAll objects).processQueue = _
    rw [refillLoop_eq, popAll_append]
  · rfl

/-! ## Examples -/

/-- Two consumers, one of which fails; its message is refilled and committed. -/
def refilled : List Event :=
  [.push "a", .pushBatch ["b", "c"], .processOne 0 0, .processOne 1 1, .finish 0 true, .fail 1,
    .refill, .processOne 1 1, .finish 1 true]

theorem accounted_refilled :
    Accounted ((exec step Careful .new refilled).getD .new) ∧
      ((exec step Careful .new refilled).getD .new).committed = ["b", "a"] :=
  ⟨(accounted_of_run (run_exec_getD .new (by decide +kernel))).1, by decide +kernel⟩

/-- Two equal messages are in process, and one of them is committed. -/
def equalMessages : List Event :=
  [.push "a", .push "a", .processOne 0 0, .processOne 1 1, .finish 0 true]

theorem not_accounted_equalMessages :
    Run step free .new equalMessages ((exec step free .new equalMessages).getD .new) ∧
      ¬ Accounted ((exec step free .new equalMessages).getD .new) := by
  constructor
  · apply run_exec_getD
    decide +kernel
  · intro haccounted
    have hcount := haccounted "a"
    revert hcount
    decide +kernel

end Messaging
end ArmyRs
