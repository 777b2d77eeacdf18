import ArmyRs.Foundation.RingBuffer

/-!
# The message queue of a service

`skynet_mq.c` keeps the messages of a service in a ring that grows to twice its size when
it is full.  `messages` are the messages in it; a push appends one, also when the ring
grows (`messages_mqPush`), and a pop takes the first (`messages_mqPop`).

`inGlobal` says that the queue is in the global queue or with a thread; an empty pop
clears it.  `overload` is for a warning only: when a queue is long, and again each time
it is twice as long.
-/

namespace ArmyRs
namespace Skynet

open Foundation

def DEFAULT_QUEUE_SIZE : ℕ := 64
def MQ_OVERLOAD : ℕ := 1024

structure MessageQueue (μ : Type*) where
  cap : ℕ
  head : ℕ
  tail : ℕ
  release : Bool
  inGlobal : Bool
  overload : ℕ
  overloadThreshold : ℕ
  queue : ℕ → μ

section

variable {μ : Type*}

/-- Between the creation of a service and its start nobody else puts the queue into the
global queue; `memory` is what the new slots hold. -/
def skynetMqCreate (memory : ℕ → μ) : MessageQueue μ where
  cap := DEFAULT_QUEUE_SIZE
  head := 0
  tail := 0
  release := false
  inGlobal := true
  overload := 0
  overloadThreshold := MQ_OVERLOAD
  queue := memory

def skynetMqLength (q : MessageQueue μ) : ℕ :=
  if q.head ≤ q.tail then q.tail - q.head else q.tail + q.cap - q.head

/-- The overload that is to be reported, once. -/
def skynetMqOverload (q : MessageQueue μ) : ℕ × MessageQueue μ :=
  (q.overload, { q with overload := 0 })

/-- The loop that doubles the threshold; it is never zero, so that `length` rounds are
enough. -/
def raiseThreshold (length : ℕ) : ℕ → MessageQueue μ → MessageQueue μ
  | 0, q => q
  | fuel + 1, q =>
      if length > q.overloadThreshold then
        raiseThreshold length fuel
          { q with overload := length, overloadThreshold := q.overloadThreshold * 2 }
      else q

/-- The message, if there is one. -/
def skynetMqPop (q : MessageQueue μ) : Option μ × MessageQueue μ :=
  if q.head ≠ q.tail then
    let message := q.queue q.head
    let head := if q.head + 1 ≥ q.cap then 0 else q.head + 1
    let length := if head ≤ q.tail then q.tail - head else q.tail + q.cap - head
    (some message, raiseThreshold length length { q with head })
  else (none, { q with overloadThreshold := MQ_OVERLOAD, inGlobal := false })

/-- The slots behind the copied ones hold anything. -/
def expandQueue (memory : ℕ → μ) (q : MessageQueue μ) : MessageQueue μ :=
  { q with
    queue := fun i => if i < q.cap then q.queue ((q.head + i) % q.cap) else memory i
    head := 0
    tail := q.cap
    cap := q.cap * 2 }

/-- The message is in the ring. -/
def enqueue (memory : ℕ → μ) (q : MessageQueue μ) (message : μ) : MessageQueue μ :=
  let q :=
    { q with
      queue := Function.update q.queue q.tail message
      tail := if q.tail + 1 ≥ q.cap then 0 else q.tail + 1 }
  if q.head = q.tail then expandQueue memory q else q

/-- A push, and whether it puts the queue into the global queue. -/
def skynetMqPush (memory : ℕ → μ) (q : MessageQueue μ) (message : μ) : MessageQueue μ × Bool :=
  let q := enqueue memory q message
  if q.inGlobal then (q, false) else ({ q with inGlobal := true }, true)

/-! ## What is in the ring -/

structure MessageQueue.WellFormed (q : MessageQueue μ) : Prop where
  head_lt : q.head < q.cap
  tail_lt : q.tail < q.cap

/-- The messages, the first one in front. -/
def MessageQueue.messages (q : MessageQueue μ) : List μ :=
  ringItems q.queue q.cap q.head (skynetMqLength q)

variable {q : MessageQueue μ} {memory : ℕ → μ}

theorem wellFormed_create : (skynetMqCreate memory).WellFormed := by
  constructor
  · show 0 < DEFAULT_QUEUE_SIZE
    decide
  · show 0 < DEFAULT_QUEUE_SIZE
    decide

@[simp] theorem messages_create : (skynetMqCreate memory).messages = [] := rfl

@[simp] theorem inGlobal_create : (skynetMqCreate memory).inGlobal = true := rfl

@[simp] theorem release_create : (skynetMqCreate memory).release = false := rfl

theorem MessageQueue.WellFormed.length_lt (h : q.WellFormed) : skynetMqLength q < q.cap := by
  have hhead := h.head_lt
  have htail := h.tail_lt
  unfold skynetMqLength
  split <;> omega

/-- The tail is behind the last message. -/
theorem MessageQueue.WellFormed.tail_eq (h : q.WellFormed) :
    q.tail = (q.head + skynetMqLength q) % q.cap := by
  have hhead := h.head_lt
  have htail := h.tail_lt
  unfold skynetMqLength
  split
  · rw [Nat.add_sub_cancel' (by assumption), Nat.mod_eq_of_lt htail]
  · rw [show q.head + (q.tail + q.cap - q.head) = q.tail + q.cap by omega, Nat.add_mod_right,
      Nat.mod_eq_of_lt htail]

theorem next_eq_mod {i cap : ℕ} (h : i < cap) : (if i + 1 ≥ cap then 0 else i + 1) = (i + 1) % cap := by
  split
  · rw [show i + 1 = cap by omega, Nat.mod_self]
  · exact (Nat.mod_eq_of_lt (by omega)).symm

/-- Head and tail say how many messages there are. -/
theorem length_of_tail {cap head tail count : ℕ} (hhead : head < cap) (hcount : count < cap)
    (htail : tail = (head + count) % cap) :
    (if head ≤ tail then tail - head else tail + cap - head) = count := by
  rcases Nat.lt_or_ge (head + count) cap with hlt | hge
  · rw [Nat.mod_eq_of_lt hlt] at htail
    split <;> omega
  · rw [Nat.mod_eq_sub_mod hge, Nat.mod_eq_of_lt (by omega)] at htail
    split <;> omega

theorem enqueue_spec (h : q.WellFormed) (message : μ) :
    (enqueue memory q message).WellFormed ∧
      (enqueue memory q message).messages = q.messages ++ [message] := by
  have hhead := h.head_lt
  have htail := h.tail_lt
  have hlength := h.length_lt
  have hwritten : ringItems (Function.update q.queue q.tail message) q.cap q.head
      (skynetMqLength q + 1) = q.messages ++ [message] := by
    rw [h.tail_eq]
    exact ringItems_update hlength message
  have hnext : (if q.tail + 1 ≥ q.cap then 0 else q.tail + 1) =
      (q.head + (skynetMqLength q + 1)) % q.cap := by
    rw [next_eq_mod htail, h.tail_eq, Nat.mod_add_mod, Nat.add_assoc]
  unfold enqueue
  dsimp only
  rw [hnext]
  split
  · next hfull =>
    -- the ring is full, and every slot is copied
    have hcount : skynetMqLength q + 1 = q.cap := by
      by_contra hne
      have hother := @add_mod_ne q.cap q.head 0 (skynetMqLength q + 1) (by omega) (by omega)
      rw [Nat.add_zero, Nat.mod_eq_of_lt hhead] at hother
      exact hother hfull
    rw [hcount] at hwritten
    refine ⟨⟨?_, ?_⟩, ?_⟩
    · show 0 < q.cap * 2
      omega
    · show q.cap < q.cap * 2
      omega
    · rw [← hwritten]
      show ringItems _ (q.cap * 2) 0 q.cap = _
      refine ringItems_copy (by omega) fun i hi => ?_
      exact if_pos hi
  · next hroom =>
    have hcount : skynetMqLength q + 1 < q.cap := by
      by_contra hfull
      have heq : skynetMqLength q + 1 = q.cap := by omega
      rw [heq, Nat.add_mod_right, Nat.mod_eq_of_lt hhead] at hroom
      exact hroom rfl
    refine ⟨⟨hhead, Nat.mod_lt _ (by omega)⟩, ?_⟩
    rw [← hwritten, MessageQueue.messages]
    have hsame := length_of_tail hhead hcount rfl
    unfold skynetMqLength at hsame ⊢
    dsimp only
    rw [hsame]

/-- What does not depend on the counters of the overload. -/
theorem raiseThreshold_frame (length fuel : ℕ) (q : MessageQueue μ) :
    (raiseThreshold length fuel q).cap = q.cap ∧ (raiseThreshold length fuel q).head = q.head ∧
      (raiseThreshold length fuel q).tail = q.tail ∧
      (raiseThreshold length fuel q).queue = q.queue ∧
      (raiseThreshold length fuel q).release = q.release ∧
      (raiseThreshold length fuel q).inGlobal = q.inGlobal := by
  induction fuel generalizing q with
  | zero => exact ⟨rfl, rfl, rfl, rfl, rfl, rfl⟩
  | succ fuel ih =>
      unfold raiseThreshold
      split
      · exact ih _
      · exact ⟨rfl, rfl, rfl, rfl, rfl, rfl⟩

theorem messages_congr {q q' : MessageQueue μ} (hcap : q'.cap = q.cap) (hhead : q'.head = q.head)
    (htail : q'.tail = q.tail) (hqueue : q'.queue = q.queue) : q'.messages = q.messages := by
  unfold MessageQueue.messages skynetMqLength
  rw [hcap, hhead, htail, hqueue]

/-- A pop takes the first message, or finds that there is none. -/
theorem skynetMqPop_spec (h : q.WellFormed) :
    (skynetMqPop q).2.WellFormed ∧ (skynetMqPop q).2.release = q.release ∧
      (((skynetMqPop q).1 = none ∧ q.messages = [] ∧ (skynetMqPop q).2.messages = [] ∧
          (skynetMqPop q).2.inGlobal = false) ∨
        ∃ message, (skynetMqPop q).1 = some message ∧
          q.messages = message :: (skynetMqPop q).2.messages ∧
          (skynetMqPop q).2.inGlobal = q.inGlobal) := by
  have hhead := h.head_lt
  have htail := h.tail_lt
  unfold skynetMqPop
  split
  · next hne =>
    -- the ends differ, so there is a message
    obtain ⟨count, hcount⟩ : ∃ count, skynetMqLength q = count + 1 := by
      refine Nat.exists_eq_add_one_of_ne_zero ?_
      unfold skynetMqLength
      split <;> omega
    have hnext : (if q.head + 1 ≥ q.cap then 0 else q.head + 1) = (q.head + 1) % q.cap :=
      next_eq_mod hhead
    have hlength := h.length_lt
    -- the tail is as far as before, and the head one step nearer
    have htailEq : q.tail = ((q.head + 1) % q.cap + count) % q.cap := by
      rw [Nat.mod_add_mod, h.tail_eq, hcount]
      congr 1
      omega
    have hnextLt : (q.head + 1) % q.cap < q.cap := Nat.mod_lt _ (by omega)
    have hrest := length_of_tail hnextLt (by omega) htailEq
    dsimp only
    rw [hnext]
    generalize (if (q.head + 1) % q.cap ≤ q.tail then q.tail - (q.head + 1) % q.cap
      else q.tail + q.cap - (q.head + 1) % q.cap) = length at hrest ⊢
    obtain ⟨hc, hh, ht, hq, hr, hg⟩ :=
      raiseThreshold_frame length length { q with head := (q.head + 1) % q.cap }
    refine ⟨⟨?_, ?_⟩, hr, Or.inr ⟨q.queue q.head, rfl, ?_, hg⟩⟩
    · rw [hh, hc]
      exact hnextLt
    · rw [ht, hc]
      exact htail
    · rw [messages_congr hc hh ht hq, MessageQueue.messages, hcount, ringItems_succ,
        Nat.mod_eq_of_lt hhead, MessageQueue.messages]
      congr 2
      unfold skynetMqLength
      exact (length_of_tail hnextLt (by omega) htailEq).symm
  · next heq =>
    -- the ends meet: a full ring has been expanded, so this one is empty
    have hempty : skynetMqLength q = 0 := by
      unfold skynetMqLength
      rw [not_not.mp heq, if_pos le_rfl, Nat.sub_self]
    have hnone : q.messages = [] := by rw [MessageQueue.messages, hempty, ringItems_zero]
    exact ⟨⟨hhead, htail⟩, rfl, Or.inl ⟨rfl, hnone, hnone, rfl⟩⟩

theorem skynetMqPush_spec (h : q.WellFormed) (message : μ) :
    (skynetMqPush memory q message).1.WellFormed ∧
      (skynetMqPush memory q message).1.messages = q.messages ++ [message] ∧
      (skynetMqPush memory q message).1.release = q.release ∧
      (skynetMqPush memory q message).1.inGlobal = true ∧
      (skynetMqPush memory q message).2 = !q.inGlobal := by
  obtain ⟨hwell, hmessages⟩ := @enqueue_spec _ q memory h message
  have hglobal : (enqueue memory q message).inGlobal = q.inGlobal := by
    unfold enqueue
    dsimp only
    split_ifs <;> rfl
  have hrelease : (enqueue memory q message).release = q.release := by
    unfold enqueue
    dsimp only
    split_ifs <;> rfl
  unfold skynetMqPush
  dsimp only
  cases hin : q.inGlobal with
  | true =>
      rw [hin] at hglobal
      rw [if_pos hglobal]
      exact ⟨hwell, hmessages, hrelease, hglobal, rfl⟩
  | false =>
      rw [hin] at hglobal
      rw [if_neg (by rw [hglobal]; decide)]
      exact ⟨⟨hwell.head_lt, hwell.tail_lt⟩, hmessages, hrelease, rfl, rfl⟩

end

end Skynet
end ArmyRs
