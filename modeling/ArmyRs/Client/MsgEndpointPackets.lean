import Mathlib.Data.List.Perm.Basic
import ArmyRs.Client.MsgEndpointQueue

/-!
# Packets and callbacks of the message queue

A packet is in one place, the numbers of the packets increase, and the callback
of a request is called once at most (`Orderly`).

A request is awaited under the number of the packet or of the signal that holds
its callback (`Awaits`).  It is so under one number at most, and then it has not
been called.  An item of the resend queue knows this number, and a packet waits
under it (`Kept`).  Most steps only take something away (`Shrinks`): the flushes,
the responses up to the callback, and what clears the queues.
-/

namespace ArmyRs
namespace Client

open Foundation

/-- The number under which a packet was queued. -/
def Entry.number : Entry → Option Nat
  | .queued n _ => some n
  | _ => none

/-- The callback of the request ran. -/
def isRun (request : Nat) : Entry → Bool
  | .queued .. => false
  | .predicted other => other = request
  | .responded other _ => other = request

/-- A packet is in one place, the numbers increase, and a callback runs once at
most. -/
structure Orderly (s : MsgEndpoint) : Prop where
  nodup : (s.sendQueue ++ s.receiveQueue ++ s.sentPacketPool.pond).Nodup
  increasing : (s.log.filterMap Entry.number).Pairwise (· < ·)
  once : ∀ request, s.log.countP (isRun request) ≤ 1
  answered : ∀ request n, .responded request n ∈ s.log → .queued n request ∈ s.log

/-- It is the callback of the request. -/
def Calls (callback : Option Callback) (request : Nat) : Prop :=
  ∃ func, callback = some (.onComplete request func)

/-- A response is what calls its callback. -/
def Request.live (request : Request) : Bool :=
  !request.opts.predictMessage && request.onComplete.isSome

namespace MsgEndpoint

/-- The packets that are lent. -/
def lent (s : MsgEndpoint) : List Nat :=
  s.sendQueue ++ s.receiveQueue ++ s.predicted

/-- The callback of the request goes with the number. -/
def Awaits (s : MsgEndpoint) (n request : Nat) : Prop :=
  Calls (s.signals n) request ∨
    ∃ ref ∈ s.sendQueue, (s.packet ref).number = n ∧ Calls (s.packet ref).onComplete request

/-- The items whose requests wait for a response. -/
def waiting (s : MsgEndpoint) : List ResendItem :=
  s.resendQueue.filter fun item => item.request.live

/-- The request was made, its callback was not called, and nothing knows of it. -/
structure Unused (s : MsgEndpoint) (request : Nat) : Prop where
  made : request < s.requests
  unrun : s.log.countP (isRun request) = 0
  unawaited : ∀ n, ¬ s.Awaits n request
  away : ∀ item ∈ s.waiting, item.request.id ≠ request

end MsgEndpoint

/-- Every packet that is lent is in one place. -/
structure Placed (s : MsgEndpoint) : Prop where
  apart : s.sentPacketPool.Apart fun ref => ref ∈ s.lent
  nodup : s.lent.Nodup

/-- Packets have numbers of their own, and so have the signals of packets that
were sent. -/
structure Numbered (s : MsgEndpoint) : Prop where
  increasing : (s.log.filterMap Entry.number).Pairwise (· < ·)
  logged_lt : ∀ n ∈ s.log.filterMap Entry.number, n < s.number
  packets_lt : ∀ ref ∈ s.sendQueue ++ s.receiveQueue, (s.packet ref).number < s.number
  packets_inj : ∀ ref ∈ s.sendQueue ++ s.receiveQueue, ∀ other ∈ s.sendQueue ++ s.receiveQueue,
    (s.packet ref).number = (s.packet other).number → ref = other
  signals_lt : ∀ n callback, s.signals n = some callback → n < s.number
  unsent : ∀ ref ∈ s.sendQueue, s.signals (s.packet ref).number = none

/-- What the interrupted functions rely on. -/
structure Framed (s : MsgEndpoint) : Prop where
  single : s.predicted.length ≤ 1
  predicting : ∀ ref request, .predicting ref request ∈ s.stack →
    (s.packet ref).number = s.number ∧ request.live = false
  resending : ∀ items link, .resending items link ∉ s.stack
  messaging : ∀ n, .messaging n ∈ s.stack → n < s.number ∧ ¬ s.Waits n

/-- Callbacks are called once at most. -/
structure Awaited (s : MsgEndpoint) : Prop where
  once : ∀ request, s.log.countP (isRun request) ≤ 1
  answered : ∀ request n, .responded request n ∈ s.log → .queued n request ∈ s.log
  made : ∀ request, s.log.countP (isRun request) ≠ 0 → request < s.requests
  awaits_made : ∀ n request, s.Awaits n request → request < s.requests
  awaits_one : ∀ n m request, s.Awaits n request → s.Awaits m request → n = m
  awaits_unrun : ∀ n request, s.Awaits n request → s.log.countP (isRun request) = 0
  awaits_queued : ∀ n request, s.Awaits n request → .queued n request ∈ s.log
  waiting_made : ∀ item ∈ s.waiting, item.request.id < s.requests
  waiting_nodup : (s.waiting.map fun item => item.request.id).Nodup
  waiting_unrun : ∀ item ∈ s.waiting, s.log.countP (isRun item.request.id) = 0
  waiting_awaits : ∀ item ∈ s.waiting, ∀ n, s.Awaits n item.request.id → n = item.number
  waiting_received : ∀ item ∈ s.waiting, Calls (s.signals item.number) item.request.id →
    ∃ ref ∈ s.receiveQueue, (s.packet ref).number = item.number

/-- What every careful step keeps. -/
structure Kept (s : MsgEndpoint) : Prop extends Placed s, Numbered s, Framed s, Awaited s

variable {s next : MsgEndpoint}

/-- No packet that is lent lies in the pool. -/
theorem Kept.orderly (h : Kept s) : Orderly s where
  nodup := by
    have hqueues : (s.sendQueue ++ s.receiveQueue).Nodup := (List.nodup_append.mp h.nodup).1
    rw [List.nodup_append]
    refine ⟨hqueues, h.apart.nodup, ?_⟩
    rintro ref href _ hpond rfl
    exact h.apart.unused ref hpond (List.mem_append_left _ href)
  increasing := h.increasing
  once := h.once
  answered := h.answered

theorem kept_initQueue : Kept .initQueue where
  apart := Pool.apart_new 64 fun _ h => nomatch h
  nodup := List.nodup_nil
  increasing := List.Pairwise.nil
  logged_lt := fun _ h => nomatch h
  packets_lt := fun _ h => nomatch h
  packets_inj := fun _ h => nomatch h
  signals_lt := fun _ _ h => nomatch h
  unsent := fun _ h => nomatch h
  single := Nat.zero_le 1
  predicting := fun _ _ h => nomatch h
  resending := fun _ _ h => nomatch h
  messaging := fun _ h => nomatch h
  once := fun _ => Nat.zero_le 1
  answered := fun _ _ h => nomatch h
  made := fun _ h => absurd rfl h
  awaits_made := by rintro n request (⟨func, h⟩ | ⟨ref, h, -⟩) <;> cases h
  awaits_one := by rintro n m request (⟨func, h⟩ | ⟨ref, h, -⟩) <;> cases h
  awaits_unrun := fun _ _ _ => rfl
  awaits_queued := by rintro n request (⟨func, h⟩ | ⟨ref, h, -⟩) <;> cases h
  waiting_made := fun _ h => nomatch h
  waiting_nodup := List.nodup_nil
  waiting_unrun := fun _ h => nomatch h
  waiting_awaits := fun _ h => nomatch h
  waiting_received := fun _ h => nomatch h

/-! ## Steps that take something away -/

theorem of_update_none {A B : Type*} [DecidableEq A] {f : A → Option B} {n m : A} {b : B}
    (h : Function.update f n none m = some b) : m ≠ n ∧ f m = some b := by
  by_cases hm : m = n
  · rw [hm, Function.update_self] at h
    cases h
  · rw [Function.update_of_ne hm] at h
    exact ⟨hm, h⟩

/-- The callbacks go from packets to signals, and nothing else is new. -/
structure Shrinks (s next : MsgEndpoint) : Prop where
  number : next.number = s.number
  requests : s.requests ≤ next.requests
  log : next.log = s.log
  numbers : ∀ ref ∈ s.lent, (next.packet ref).number = (s.packet ref).number
  queues : ∀ ref ∈ next.sendQueue ++ next.receiveQueue, ref ∈ s.sendQueue ++ s.receiveQueue
  unsent : ∀ ref ∈ next.sendQueue, ref ∈ s.sendQueue ∧ next.packet ref = s.packet ref
  signals : ∀ n callback, next.signals n = some callback → s.signals n = some callback ∨
    next.sendQueue = [] ∧ ∃ ref ∈ s.sendQueue, ref ∈ next.receiveQueue ∧
      (s.packet ref).number = n ∧ (s.packet ref).onComplete = some callback
  stack : next.stack.Sublist s.stack
  resendQueue : next.resendQueue.Sublist s.resendQueue
  received : ∀ item ∈ next.resendQueue, ∀ ref ∈ s.receiveQueue,
    (s.packet ref).number = item.number → next.signals item.number ≠ none → ref ∈ next.receiveQueue

theorem mem_lent_of_queues {ref : Nat} (h : ref ∈ s.sendQueue ++ s.receiveQueue) : ref ∈ s.lent :=
  List.mem_append_left _ h

theorem mem_lent_of_predicting {ref : Nat} {request : Request}
    (h : .predicting ref request ∈ s.stack) : ref ∈ s.lent :=
  List.mem_append_right _ (List.mem_filterMap.mpr ⟨_, h, rfl⟩)

/-- Signals are deleted, interrupted functions given up and resend items taken out. -/
theorem shrinks_narrowed {signals : Nat → Option Callback} {stack : List Frame}
    {resendQueue : List ResendItem}
    (hsignals : ∀ n callback, signals n = some callback → s.signals n = some callback)
    (hstack : stack.Sublist s.stack) (hresend : resendQueue.Sublist s.resendQueue) :
    Shrinks s { s with signals := signals, stack := stack, resendQueue := resendQueue } where
  number := rfl
  requests := Nat.le_refl _
  log := rfl
  numbers _ _ := rfl
  queues _ href := href
  unsent _ href := ⟨href, rfl⟩
  signals n callback hsignal := .inl (hsignals n callback hsignal)
  stack := hstack
  resendQueue := hresend
  received _ _ _ href _ _ := href

section

variable (hshrinks : Shrinks s next)
include hshrinks

theorem Shrinks.awaits {n request : Nat} (h : next.Awaits n request) : s.Awaits n request := by
  rcases h with ⟨func, hsignal⟩ | ⟨ref, href, hnumber, hcalls⟩
  · rcases hshrinks.signals n _ hsignal with hold | ⟨-, ref, href, -, hnumber, hcallback⟩
    · exact .inl ⟨func, hold⟩
    · exact .inr ⟨ref, href, hnumber, func, hcallback⟩
  · obtain ⟨hsent, hpacket⟩ := hshrinks.unsent ref href
    rw [hpacket] at hnumber hcalls
    exact .inr ⟨ref, hsent, hnumber, hcalls⟩

theorem Shrinks.waits {n : Nat} (h : next.Waits n) : s.Waits n := by
  obtain ⟨ref, href, hnumber⟩ := h
  have hold := hshrinks.queues ref href
  rw [hshrinks.numbers ref (mem_lent_of_queues hold)] at hnumber
  exact ⟨ref, hold, hnumber⟩

theorem Shrinks.predicted : next.predicted.Sublist s.predicted :=
  hshrinks.stack.filterMap _

theorem Shrinks.waiting : next.waiting.Sublist s.waiting :=
  hshrinks.resendQueue.filter _

theorem Shrinks.numbered (h : Numbered s) : Numbered next := by
  have hnumber : ∀ ref ∈ next.sendQueue ++ next.receiveQueue, ref ∈ s.sendQueue ++ s.receiveQueue ∧
      (next.packet ref).number = (s.packet ref).number := by
    intro ref href
    have hold := hshrinks.queues ref href
    exact ⟨hold, hshrinks.numbers ref (mem_lent_of_queues hold)⟩
  constructor
  · rw [hshrinks.log]
    exact h.increasing
  · rw [hshrinks.log, hshrinks.number]
    exact h.logged_lt
  · intro ref href
    obtain ⟨hold, heq⟩ := hnumber ref href
    rw [heq, hshrinks.number]
    exact h.packets_lt ref hold
  · intro ref href other hother hsame
    obtain ⟨hold, heq⟩ := hnumber ref href
    obtain ⟨holdOther, heqOther⟩ := hnumber other hother
    rw [heq, heqOther] at hsame
    exact h.packets_inj ref hold other holdOther hsame
  · intro n callback hsignal
    rw [hshrinks.number]
    rcases hshrinks.signals n callback hsignal with hold | ⟨-, ref, href, -, rfl, -⟩
    · exact h.signals_lt n callback hold
    · exact h.packets_lt ref (List.mem_append_left _ href)
  · intro ref href
    obtain ⟨hsent, hpacket⟩ := hshrinks.unsent ref href
    rw [hpacket]
    cases hsignal : next.signals (s.packet ref).number with
    | none => rfl
    | some callback =>
        rcases hshrinks.signals _ callback hsignal with hold | ⟨hempty, -⟩
        · rw [h.unsent ref hsent] at hold
          cases hold
        · rw [hempty] at href
          cases href

theorem Shrinks.framed (h : Framed s) : Framed next := by
  constructor
  · exact hshrinks.predicted.length_le.trans h.single
  · intro ref request hmem
    have hold := hshrinks.stack.subset hmem
    rw [hshrinks.numbers ref (mem_lent_of_predicting hold), hshrinks.number]
    exact h.predicting ref request hold
  · exact fun items link hmem => h.resending items link (hshrinks.stack.subset hmem)
  · intro n hmem
    obtain ⟨hlt, hwaits⟩ := h.messaging n (hshrinks.stack.subset hmem)
    rw [hshrinks.number]
    exact ⟨hlt, fun hnew => hwaits (hshrinks.waits hnew)⟩

theorem Shrinks.awaited (h : Awaited s) : Awaited next := by
  have hsub : ∀ item ∈ next.waiting, item ∈ s.waiting := hshrinks.waiting.subset
  constructor
  · rw [hshrinks.log]
    exact h.once
  · rw [hshrinks.log]
    exact h.answered
  · intro request
    rw [hshrinks.log]
    exact fun hran => Nat.lt_of_lt_of_le (h.made request hran) hshrinks.requests
  · exact fun n request hawaits =>
      Nat.lt_of_lt_of_le (h.awaits_made n request (hshrinks.awaits hawaits)) hshrinks.requests
  · exact fun n m request hn hm =>
      h.awaits_one n m request (hshrinks.awaits hn) (hshrinks.awaits hm)
  · intro n request hawaits
    rw [hshrinks.log]
    exact h.awaits_unrun n request (hshrinks.awaits hawaits)
  · intro n request hawaits
    rw [hshrinks.log]
    exact h.awaits_queued n request (hshrinks.awaits hawaits)
  · exact fun item hitem =>
      Nat.lt_of_lt_of_le (h.waiting_made item (hsub item hitem)) hshrinks.requests
  · exact (hshrinks.waiting.map _).nodup h.waiting_nodup
  · intro item hitem
    rw [hshrinks.log]
    exact h.waiting_unrun item (hsub item hitem)
  · exact fun item hitem n hawaits =>
      h.waiting_awaits item (hsub item hitem) n (hshrinks.awaits hawaits)
  · intro item hitem hcalls
    obtain ⟨func, hsignal⟩ := hcalls
    rcases hshrinks.signals _ _ hsignal with hold | ⟨-, ref, href, hmoved, hnumber, -⟩
    · -- the packet of the signal is still in the receive queue
      obtain ⟨ref, href, hnumber⟩ := h.waiting_received item (hsub item hitem) ⟨func, hold⟩
      refine ⟨ref, ?_, ?_⟩
      · refine hshrinks.received item (List.mem_filter.mp hitem).1 ref href hnumber ?_
        rw [hsignal]
        exact Option.some_ne_none _
      · rw [hshrinks.numbers ref (mem_lent_of_queues (List.mem_append_right _ href))]
        exact hnumber
    · refine ⟨ref, hmoved, ?_⟩
      rw [hshrinks.numbers ref (mem_lent_of_queues (List.mem_append_left _ href))]
      exact hnumber

theorem Shrinks.kept (h : Kept s) (hplaced : Placed next) : Kept next :=
  ⟨hplaced, hshrinks.numbered h.toNumbered, hshrinks.framed h.toFramed,
    hshrinks.awaited h.toAwaited⟩

end

/-- Packets that are given back are not lent any more. -/
theorem Placed.recycleAll {refs : List Nat} (h : Placed s)
    (hpool : next.sentPacketPool = refs.foldl Pool.recycle s.sentPacketPool)
    (hnodup : (refs ++ next.lent).Nodup) (hmem : ∀ ref ∈ refs ++ next.lent, ref ∈ s.lent) :
    Placed next := by
  obtain ⟨hrefs, hlent, hapart⟩ := List.nodup_append.mp hnodup
  constructor
  · rw [hpool]
    refine h.apart.recycleAll hrefs ?_ ?_
    · exact fun ref href => hmem ref (List.mem_append_left _ href)
    · intro ref href
      exact ⟨hmem ref (List.mem_append_right _ href), fun hin => hapart ref hin ref href rfl⟩
  · exact hlent

/-- The same when the packets that were lent were only moved. -/
theorem Placed.perm (h : Placed s) (refs : List Nat)
    (hpool : next.sentPacketPool = refs.foldl Pool.recycle s.sentPacketPool)
    (hlent : (refs ++ next.lent).Perm s.lent) : Placed next :=
  h.recycleAll hpool (hlent.nodup_iff.mpr h.nodup) fun _ href => hlent.mem_iff.mp href

/-! ## Giving packets back -/

theorem foldl_dropPacket (refs : List Nat) (s : MsgEndpoint) :
    refs.foldl MsgEndpoint.dropPacket s = { s with
      sentPacketPool := refs.foldl Pool.recycle s.sentPacketPool
      signals := fun n =>
        if ∃ ref ∈ refs, (s.packet ref).number = n then none else s.signals n } := by
  induction refs generalizing s with
  | nil => simp
  | cons ref refs ih =>
      rw [List.foldl_cons, ih]
      unfold MsgEndpoint.dropPacket MsgEndpoint.deleteSignal
      congr 1
      funext n
      by_cases hn : n = (s.packet ref).number
      · subst hn
        simp
      · have hne : ¬ (s.packet ref).number = n := fun heq => hn heq.symm
        simp [hn, hne]

/-- A signal that is left belongs to no packet that was given back. -/
theorem of_dropped {refs : List Nat} {n : Nat} {callback : Callback}
    (h : (if ∃ ref ∈ refs, (s.packet ref).number = n then none else s.signals n) = some callback) :
    s.signals n = some callback ∧ ¬ ∃ ref ∈ refs, (s.packet ref).number = n := by
  split at h
  · cases h
  · next hrefs => exact ⟨h, hrefs⟩

theorem Kept.clearSendQueue (h : Kept s) : Kept s.clearSendQueue := by
  unfold MsgEndpoint.clearSendQueue
  rw [foldl_dropPacket]
  refine Shrinks.kept ?_ h (h.toPlaced.perm _ rfl ?_)
  · constructor
    · rfl
    · exact Nat.le_refl _
    · rfl
    · exact fun _ _ => rfl
    · exact fun ref href => List.mem_append_right _ href
    · exact fun ref href => nomatch href
    · exact fun n callback hsignal => .inl (of_dropped hsignal).1
    · exact List.Sublist.refl _
    · exact List.Sublist.refl _
    · exact fun item _ ref href _ _ => href
  · simp [MsgEndpoint.lent, MsgEndpoint.predicted]

theorem Kept.clearReceiveQueue (h : Kept s) : Kept s.clearReceiveQueue := by
  unfold MsgEndpoint.clearReceiveQueue
  rw [foldl_dropPacket]
  refine Shrinks.kept ?_ h (h.toPlaced.perm _ rfl ?_)
  · constructor
    · rfl
    · exact Nat.le_refl _
    · rfl
    · exact fun _ _ => rfl
    · intro ref href
      rw [List.append_nil] at href
      exact List.mem_append_left _ href
    · exact fun ref href => ⟨href, rfl⟩
    · exact fun n callback hsignal => .inl (of_dropped hsignal).1
    · exact List.Sublist.refl _
    · exact List.Sublist.refl _
    · intro item _ ref href hnumber hsignal
      exact absurd (if_pos ⟨ref, href, hnumber⟩) hsignal
  · simp only [MsgEndpoint.lent, MsgEndpoint.predicted, List.append_nil]
    rw [← List.append_assoc]
    exact List.perm_append_comm.append_right _

/-! ## Sending -/

/-- The packets lose their callbacks, which the signals of their numbers get. -/
theorem foldl_onPacketWillBeSent (refs : List Nat) (s : MsgEndpoint) :
    ∃ signals, refs.foldl MsgEndpoint.onPacketWillBeSent s = { s with
      packet := fun ref =>
        if ref ∈ refs then { s.packet ref with onComplete := none } else s.packet ref
      signals := signals } ∧
    ∀ n callback, signals n = some callback → s.signals n = some callback ∨
      ∃ ref ∈ refs, (s.packet ref).number = n ∧ (s.packet ref).onComplete = some callback := by
  induction refs generalizing s with
  | nil => exact ⟨s.signals, by simp, fun n callback hsignal => .inl hsignal⟩
  | cons first refs ih =>
      obtain ⟨signals, heq, hsignals⟩ := ih (s.onPacketWillBeSent first)
      refine ⟨signals, ?_, ?_⟩
      · rw [List.foldl_cons, heq]
        unfold MsgEndpoint.onPacketWillBeSent
        congr 1
        funext ref
        by_cases href : ref = first
        · subst href
          simp
        · simp [href]
      · intro n callback hsignal
        rcases hsignals n callback hsignal with hold | ⟨ref, href, hnumber, hcallback⟩
        · unfold MsgEndpoint.onPacketWillBeSent at hold
          dsimp only at hold
          by_cases hn : n = (s.packet first).number
          · subst hn
            rw [Function.update_self] at hold
            exact .inr ⟨first, List.mem_cons_self, rfl, hold⟩
          · rw [Function.update_of_ne hn] at hold
            exact .inl hold
        · -- a packet that was sent before has no callback any more
          unfold MsgEndpoint.onPacketWillBeSent at hnumber hcallback
          dsimp only at hnumber hcallback
          by_cases hfirst : ref = first
          · subst hfirst
            rw [Function.update_self] at hcallback
            cases hcallback
          · rw [Function.update_of_ne hfirst] at hnumber hcallback
            exact .inr ⟨ref, List.mem_cons_of_mem _ href, hnumber, hcallback⟩

/-- What `onSocketClosed` leaves. -/
theorem onSocketClosed_eq (s : MsgEndpoint) :
    s.onSocketClosed = { s with
      sentPacketPool := (s.sendQueue ++ s.receiveQueue).foldl Pool.recycle s.sentPacketPool
      sendQueue := []
      receiveQueue := []
      signals := fun n => if s.Waits n then none else s.signals n } := by
  unfold MsgEndpoint.onSocketClosed MsgEndpoint.clearSendQueue MsgEndpoint.clearReceiveQueue
  rw [foldl_dropPacket, foldl_dropPacket, List.foldl_append]
  congr 1
  funext n
  have hwaits : s.Waits n ↔ (∃ ref ∈ s.sendQueue, (s.packet ref).number = n) ∨
      ∃ ref ∈ s.receiveQueue, (s.packet ref).number = n := by
    simp [MsgEndpoint.Waits, or_and_right, exists_or]
  by_cases hsend : ∃ ref ∈ s.sendQueue, (s.packet ref).number = n
  · simp [hwaits, hsend]
  · simp [hwaits, hsend]

/-- The numbers stay with the packets that are sent. -/
theorem number_onPacketWillBeSent (refs : List Nat) (s : MsgEndpoint) (ref : Nat) :
    ((refs.foldl MsgEndpoint.onPacketWillBeSent s).packet ref).number = (s.packet ref).number := by
  obtain ⟨signals, heq, -⟩ := foldl_onPacketWillBeSent refs s
  rw [heq]
  dsimp only
  split
  · rfl
  · rfl

theorem Kept.sent (h : Kept s) : Kept { s.sendQueue.foldl MsgEndpoint.onPacketWillBeSent s with
    sendQueue := []
    receiveQueue := s.receiveQueue ++ s.sendQueue } := by
  have hnumber := number_onPacketWillBeSent s.sendQueue s
  obtain ⟨signals, heq, hsignals⟩ := foldl_onPacketWillBeSent s.sendQueue s
  rw [heq] at hnumber ⊢
  refine Shrinks.kept ?_ h (h.toPlaced.perm [] rfl ?_)
  · constructor
    · rfl
    · exact Nat.le_refl _
    · rfl
    · exact fun ref _ => hnumber ref
    · intro ref href
      rw [List.nil_append] at href
      exact List.perm_append_comm.mem_iff.mp href
    · exact fun ref href => nomatch href
    · intro n callback hsignal
      refine (hsignals n callback hsignal).imp id ?_
      rintro ⟨ref, href, hn, hcallback⟩
      exact ⟨rfl, ref, href, List.mem_append_right _ href, hn, hcallback⟩
    · exact List.Sublist.refl _
    · exact List.Sublist.refl _
    · exact fun item _ ref href _ _ => List.mem_append_left _ href
  · have hmoved : (s.receiveQueue ++ s.sendQueue ++ s.predicted).Perm s.lent :=
      List.perm_append_comm.append_right _
    exact hmoved

/-- When the sending fails, the signals of the packets are deleted again. -/
theorem Kept.failed (h : Kept s) :
    Kept (s.sendQueue.foldl MsgEndpoint.onPacketWillBeSent s).onSocketClosed := by
  have hnumber := number_onPacketWillBeSent s.sendQueue s
  obtain ⟨signals, heq, hsignals⟩ := foldl_onPacketWillBeSent s.sendQueue s
  rw [onSocketClosed_eq]
  rw [heq] at hnumber ⊢
  refine Shrinks.kept ?_ h (h.toPlaced.perm (s.sendQueue ++ s.receiveQueue) rfl ?_)
  · constructor
    · rfl
    · exact Nat.le_refl _
    · rfl
    · exact fun ref _ => hnumber ref
    · exact fun ref href => nomatch href
    · exact fun ref href => nomatch href
    · intro n callback hsignal
      obtain ⟨hsignal, hwaits⟩ := of_dropped hsignal
      rcases hsignals n callback hsignal with hold | ⟨ref, href, rfl, -⟩
      · exact .inl hold
      · exact absurd ⟨ref, List.mem_append_left _ href, hnumber ref⟩ hwaits
    · exact List.Sublist.refl _
    · exact List.Sublist.refl _
    · intro item _ ref href hn hsignal
      refine absurd (if_pos ⟨ref, List.mem_append_right _ href, ?_⟩) hsignal
      rw [← hn]
      exact hnumber ref
  · simp [MsgEndpoint.lent, MsgEndpoint.predicted]

theorem Kept.flushSendQueue (h : Kept s) (link : Link) : Kept (s.flushSendQueue link) := by
  unfold MsgEndpoint.flushSendQueue
  split
  · exact h
  · cases link with
    | disallowed => exact h.clearSendQueue
    | closed => exact h.clearSendQueue.clearReceiveQueue
    | sent => exact h.sent
    | failed => exact h.failed

/-! ## Responses -/

/-- The packet that is found is the one that is taken out. -/
theorem perm_cons_eraseP {p : Nat → Bool} {refs : List Nat} {ref : Nat}
    (hfind : refs.find? p = some ref) : (ref :: refs.eraseP p).Perm refs := by
  induction refs with
  | nil => cases hfind
  | cons first refs ih =>
      rw [List.find?_cons] at hfind
      rw [List.eraseP_cons]
      cases hp : p first with
      | true =>
          rw [hp] at hfind
          cases hfind
          simp
      | false =>
          rw [hp] at hfind
          exact (List.Perm.swap first ref _).trans ((ih hfind).cons first)

/-- Items are taken out and signals deleted. -/
theorem cancelResendItem_eq (s : MsgEndpoint) (n : Nat) (sentPacket : Packet) :
    ∃ signals, s.cancelResendItem n sentPacket = { s with
      signals := signals
      resendQueue := s.resendQueue.filter fun item =>
        !(item.number == n || item.follows n sentPacket) } ∧
    ∀ m callback, signals m = some callback → s.signals m = some callback := by
  unfold MsgEndpoint.cancelResendItem
  dsimp only
  induction s.resendQueue.filter fun item => item.follows n sentPacket with
  | nil => exact ⟨s.signals, rfl, fun m callback hsignal => hsignal⟩
  | cons item following ih =>
      obtain ⟨signals, heq, hsignals⟩ := ih
      refine ⟨Function.update signals item.number none, ?_, ?_⟩
      · rw [List.foldr_cons, heq]
        rfl
      · exact fun m callback hsignal => hsignals m callback (of_update_none hsignal).2

/-- A packet leaves the receive queue. -/
theorem Kept.takeOut (h : Kept s) (signals : Nat → Option Callback)
    (resendQueue : List ResendItem) {ref : Nat} {receiveQueue : List Nat}
    (hperm : (ref :: receiveQueue).Perm s.receiveQueue)
    (hsignals : ∀ m callback, signals m = some callback → s.signals m = some callback)
    (hresend : resendQueue.Sublist s.resendQueue)
    (hitems : ∀ item ∈ resendQueue, signals item.number ≠ none →
      item.number ≠ (s.packet ref).number) :
    Kept { s with
      sentPacketPool := s.sentPacketPool.recycle ref
      receiveQueue := receiveQueue
      resendQueue := resendQueue
      signals := signals } := by
  have hmem : ∀ other ∈ receiveQueue, other ∈ s.receiveQueue :=
    fun other hother => hperm.mem_iff.mp (List.mem_cons_of_mem _ hother)
  refine Shrinks.kept ?_ h (h.toPlaced.perm [ref] rfl ?_)
  · constructor
    · rfl
    · exact Nat.le_refl _
    · rfl
    · exact fun _ _ => rfl
    · intro other hother
      refine List.mem_append.mpr ((List.mem_append.mp hother).imp id (hmem other))
    · exact fun other hother => ⟨hother, rfl⟩
    · exact fun m callback hsignal => .inl (hsignals m callback hsignal)
    · exact List.Sublist.refl _
    · exact hresend
    · intro item hitem other hother hnumber hsignal
      rcases List.mem_cons.mp (hperm.mem_iff.mpr hother) with rfl | hrest
      · exact absurd hnumber.symm (hitems item hitem hsignal)
      · exact hrest
  · have hlent : (ref :: (s.sendQueue ++ receiveQueue ++ s.predicted)).Perm s.lent := by
      refine List.Perm.append_right _ (?_ : (ref :: (s.sendQueue ++ receiveQueue)).Perm _)
      exact List.perm_middle.symm.trans (hperm.append_left _)
    exact hlent

/-- The callbacks do not depend on the interrupted functions. -/
theorem Awaited.interrupt (h : Awaited s) (stack : List Frame) :
    Awaited { s with stack := stack } :=
  ⟨h.once, h.answered, h.made, h.awaits_made, h.awaits_one, h.awaits_unrun, h.awaits_queued,
    h.waiting_made, h.waiting_nodup, h.waiting_unrun, h.waiting_awaits, h.waiting_received⟩

theorem Kept.push_messaging (h : Kept s) {n : Nat} (hlt : n < s.number) (hwaits : ¬ s.Waits n) :
    Kept { s with stack := .messaging n :: s.stack } := by
  refine ⟨⟨h.apart, h.nodup⟩, ⟨h.increasing, h.logged_lt, h.packets_lt, h.packets_inj,
    h.signals_lt, h.unsent⟩, ⟨h.single, ?_, ?_, ?_⟩, h.toAwaited.interrupt _⟩
  · intro ref request hmem
    rcases List.mem_cons.mp hmem with heq | hold
    · cases heq
    · exact h.predicting ref request hold
  · intro items link hmem
    rcases List.mem_cons.mp hmem with heq | hold
    · cases heq
    · exact h.resending items link hold
  · intro m hmem
    rcases List.mem_cons.mp hmem with heq | hold
    · cases heq
      exact ⟨hlt, hwaits⟩
    · exact h.messaging m hold

theorem Kept.onPacketReceived (h : Kept s) (n : Nat) : Kept (s.onPacketReceived n) := by
  unfold MsgEndpoint.onPacketReceived
  split
  · exact h
  split
  · exact h
  next ref hfind =>
  have hnumber : (s.packet ref).number = n := by simpa using List.find?_some hfind
  have hperm := perm_cons_eraseP hfind
  have hmem : ref ∈ s.receiveQueue := List.mem_of_find?_eq_some hfind
  generalize hrest : (s.receiveQueue.eraseP fun ref => (s.packet ref).number = n) = rest at hperm ⊢
  obtain ⟨signals, heq, hsignals⟩ :=
    cancelResendItem_eq { s with receiveQueue := rest } n (s.packet ref)
  dsimp only at heq hsignals ⊢
  rw [heq]
  refine Kept.push_messaging (h.takeOut _ _ hperm hsignals List.filter_sublist ?_) ?_ ?_
  · intro item hitem _
    rw [hnumber]
    rintro rfl
    simpa using (List.mem_filter.mp hitem).2
  · rw [← hnumber]
    exact h.packets_lt ref (List.mem_append_right _ hmem)
  · -- the packet with the number was the only one
    rintro ⟨other, hother, hsame⟩
    have hother : other ∈ s.sendQueue ++ rest := hother
    have hnodup : (ref :: (s.sendQueue ++ rest)).Nodup := by
      have hqueues := (List.nodup_append.mp h.nodup).1
      have hqueuesPerm : (ref :: (s.sendQueue ++ rest)).Perm (s.sendQueue ++ s.receiveQueue) :=
        List.perm_middle.symm.trans (hperm.append_left _)
      exact hqueuesPerm.nodup_iff.mpr hqueues
    have hold : other ∈ s.sendQueue ++ s.receiveQueue :=
      List.mem_append.mpr ((List.mem_append.mp hother).imp id
        fun hin => hperm.mem_iff.mp (List.mem_cons_of_mem _ hin))
    have heqRef := h.packets_inj other hold ref (List.mem_append_right _ hmem)
      (hsame.trans hnumber.symm)
    rw [heqRef] at hother
    exact (List.nodup_cons.mp hnodup).1 hother

theorem Kept.removeFromReceiveQueue (h : Kept s) (n : Nat) :
    Kept (s.removeFromReceiveQueue n) := by
  unfold MsgEndpoint.removeFromReceiveQueue
  split
  · exact h
  next ref hfind =>
  have hnumber : (s.packet ref).number = n := by simpa using List.find?_some hfind
  have hperm := perm_cons_eraseP hfind
  refine h.takeOut (Function.update s.signals (s.packet ref).number none) s.resendQueue
    ?_ ?_ (List.Sublist.refl _) ?_
  · have hback := List.reverse_perm
      (s.receiveQueue.reverse.eraseP fun ref => (s.packet ref).number = n)
    exact (hback.cons ref).trans (hperm.trans (List.reverse_perm _))
  · exact fun m callback hsignal => (of_update_none hsignal).2
  · intro item _ hsignal
    obtain ⟨callback, hcallback⟩ := Option.ne_none_iff_exists'.mp hsignal
    exact (of_update_none hcallback).1

end Client
end ArmyRs
