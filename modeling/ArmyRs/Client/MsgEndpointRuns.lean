import ArmyRs.Client.MsgEndpointPackets

/-!
# Runs of the message queue

In a run that is careful in the sense of `Careful`, a packet is in one place, the
numbers of the packets increase, and the callback of a request is called once at
most, by its prediction or by a response with the number of one of its packets
(`orderly_of_careful`).

Only a request that nothing else knows of is queued (`MsgEndpoint.Unused`): a new
one, or an item of the resend queue whose packet waits no more.
-/

namespace ArmyRs
namespace Client

open Foundation

variable {s next : MsgEndpoint}

/-! ## Queueing -/

theorem waiting_enqueue (s : MsgEndpoint) (ref : Nat) (request : Request)
    (callback : Option Callback) :
    (s.enqueue ref request callback).waiting = s.waiting ++
      if request.opts.resend = true ∧ request.live = true then [⟨(s.packet ref).number, request⟩]
      else [] := by
  unfold MsgEndpoint.waiting MsgEndpoint.enqueue
  dsimp only
  by_cases hresend : request.opts.resend = true
  · by_cases hlive : request.live = true
    · simp [hresend, hlive]
    · simp [hresend, hlive]
  · simp [hresend]

/-- An item that waits did so before, or it is the new one. -/
theorem of_waiting_enqueue {ref : Nat} {request : Request} {callback : Option Callback}
    {item : ResendItem} (h : item ∈ (s.enqueue ref request callback).waiting) :
    item ∈ s.waiting ∨ item = ⟨(s.packet ref).number, request⟩ ∧ request.live = true := by
  rw [waiting_enqueue] at h
  rcases List.mem_append.mp h with hold | hlast
  · exact .inl hold
  · split at hlast
    · next hnew => exact .inr ⟨List.mem_singleton.mp hlast, hnew.2⟩
    · cases hlast

/-- A packet that is not lent yet, with the next number. -/
structure Fresh (s : MsgEndpoint) (ref : Nat) : Prop where
  apart : s.sentPacketPool.Apart fun other => other ∈ s.lent ∨ other = ref
  unlent : ref ∉ s.lent
  number : (s.packet ref).number = s.number

section

variable {ref : Nat} {request : Request} {callback : Option Callback}

theorem packet_enqueue : (s.enqueue ref request callback).packet ref =
    { s.packet ref with onComplete := callback } :=
  Function.update_self _ _ _

theorem Fresh.packet_of_mem (hfresh : Fresh s ref) {other : Nat} (hother : other ∈ s.lent) :
    (s.enqueue ref request callback).packet other = s.packet other := by
  refine Function.update_of_ne ?_ _ _
  rintro rfl
  exact hfresh.unlent hother

/-- Only the new packet brings a callback. -/
theorem Fresh.awaits_enqueue (hfresh : Fresh s ref) {n other : Nat}
    (h : (s.enqueue ref request callback).Awaits n other) :
    s.Awaits n other ∨ n = s.number ∧ Calls callback other := by
  rcases h with hsignal | ⟨packet, hpacket, hnumber, hcalls⟩
  · exact .inl (.inl hsignal)
  · have hmem : packet ∈ s.sendQueue ++ [ref] := hpacket
    rcases List.mem_append.mp hmem with hold | hlast
    · rw [hfresh.packet_of_mem (mem_lent_of_queues (List.mem_append_left _ hold))] at hnumber hcalls
      exact .inl (.inr ⟨packet, hold, hnumber, hcalls⟩)
    · rw [List.mem_singleton] at hlast
      subst hlast
      rw [packet_enqueue] at hnumber hcalls
      exact .inr ⟨hnumber.symm.trans hfresh.number, hcalls⟩

theorem Fresh.waits_enqueue (hfresh : Fresh s ref) {n : Nat}
    (h : (s.enqueue ref request callback).Waits n) : s.Waits n ∨ n = s.number := by
  obtain ⟨packet, hpacket, hnumber⟩ := h
  have hmem : packet ∈ s.sendQueue ++ [ref] ++ s.receiveQueue := hpacket
  by_cases heq : packet = ref
  · subst heq
    rw [packet_enqueue] at hnumber
    exact .inr (hnumber.symm.trans hfresh.number)
  · have hold : packet ∈ s.sendQueue ++ s.receiveQueue := by
      simpa [heq] using hmem
    rw [hfresh.packet_of_mem (mem_lent_of_queues hold)] at hnumber
    exact .inl ⟨packet, hold, hnumber⟩

theorem Fresh.placed_enqueue (hfresh : Fresh s ref) (h : Placed s) :
    Placed (s.enqueue ref request callback) := by
  have hperm : ((s.enqueue ref request callback).lent).Perm (ref :: s.lent) := by
    have hsend : (s.sendQueue ++ [ref] ++ s.receiveQueue ++ s.predicted).Perm (ref :: s.lent) := by
      simp only [MsgEndpoint.lent, List.append_assoc, List.singleton_append]
      exact List.perm_middle
    exact hsend
  constructor
  · refine hfresh.apart.mono fun other hother => ?_
    rcases List.mem_cons.mp (hperm.mem_iff.mp hother) with heq | hold
    · exact .inr heq
    · exact .inl hold
  · rw [hperm.nodup_iff, List.nodup_cons]
    exact ⟨hfresh.unlent, h.nodup⟩

theorem Fresh.numbered_enqueue (hfresh : Fresh s ref) (h : Numbered s) :
    Numbered (s.enqueue ref request callback) := by
  have hmem : ∀ packet ∈ (s.enqueue ref request callback).sendQueue ++ s.receiveQueue,
      packet = ref ∧ ((s.enqueue ref request callback).packet packet).number = s.number ∨
        packet ∈ s.sendQueue ++ s.receiveQueue ∧
          (s.enqueue ref request callback).packet packet = s.packet packet := by
    intro packet hpacket
    have hpacket : packet ∈ s.sendQueue ++ [ref] ++ s.receiveQueue := hpacket
    by_cases heq : packet = ref
    · subst heq
      rw [packet_enqueue]
      exact .inl ⟨rfl, hfresh.number⟩
    · have hold : packet ∈ s.sendQueue ++ s.receiveQueue := by
        simpa [heq] using hpacket
      exact .inr ⟨hold, hfresh.packet_of_mem (mem_lent_of_queues hold)⟩
  have hnumbers : (s.enqueue ref request callback).log.filterMap Entry.number =
      s.log.filterMap Entry.number ++ [s.number] := by
    simp [MsgEndpoint.enqueue, Entry.number, hfresh.number]
  constructor
  · rw [hnumbers, List.pairwise_append]
    refine ⟨h.increasing, List.pairwise_singleton _ _, ?_⟩
    intro n hn last hlast
    rw [List.mem_singleton.mp hlast]
    exact h.logged_lt n hn
  · rw [hnumbers]
    intro n hn
    rcases List.mem_append.mp hn with hold | hlast
    · exact Nat.lt_succ_of_lt (h.logged_lt n hold)
    · rw [List.mem_singleton.mp hlast]
      exact Nat.lt_succ_self _
  · intro packet hpacket
    rcases hmem packet hpacket with ⟨-, hnumber⟩ | ⟨hold, heq⟩
    · rw [hnumber]
      exact Nat.lt_succ_self _
    · rw [heq]
      exact Nat.lt_succ_of_lt (h.packets_lt packet hold)
  · intro packet hpacket other hother hsame
    rcases hmem packet hpacket with ⟨rfl, hnumber⟩ | ⟨hold, heq⟩
    · rcases hmem other hother with ⟨rfl, -⟩ | ⟨holdOther, heqOther⟩
      · rfl
      · rw [hnumber, heqOther] at hsame
        have hlt := h.packets_lt other holdOther
        omega
    · rcases hmem other hother with ⟨rfl, hnumber⟩ | ⟨holdOther, heqOther⟩
      · rw [hnumber, heq] at hsame
        have hlt := h.packets_lt packet hold
        omega
      · rw [heq, heqOther] at hsame
        exact h.packets_inj packet hold other holdOther hsame
  · exact fun n callback hsignal => Nat.lt_succ_of_lt (h.signals_lt n callback hsignal)
  · intro packet hpacket
    show s.signals ((s.enqueue ref request callback).packet packet).number = none
    have hsend : packet ∈ s.sendQueue ++ [ref] := hpacket
    rcases hmem packet (List.mem_append_left _ hpacket) with ⟨-, hnumber⟩ | ⟨hold, heq⟩
    · rw [hnumber]
      cases hsignal : s.signals s.number with
      | none => rfl
      | some callback => exact absurd (h.signals_lt _ _ hsignal) (Nat.lt_irrefl _)
    · rw [heq]
      rcases List.mem_append.mp hsend with hin | hlast
      · exact h.unsent packet hin
      · rw [List.mem_singleton.mp hlast] at hold
        exact absurd (mem_lent_of_queues hold) hfresh.unlent

theorem Fresh.framed_enqueue (hfresh : Fresh s ref) (h : Framed s) (hpredicted : s.predicted = []) :
    Framed (s.enqueue ref request callback) := by
  constructor
  · exact h.single
  · intro packet other hmem
    have hin : packet ∈ s.predicted := List.mem_filterMap.mpr ⟨_, hmem, rfl⟩
    rw [hpredicted] at hin
    cases hin
  · exact h.resending
  · intro n hmem
    obtain ⟨hlt, hwaits⟩ := h.messaging n hmem
    refine ⟨Nat.lt_succ_of_lt hlt, fun hnew => ?_⟩
    rcases hfresh.waits_enqueue hnew with hold | rfl
    · exact hwaits hold
    · exact Nat.lt_irrefl _ hlt

theorem Fresh.awaited_enqueue (hfresh : Fresh s ref) (h : Kept s)
    (hunused : request.live = true → s.Unused request.id)
    (hcalls : ∀ other, Calls callback other → other = request.id ∧ request.live = true) :
    Awaited (s.enqueue ref request callback) := by
  have hcount : ∀ other, (s.enqueue ref request callback).log.countP (isRun other) =
      s.log.countP (isRun other) := by
    intro other
    simp [MsgEndpoint.enqueue, isRun]
  -- what is awaited is awaited already, or it is the request
  have hawaits : ∀ n other, (s.enqueue ref request callback).Awaits n other →
      s.Awaits n other ∨ n = s.number ∧ other = request.id ∧ s.Unused other := by
    intro n other hnew
    refine (hfresh.awaits_enqueue hnew).imp id ?_
    rintro ⟨hn, hcallback⟩
    obtain ⟨hother, hlive⟩ := hcalls other hcallback
    rw [hother]
    exact ⟨hn, rfl, hunused hlive⟩
  constructor
  · intro other
    rw [hcount]
    exact h.once other
  · intro other n hmem
    have hold : .responded other n ∈ s.log := by simpa [MsgEndpoint.enqueue] using hmem
    exact List.mem_append_left _ (h.answered other n hold)
  · intro other
    rw [hcount]
    exact h.made other
  · intro n other hnew
    rcases hawaits n other hnew with hold | ⟨-, -, hother⟩
    · exact h.awaits_made n other hold
    · exact hother.made
  · intro n m other hn hm
    rcases hawaits n other hn with hold | ⟨hnumber, -, hother⟩
    · rcases hawaits m other hm with holdM | ⟨-, -, hother⟩
      · exact h.awaits_one n m other hold holdM
      · exact absurd hold (hother.unawaited n)
    · rcases hawaits m other hm with holdM | ⟨hnumberM, -, -⟩
      · exact absurd holdM (hother.unawaited m)
      · exact hnumber.trans hnumberM.symm
  · intro n other hnew
    rw [hcount]
    rcases hawaits n other hnew with hold | ⟨-, -, hother⟩
    · exact h.awaits_unrun n other hold
    · exact hother.unrun
  · intro n other hnew
    rcases hawaits n other hnew with hold | ⟨rfl, rfl, -⟩
    · exact List.mem_append_left _ (h.awaits_queued n other hold)
    · refine List.mem_append_right _ ?_
      rw [hfresh.number]
      exact List.mem_singleton_self _
  · intro item hitem
    rcases of_waiting_enqueue hitem with hold | ⟨rfl, hlive⟩
    · exact h.waiting_made item hold
    · exact (hunused hlive).made
  · rw [waiting_enqueue]
    split
    · next hnew =>
      rw [List.map_append, List.nodup_append]
      refine ⟨h.waiting_nodup, List.nodup_singleton _, ?_⟩
      rintro id hid other hother rfl
      obtain ⟨item, hitem, heq⟩ := List.mem_map.mp hid
      exact (hunused hnew.2).away item hitem (heq.trans (List.mem_singleton.mp hother))
    · rw [List.append_nil]
      exact h.waiting_nodup
  · intro item hitem
    rw [hcount]
    rcases of_waiting_enqueue hitem with hold | ⟨rfl, hlive⟩
    · exact h.waiting_unrun item hold
    · exact (hunused hlive).unrun
  · intro item hitem n hnew
    rcases of_waiting_enqueue hitem with hold | ⟨rfl, hlive⟩
    · rcases hawaits n _ hnew with hawaited | ⟨-, -, hother⟩
      · exact h.waiting_awaits item hold n hawaited
      · exact absurd rfl (hother.away item hold)
    · rcases hawaits n _ hnew with hawaited | ⟨hn, -, -⟩
      · exact absurd hawaited ((hunused hlive).unawaited n)
      · exact hn.trans hfresh.number.symm
  · intro item hitem hsignal
    rcases of_waiting_enqueue hitem with hold | ⟨rfl, hlive⟩
    · obtain ⟨packet, hpacket, hnumber⟩ := h.waiting_received item hold hsignal
      refine ⟨packet, hpacket, ?_⟩
      rw [hfresh.packet_of_mem (mem_lent_of_queues (List.mem_append_right _ hpacket))]
      exact hnumber
    · exact absurd (.inl hsignal) ((hunused hlive).unawaited _)

/-- A packet with the callback of a request that nothing knows of is queued. -/
theorem Kept.enqueue (h : Kept s) (hfresh : Fresh s ref) (hpredicted : s.predicted = [])
    (hunused : request.live = true → s.Unused request.id)
    (hcalls : ∀ other, Calls callback other → other = request.id ∧ request.live = true) :
    Kept (s.enqueue ref request callback) :=
  ⟨hfresh.placed_enqueue h.toPlaced, hfresh.numbered_enqueue h.toNumbered,
    hfresh.framed_enqueue h.toFramed hpredicted, hfresh.awaited_enqueue h hunused hcalls⟩

/-- What nothing knows of stays so when another request is queued. -/
theorem Fresh.unused_enqueue (hfresh : Fresh s ref) {other : Nat} (h : s.Unused other)
    (hcalls : ∀ called, Calls callback called → called = request.id ∧ request.live = true)
    (hother : request.live = true → request.id ≠ other) :
    (s.enqueue ref request callback).Unused other where
  made := h.made
  unrun := by simpa [MsgEndpoint.enqueue, isRun] using h.unrun
  unawaited := by
    intro n hnew
    rcases hfresh.awaits_enqueue hnew with hold | ⟨-, hcallback⟩
    · exact h.unawaited n hold
    · obtain ⟨rfl, hlive⟩ := hcalls other hcallback
      exact hother hlive rfl
  away := by
    intro item hitem
    rcases of_waiting_enqueue hitem with hold | ⟨rfl, hlive⟩
    · exact h.away item hold
    · exact hother hlive

end

theorem Shrinks.unused (hshrinks : Shrinks s next) {request : Nat} (h : s.Unused request) :
    next.Unused request where
  made := Nat.lt_of_lt_of_le h.made hshrinks.requests
  unrun := by
    rw [hshrinks.log]
    exact h.unrun
  unawaited := fun n hawaits => h.unawaited n (hshrinks.awaits hawaits)
  away := fun item hitem => h.away item (hshrinks.waiting.subset hitem)

theorem packet_build (h : Placed s) (request : Request) {ref : Nat} (href : ref ∈ s.lent) :
    (s.build request).2.packet ref = s.packet ref := by
  refine Function.update_of_ne ?_ _ _
  rintro rfl
  exact h.apart.borrow_unused href

theorem shrinks_build (h : Placed s) (request : Request) : Shrinks s (s.build request).2 := by
  constructor
  · rfl
  · exact Nat.le_refl _
  · rfl
  · intro ref href
    rw [packet_build h request href]
  · exact fun ref href => href
  · intro ref href
    exact ⟨href, packet_build h request (mem_lent_of_queues (List.mem_append_left _ href))⟩
  · exact fun n callback hsignal => .inl hsignal
  · exact List.Sublist.refl _
  · exact List.Sublist.refl _
  · exact fun item _ ref href _ _ => href

theorem Kept.build (h : Kept s) (request : Request) : Kept (s.build request).2 :=
  (shrinks_build h.toPlaced request).kept h
    ⟨h.apart.borrow.mono fun _ href => .inl href, h.nodup⟩

/-- The packet that `queueMsg` takes out of the pool. -/
theorem fresh_build (h : Placed s) (request : Request) :
    Fresh (s.build request).2 (s.build request).1 := by
  refine ⟨h.apart.borrow, h.apart.borrow_unused, ?_⟩
  have hself : (s.build request).2.packet (s.build request).1 =
    { s.packet (s.build request).1 with msg := request.msg, number := s.number } :=
      Function.update_self _ _ _
  rw [hself]
  rfl

theorem of_calls_callback {request : Request} (hpredict : request.opts.predictMessage = false)
    {other : Nat} (h : Calls request.callback other) :
    other = request.id ∧ request.live = true := by
  obtain ⟨func, hcallback⟩ := h
  unfold Request.callback at hcallback
  obtain ⟨given, hgiven, heq⟩ := Option.map_eq_some_iff.mp hcallback
  cases heq
  exact ⟨rfl, by simp [Request.live, hpredict, hgiven]⟩

theorem queueMsg_eq_enqueue {request : Request} (hpredict : request.opts.predictMessage = false) :
    s.queueMsg request =
      (s.build request).2.enqueue (s.build request).1 request request.callback := by
  simp [MsgEndpoint.queueMsg, hpredict]

theorem Kept.queueMsg (h : Kept s) {request : Request}
    (hpredict : request.opts.predictMessage = false) (hpredicted : s.predicted = [])
    (hunused : request.live = true → s.Unused request.id) : Kept (s.queueMsg request) := by
  rw [queueMsg_eq_enqueue hpredict]
  exact (h.build request).enqueue (fresh_build h.toPlaced request) hpredicted
    (fun hlive => (shrinks_build h.toPlaced request).unused (hunused hlive))
    fun other => of_calls_callback hpredict

theorem Kept.unused_queueMsg (h : Kept s) {request : Request}
    (hpredict : request.opts.predictMessage = false) {other : Nat} (hunused : s.Unused other)
    (hother : request.live = true → request.id ≠ other) : (s.queueMsg request).Unused other := by
  rw [queueMsg_eq_enqueue hpredict]
  exact (fresh_build h.toPlaced request).unused_enqueue
    ((shrinks_build h.toPlaced request).unused hunused)
    (fun called => of_calls_callback hpredict) hother

/-! ## Calls -/

/-- A callback runs that did not run before, and nothing holds it any more. -/
theorem Awaited.run (h : Awaited s) {request : Nat} {entry : Entry}
    {signals : Nat → Option Callback} (stack : List Frame)
    (hentry : ∀ other, isRun other entry = decide (request = other))
    (hunrun : s.log.countP (isRun request) = 0) (hmade : request < s.requests)
    (hanswered : ∀ n, entry = .responded request n → .queued n request ∈ s.log)
    (hsignals : ∀ m callback, signals m = some callback → s.signals m = some callback)
    (hawaits : ∀ n, ¬ { s with signals := signals }.Awaits n request)
    (haway : ∀ item ∈ s.waiting, item.request.id ≠ request) :
    Awaited { s with signals := signals, stack := stack, log := s.log ++ [entry] } := by
  have hcount : ∀ other, other ≠ request →
      (s.log ++ [entry]).countP (isRun other) = s.log.countP (isRun other) := by
    intro other hother
    simp [hentry, hother.symm]
  have hold : ∀ n other, { s with signals := signals }.Awaits n other →
      s.Awaits n other ∧ other ≠ request := by
    intro n other hawaited
    refine ⟨?_, ?_⟩
    · exact hawaited.imp (fun ⟨func, hsignal⟩ => ⟨func, hsignals n _ hsignal⟩) id
    · rintro rfl
      exact hawaits n hawaited
  constructor
  · intro other
    by_cases hother : other = request
    · subst hother
      simp [hentry, hunrun]
    · rw [hcount other hother]
      exact h.once other
  · intro other n hmem
    rcases List.mem_append.mp hmem with hbefore | hlast
    · exact List.mem_append_left _ (h.answered other n hbefore)
    · have heq := (List.mem_singleton.mp hlast).symm
      subst heq
      have hsame : request = other := by simpa [isRun] using (hentry other).symm
      subst hsame
      exact List.mem_append_left _ (hanswered n rfl)
  · intro other hran
    by_cases hother : other = request
    · exact hother ▸ hmade
    · rw [hcount other hother] at hran
      exact h.made other hran
  · exact fun n other hawaited => h.awaits_made n other (hold n other hawaited).1
  · exact fun n m other hn hm => h.awaits_one n m other (hold n other hn).1 (hold m other hm).1
  · intro n other hawaited
    obtain ⟨hbefore, hother⟩ := hold n other hawaited
    rw [hcount other hother]
    exact h.awaits_unrun n other hbefore
  · exact fun n other hawaited =>
      List.mem_append_left _ (h.awaits_queued n other (hold n other hawaited).1)
  · exact h.waiting_made
  · exact h.waiting_nodup
  · intro item hitem
    rw [hcount _ (haway item hitem)]
    exact h.waiting_unrun item hitem
  · exact fun item hitem n hawaited => h.waiting_awaits item hitem n (hold n _ hawaited).1
  · rintro item hitem ⟨func, hsignal⟩
    exact h.waiting_received item hitem ⟨func, hsignals _ _ hsignal⟩

/-- The callback is called with the predicted message. -/
theorem Kept.predict (h : Kept s) {ref : Nat} {request : Request} (hfresh : Fresh s ref)
    (hpredicted : s.predicted = []) (hpredict : request.opts.predictMessage = true)
    (hunused : s.Unused request.id) :
    Kept { s with
      stack := .predicting ref request :: s.stack
      log := s.log ++ [.predicted request.id] } := by
  have hnumbers : (s.log ++ [Entry.predicted request.id]).filterMap Entry.number =
      s.log.filterMap Entry.number := by
    simp [Entry.number]
  have hlent : (s.sendQueue ++ s.receiveQueue ++ ref :: s.predicted).Perm (ref :: s.lent) :=
    List.perm_middle
  refine ⟨⟨?_, ?_⟩, ⟨?_, ?_, h.packets_lt, h.packets_inj, h.signals_lt, h.unsent⟩,
    ⟨?_, ?_, ?_, ?_⟩, ?_⟩
  · refine hfresh.apart.mono fun other hother => ?_
    rcases List.mem_cons.mp (hlent.mem_iff.mp hother) with heq | hold
    · exact .inr heq
    · exact .inl hold
  · exact hlent.nodup_iff.mpr (List.nodup_cons.mpr ⟨hfresh.unlent, h.nodup⟩)
  · exact hnumbers ▸ h.increasing
  · exact hnumbers ▸ h.logged_lt
  · show (ref :: s.predicted).length ≤ 1
    rw [hpredicted]
    exact Nat.le_refl 1
  · intro packet other hmem
    rcases List.mem_cons.mp hmem with heq | hold
    · cases heq
      exact ⟨hfresh.number, by simp [Request.live, hpredict]⟩
    · exact h.predicting packet other hold
  · intro items link hmem
    rcases List.mem_cons.mp hmem with heq | hold
    · cases heq
    · exact h.resending items link hold
  · intro n hmem
    rcases List.mem_cons.mp hmem with heq | hold
    · cases heq
    · exact h.messaging n hold
  · exact h.toAwaited.run _ (fun _ => rfl) hunused.unrun hunused.made (fun _ heq => nomatch heq)
      (fun _ _ hsignal => hsignal) hunused.unawaited hunused.away

/-- The signal of all messages has been handled, and the callback is called. -/
theorem Kept.respond (h : Kept s) {n request func : Nat} {stack : List Frame}
    (hstack : s.stack = .messaging n :: stack)
    (hsignal : s.signals n = some (.onComplete request func)) :
    Kept { s.deleteSignal n with
      stack := .completing n :: stack
      log := s.log ++ [.responded request n] } := by
  have hawaited : s.Awaits n request := .inl ⟨func, hsignal⟩
  have hsub : ∀ m callback, Function.update s.signals n none m = some callback →
      m ≠ n ∧ s.signals m = some callback := fun _ _ => of_update_none
  have hnumbers : (s.log ++ [Entry.responded request n]).filterMap Entry.number =
      s.log.filterMap Entry.number := by
    simp [Entry.number]
  have hpredicted : stack.filterMap Frame.packet = s.predicted := by
    unfold MsgEndpoint.predicted
    rw [hstack]
    rfl
  have hlent : s.sendQueue ++ s.receiveQueue ++ stack.filterMap Frame.packet = s.lent := by
    rw [hpredicted]
    rfl
  have hmem : ∀ frame ∈ stack, frame ∈ s.stack := by
    intro frame hframe
    rw [hstack]
    exact List.mem_cons_of_mem _ hframe
  refine ⟨⟨?_, ?_⟩, ⟨hnumbers ▸ h.increasing, hnumbers ▸ h.logged_lt, h.packets_lt, h.packets_inj,
    ?_, ?_⟩, ⟨?_, ?_, ?_, ?_⟩, ?_⟩
  · exact h.apart.mono fun ref href => hlent ▸ href
  · show (s.sendQueue ++ s.receiveQueue ++ stack.filterMap Frame.packet).Nodup
    rw [hlent]
    exact h.nodup
  · exact fun m callback hcallback => h.signals_lt m callback (hsub m callback hcallback).2
  · intro ref href
    show Function.update s.signals n none (s.packet ref).number = none
    by_cases hn : (s.packet ref).number = n
    · rw [hn, Function.update_self]
    · rw [Function.update_of_ne hn]
      exact h.unsent ref href
  · show (stack.filterMap Frame.packet).length ≤ 1
    rw [hpredicted]
    exact h.single
  · intro ref other hframe
    rcases List.mem_cons.mp hframe with heq | hold
    · cases heq
    · exact h.predicting ref other (hmem _ hold)
  · intro items link hframe
    rcases List.mem_cons.mp hframe with heq | hold
    · cases heq
    · exact h.resending items link (hmem _ hold)
  · intro m hframe
    rcases List.mem_cons.mp hframe with heq | hold
    · cases heq
    · exact h.messaging m (hmem _ hold)
  · refine h.toAwaited.run _ (fun _ => rfl) (h.awaits_unrun n request hawaited)
      (h.awaits_made n request hawaited) ?_
      (fun m callback hcallback => (hsub m callback hcallback).2) ?_ ?_
    · rintro m heq
      cases heq
      exact h.awaits_queued n request hawaited
    · -- the signal was the only one that held the callback
      rintro m (⟨other, hcallback⟩ | ⟨ref, href, hnumber, hcalls⟩)
      · obtain ⟨hm, hold⟩ := hsub m _ hcallback
        exact hm (h.awaits_one m n request (.inl ⟨other, hold⟩) hawaited)
      · have hm := h.awaits_one m n request (.inr ⟨ref, href, hnumber, hcalls⟩) hawaited
        have hnone := h.unsent ref href
        rw [hnumber, hm, hsignal] at hnone
        cases hnone
    · -- an item would know of a packet that waits under the number
      rintro item hitem rfl
      have hitemNumber := h.waiting_awaits item hitem n hawaited
      subst hitemNumber
      obtain ⟨ref, href, hnumber⟩ := h.waiting_received item hitem ⟨func, hsignal⟩
      refine (h.messaging _ ?_).2 ⟨ref, List.mem_append_right _ href, hnumber⟩
      rw [hstack]
      exact List.mem_cons_self

/-! ## Resending -/

theorem Kept.clearResendQueue (h : Kept s) : Kept s.clearResendQueue := by
  refine Shrinks.kept ?_ h ⟨h.apart, h.nodup⟩
  exact shrinks_narrowed (fun _ _ hsignal => hsignal) (List.Sublist.refl _) (List.nil_sublist _)

/-- The items are resent one after the other. -/
theorem Kept.resend {items : List ResendItem} (h : Kept s) (link : Link)
    (hpredict : ∀ item ∈ items, item.request.opts.predictMessage = false)
    (hpredicted : items ≠ [] → s.predicted = [])
    (hunused : ∀ item ∈ items, item.request.live = true → s.Unused item.request.id)
    (hnodup : ((items.filter fun item => item.request.live).map
      fun item => item.request.id).Nodup) :
    Kept (MsgEndpoint.resend link items s) := by
  induction items generalizing s with
  | nil => exact h.flushSendQueue link
  | cons item items ih =>
      have hitem := hpredict item List.mem_cons_self
      have hnone : s.predicted = [] := hpredicted (List.cons_ne_nil _ _)
      unfold MsgEndpoint.resend
      rw [if_neg (by rw [hitem]; exact Bool.false_ne_true)]
      refine ih (h.queueMsg hitem hnone (hunused item List.mem_cons_self)) ?_ ?_ ?_ ?_
      · exact fun other hother => hpredict other (List.mem_cons_of_mem _ hother)
      · intro _
        rw [queueMsg_eq_enqueue hitem]
        exact hnone
      · intro other hother hlive
        refine h.unused_queueMsg hitem (hunused other (List.mem_cons_of_mem _ hother) hlive) ?_
        intro hlast heq
        rw [List.filter_cons_of_pos (by simpa using hlast), List.map_cons,
          List.nodup_cons] at hnodup
        exact hnodup.1 (List.mem_map.mpr ⟨other, List.mem_filter.mpr ⟨hother, hlive⟩, heq.symm⟩)
      · exact (((List.sublist_cons_self item items).filter _).map _).nodup hnodup

theorem Kept.flushResendQueue (h : Kept s) {filter : Nat → Nat → Bool} {link : Link}
    (hcareful : Careful s (.flushResendQueue filter link)) :
    Kept (s.flushResendQueue filter link) := by
  have hkept : ∀ item ∈ s.resendQueue.filter fun item => filter item.number item.request.t,
      item ∈ s.resendQueue ∧ s.predicted = [] ∧ s.Resendable item := by
    intro item hitem
    obtain ⟨hmem, hfilter⟩ := List.mem_filter.mp hitem
    exact ⟨hmem, hcareful item hmem hfilter⟩
  refine h.clearResendQueue.resend link (fun item hitem => (hkept item hitem).2.2.1) ?_ ?_ ?_
  · intro hne
    obtain ⟨item, hitem⟩ := List.exists_mem_of_ne_nil _ hne
    exact (hkept item hitem).2.1
  · intro item hitem hlive
    obtain ⟨hmem, -, -, hresendable⟩ := hkept item hitem
    have hwaiting : item ∈ s.waiting := List.mem_filter.mpr ⟨hmem, hlive⟩
    refine ⟨h.waiting_made item hwaiting, h.waiting_unrun item hwaiting, ?_,
      fun _ hin => nomatch hin⟩
    intro n hawaits
    have hawaits : s.Awaits n item.request.id := hawaits
    have hn := h.waiting_awaits item hwaiting n hawaits
    subst hn
    rcases hresendable with hnone | hwaits
    · simp [Request.live, hnone] at hlive
    · -- who is awaited has a packet that waits
      apply hwaits
      rcases hawaits with hsignal | ⟨ref, href, hnumber, -⟩
      · obtain ⟨ref, href, hnumber⟩ := h.waiting_received item hwaiting hsignal
        exact ⟨ref, List.mem_append_right _ href, hnumber⟩
      · exact ⟨ref, List.mem_append_left _ href, hnumber⟩
  · exact ((List.filter_sublist.filter _).map _).nodup h.waiting_nodup

/-! ## Interruptions -/

/-- Interrupted functions may be given up. -/
theorem Kept.giveUp (h : Kept s) {stack : List Frame} (hstack : stack.Sublist s.stack) :
    Kept { s with stack := stack } := by
  have hlent : (s.sendQueue ++ s.receiveQueue ++ stack.filterMap Frame.packet).Sublist s.lent :=
    (List.Sublist.refl _).append (hstack.filterMap _)
  refine Shrinks.kept ?_ h ⟨h.apart.mono fun ref href => hlent.subset href, hlent.nodup h.nodup⟩
  exact shrinks_narrowed (fun _ _ hsignal => hsignal) hstack (List.Sublist.refl _)

theorem Kept.deleteSignal (h : Kept s) {n : Nat} : Kept (s.deleteSignal n) := by
  refine Shrinks.kept ?_ h ⟨h.apart, h.nodup⟩
  exact shrinks_narrowed (fun _ _ hsignal => (of_update_none hsignal).2) (List.Sublist.refl _)
    (List.Sublist.refl _)

/-- The prediction has been handled, and its packet is queued. -/
theorem Kept.resume_predicting (h : Kept s) {ref : Nat} {request : Request} {stack : List Frame}
    (hstack : s.stack = .predicting ref request :: stack) :
    Kept ({ s with stack := stack }.enqueue ref request (some .queueMsgComplete)) := by
  obtain ⟨hnumber, hlive⟩ := h.predicting ref request (by rw [hstack]; exact List.mem_cons_self)
  have hpredicted : s.predicted = ref :: stack.filterMap Frame.packet := by
    unfold MsgEndpoint.predicted
    rw [hstack]
    rfl
  have hlent : (s.sendQueue ++ s.receiveQueue ++ ref :: stack.filterMap Frame.packet) = s.lent := by
    rw [← hpredicted]
    rfl
  have hperm : (ref :: (s.sendQueue ++ s.receiveQueue ++ stack.filterMap Frame.packet)).Perm
      s.lent := by
    rw [← hlent]
    exact List.perm_middle.symm
  have hrest : stack.Sublist s.stack := by
    rw [hstack]
    exact List.sublist_cons_self _ _
  refine (h.giveUp hrest).enqueue ⟨?_, ?_, hnumber⟩ ?_ ?_ ?_
  · refine h.apart.mono fun other hother => hperm.mem_iff.mp ?_
    rcases hother with hold | rfl
    · exact List.mem_cons_of_mem _ hold
    · exact List.mem_cons_self
  · exact (List.nodup_cons.mp (hperm.nodup_iff.mpr h.nodup)).1
  · have hsingle := h.single
    rw [hpredicted, List.length_cons] at hsingle
    have hzero : (stack.filterMap Frame.packet).length = 0 := by omega
    exact List.length_eq_zero_iff.mp hzero
  · intro htrue
    rw [hlive] at htrue
    cases htrue
  · rintro other ⟨func, hcallback⟩
    cases hcallback

theorem Kept.resume (h : Kept s) (hnext : s.resume = some next) : Kept next := by
  unfold MsgEndpoint.resume at hnext
  have hrest : ∀ frame stack, s.stack = frame :: stack → stack.Sublist s.stack := by
    intro frame stack hstack
    rw [hstack]
    exact List.sublist_cons_self _ _
  split at hnext
  · cases hnext
  · next ref request stack hstack =>
    cases hnext
    exact h.resume_predicting hstack
  · next items link stack hstack =>
    refine absurd ?_ (h.resending items link)
    rw [hstack]
    exact List.mem_cons_self
  · next n stack hstack =>
    split at hnext
    · next request func hsignal =>
      cases hnext
      exact h.respond hstack hsignal
    · cases hnext
      exact (h.giveUp (hrest _ _ hstack)).deleteSignal
  · next n stack hstack =>
    cases hnext
    exact (h.giveUp (hrest _ _ hstack)).deleteSignal

/-! ## Runs -/

/-- A new request is one that nothing knows of. -/
theorem Awaited.unused_new (h : Awaited s) :
    { s with requests := s.requests + 1 }.Unused s.requests where
  made := Nat.lt_succ_self _
  unrun := by
    by_contra hran
    exact Nat.lt_irrefl _ (h.made s.requests hran)
  unawaited := fun n hawaits => Nat.lt_irrefl _ (h.awaits_made n s.requests hawaits)
  away := by
    intro item hitem heq
    have hlt := h.waiting_made item hitem
    omega

theorem Kept.queueMsg_new (h : Kept s) (hpredicted : s.predicted = []) (t msg : Nat)
    (onComplete : Option Nat) (opts : Opts) :
    Kept ({ s with requests := s.requests + 1 }.queueMsg
      ⟨s.requests, t, msg, onComplete, opts⟩) := by
  have hmade : Kept { s with requests := s.requests + 1 } := by
    refine Shrinks.kept ?_ h ⟨h.apart, h.nodup⟩
    exact ⟨rfl, Nat.le_succ _, rfl, fun _ _ => rfl, fun _ href => href, fun _ href => ⟨href, rfl⟩,
      fun _ _ hsignal => .inl hsignal, List.Sublist.refl _, List.Sublist.refl _,
      fun _ _ _ href _ _ => href⟩
  have hunused := h.toAwaited.unused_new
  cases hpredict : opts.predictMessage with
  | false => exact hmade.queueMsg hpredict hpredicted fun _ => hunused
  | true =>
      unfold MsgEndpoint.queueMsg
      dsimp only
      rw [if_pos hpredict]
      cases onComplete with
      | none => exact hmade.build _
      | some func =>
          exact (hmade.build _).predict (fresh_build hmade.toPlaced _) hpredicted hpredict
            ((shrinks_build hmade.toPlaced _).unused hunused)

theorem kept_step {event : Event} (h : Kept s) (hcareful : Careful s event)
    (hstep : step s event = some next) : Kept next := by
  cases event with
  | queueMsg t msg onComplete opts =>
      cases hstep
      exact h.queueMsg_new hcareful t msg onComplete opts
  | flushSendQueue link =>
      cases hstep
      exact h.flushSendQueue link
  | flushResendQueue filter link =>
      cases hstep
      exact h.flushResendQueue hcareful
  | onPacketReceived n =>
      cases hstep
      exact h.onPacketReceived n
  | removeFromReceiveQueue n =>
      cases hstep
      exact h.removeFromReceiveQueue n
  | clearSendQueue =>
      cases hstep
      exact h.clearSendQueue
  | clearReceiveQueue =>
      cases hstep
      exact h.clearReceiveQueue
  | clearResendQueue =>
      cases hstep
      exact h.clearResendQueue
  | resume => exact h.resume hstep
  | raise frames =>
      cases hstep
      exact h.giveUp (List.drop_sublist _ _)

/-- In a careful run every packet is in one place, the numbers increase, and a
callback runs once at most. -/
theorem orderly_of_careful {events : List Event} {s : MsgEndpoint}
    (hrun : Run step Careful .initQueue events s) : Orderly s :=
  (hrun.invariant kept_initQueue fun _ _ _ => kept_step).orderly

/-- Requests that wait for a response, that are resent after the connection was
lost, and that are predicted.  The responses come in another order, one of them
twice and one for a packet that was given up. -/
def carefulRun : List Event :=
  [.queueMsg 1 10 (some 5) ⟨false, true⟩, .queueMsg 2 20 (some 6) ⟨false, false⟩,
    .queueMsg 3 30 (some 7) ⟨true, true⟩, .resume, .flushSendQueue .sent,
    .onPacketReceived 2, .resume, .resume, .onPacketReceived 2, .clearReceiveQueue,
    .onPacketReceived 1, .flushResendQueue (fun n _ => n == 1) .sent, .onPacketReceived 4,
    .resume, .queueMsg 4 40 none ⟨false, true⟩, .flushSendQueue .sent, .resume,
    .removeFromReceiveQueue 5, .flushSendQueue .closed]

theorem orderly_carefulRun :
    Orderly ((exec step Careful .initQueue carefulRun).getD .initQueue) := by
  have hrun : Run step Careful .initQueue carefulRun
      ((exec step Careful .initQueue carefulRun).getD .initQueue) :=
    run_exec_getD MsgEndpoint.initQueue (by decide +kernel)
  exact orderly_of_careful hrun

/-- A predicted request is resent, and predicted again. -/
def predictedTwice : List Event :=
  [.queueMsg 1 10 (some 5) ⟨true, true⟩, .resume, .flushSendQueue .sent, .clearReceiveQueue,
    .flushResendQueue (fun _ _ => true) .sent]

/-- Without the condition a callback runs twice. -/
theorem not_orderly_predictedTwice :
    ¬ ∀ (events : List Event) (s : MsgEndpoint),
      Run step free .initQueue events s → Orderly s := by
  intro h
  have hrun : Run step free .initQueue predictedTwice
      ((exec step free .initQueue predictedTwice).getD .initQueue) :=
    run_exec_getD MsgEndpoint.initQueue (by decide +kernel)
  have htwice : ((exec step free .initQueue predictedTwice).getD .initQueue).log.countP (isRun 0) =
      2 := by
    decide +kernel
  have honce := (h _ _ hrun).once 0
  omega

end Client
end ArmyRs
