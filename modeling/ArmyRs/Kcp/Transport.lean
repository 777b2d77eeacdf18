import ArmyRs.Foundation.Transition
import ArmyRs.Kcp.Messages

/-!
# The transport

Two ends and the network between them.  The network keeps every datagram, and an end may
read any datagram of the other at any time, so that datagrams are lost, repeated and
reordered at will.  Each end may be called in any order: it sends and receives messages,
reads datagrams, flushes, and changes its settings.

The messages handed out at one end are the first ones accepted at the other, in the same
order (`given_isPrefix`).  When an end has nothing left to send and the other has no
message to hand out, all of them have been handed out (`given_eq_accepted`).

Sequence numbers have 32 bits and a network like this one may bring back a segment whose
number is used again, so an end sends at most `2 ^ 30` segments.
-/

namespace ArmyRs
namespace Kcp

open Foundation

/-! ## The model -/

/-- An end, with what its user has sent and been given, and the datagrams it has output. -/
structure End where
  kcp : Ikcpcb
  accepted : List (List UInt8)
  given : List (List UInt8)
  output : List (List UInt8)

/-- What may be done at an end. -/
inductive Call
  | send (buffer : List UInt8)
  | recv (len : ℤ)
  | input (data : List UInt8)
  | update (current : BitVec 32)
  | flush
  | wndsize (sndwnd rcvwnd : BitVec 32)
  | nodelay (nodelay interval resend nc : BitVec 32)

/-- The mtu is set when the connection is made. -/
def End.create (conv mtu : BitVec 32) : End := ⟨(ikcpSetmtu (ikcpCreate conv) mtu).2, [], [], []⟩

def End.send (e : End) (buffer : List UInt8) : End :=
  let (code, kcp) := ikcpSend e.kcp buffer
  { e with kcp, accepted := if code < 0 then e.accepted else e.accepted ++ [buffer] }

/-- A message that was only looked at is not given. -/
def End.recv (e : End) (len : ℤ) : End :=
  let (code, data, kcp) := ikcpRecv e.kcp len
  { e with kcp, given := if code < 0 ∨ len < 0 then e.given else e.given ++ [data] }

/-- The datagrams go to the network. -/
def End.emit (e : End) (answer : Ikcpcb × List (List UInt8)) : End :=
  { e with kcp := answer.1, output := e.output ++ answer.2 }

def End.call (e : End) : Call → End
  | .send buffer => e.send buffer
  | .recv len => e.recv len
  | .input data => { e with kcp := (ikcpInput e.kcp data).2 }
  | .update current => e.emit (ikcpUpdate e.kcp current)
  | .flush => e.emit (ikcpFlush e.kcp)
  | .wndsize sndwnd rcvwnd => { e with kcp := ikcpWndsize e.kcp sndwnd rcvwnd }
  | .nodelay nodelay interval resend nc =>
      { e with kcp := ikcpNodelay e.kcp nodelay interval resend nc }

/-- The datagrams that may arrive are those that the other end has output. -/
def possible (ends : Bool → End) (side : Bool) : Call → Bool
  | .input data => (ends (!side)).output.contains data
  | _ => true

def step (ends : Bool → End) (event : Bool × Call) : Option (Bool → End) :=
  if possible ends event.1 event.2 then
    some (Function.update ends event.1 ((ends event.1).call event.2))
  else none

def start (conv : BitVec 32) (mtu : Bool → BitVec 32) (side : Bool) : End :=
  End.create conv (mtu side)

/-- The segments of a message, as this end cuts it. -/
def End.segmentsOf (e : End) (buffer : List UInt8) : ℕ :=
  fragmentCount e.kcp.mss.toNat buffer.length

/-- The sequence numbers do not run out. -/
def End.withinNumbers (e : End) : Call → Prop
  | .send buffer => e.kcp.sndNxt.toNat + e.kcp.sndQueue.length + e.segmentsOf buffer ≤ 2 ^ 30
  | .wndsize _ rcvwnd => rcvwnd.toInt ≤ 2 ^ 30
  | _ => True

/-- A message fits the window of the other end, which has been set before. -/
def End.withinWindow (e other : End) : Call → Prop
  | .send buffer => e.segmentsOf buffer ≤ other.kcp.rcvWnd.toNat
  | .wndsize _ _ => other.accepted = []
  | _ => True

def bounded (ends : Bool → End) (event : Bool × Call) : Prop :=
  (ends event.1).withinNumbers event.2

def roomy (ends : Bool → End) (event : Bool × Call) : Prop :=
  bounded ends event ∧ (ends event.1).withinWindow (ends (!event.1)) event.2

instance (e : End) (call : Call) : Decidable (e.withinNumbers call) := by
  cases call <;> unfold End.withinNumbers <;> infer_instance

instance (e other : End) (call : Call) : Decidable (e.withinWindow other call) := by
  cases call <;> unfold End.withinWindow <;> infer_instance

instance (ends : Bool → End) (event : Bool × Call) : Decidable (bounded ends event) :=
  inferInstanceAs (Decidable (End.withinNumbers _ _))

instance (ends : Bool → End) (event : Bool × Call) : Decidable (roomy ends event) :=
  inferInstanceAs (Decidable (_ ∧ _))

/-! ## The invariant -/

/-- An end between its channels; `others` are the messages accepted at the other end. -/
structure EndCorrect (agreed : BitVec 32 × BitVec 32) (mss : ℕ) (others : List (List UInt8))
    (e : End) (out inc : Channel Item) : Prop where
  connected : Connected e.kcp out inc (items agreed.2.toNat e.accepted) (items mss e.given)
  output : ∀ data ∈ e.output, Carried agreed.1 out inc data
  chosen : e.kcp.chosen = agreed
  given : e.given <+: others
  few : ∀ message ∈ e.accepted, fragmentCount agreed.2.toNat message.length ≤ 255

section

variable {agreed : BitVec 32 × BitVec 32} {mss : ℕ} {others : List (List UInt8)} {e : End}
  {out inc out' inc' : Channel Item}

theorem Advances.refl : Advances out inc out inc := ⟨.refl, .refl⟩

/-- What was output before stays true of later channels. -/
theorem Advances.carried {conv : BitVec 32} (h : Advances out inc out' inc') {data : List UInt8}
    (hdata : Carried conv out inc data) : Carried conv out' inc' data :=
  hdata.mono h.out.frame.1 h.inc.frame.2.2.1 h.inc.frame.2.2.2

/-- The other end sees the same channels from its side. -/
theorem EndCorrect.other (h : EndCorrect agreed mss others e inc out)
    (hadvances : Advances out inc out' inc') (hshort : out'.log.length ≤ 2 ^ 30)
    {others' : List (List UInt8)} (hothers : others <+: others') :
    EndCorrect agreed mss others' e inc' out' where
  connected :=
    ⟨h.connected.sending.receiverReaches hadvances.inc,
      h.connected.receiving.senderReaches h.connected.inc_sound hadvances.out,
      h.connected.out_sound.receiverReaches hadvances.inc,
      h.connected.inc_sound.senderReaches hadvances.out, hshort⟩
  output := fun data hdata => by
    obtain ⟨hlog, hreceived, hpassed⟩ := hadvances.out.frame
    exact (h.output data hdata).mono (hadvances.inc.frame.1 ▸ List.prefix_refl _)
      hreceived.ge hpassed.ge
  chosen := h.chosen
  given := h.given.trans hothers
  few := h.few

/-! ## One call -/

/-- What a call does to the channels of an end, unless it sets the window. -/
def Keeps (agreed : BitVec 32 × BitVec 32) (mss : ℕ) (others : List (List UInt8)) (e e' : End)
    (out inc : Channel Item) : Prop :=
  ∃ out' inc', Advances out inc out' inc' ∧ EndCorrect agreed mss others e' out' inc' ∧
    ∀ wnd, Settled wnd e.kcp.recvView → Settled wnd e'.kcp.recvView

/-- A message is queued, segment by segment. -/
theorem Sending.send {kcp : Ikcpcb} {sent : List Item} (h : Sending kcp.sendView out sent)
    {buffer : List UInt8}
    (hshort : kcp.sndNxt.toNat + kcp.sndQueue.length +
      fragmentCount kcp.mss.toNat buffer.length ≤ 2 ^ 30) :
    Sending
      { kcp.sendView with
        queue := kcp.sndQueue ++
          fragments kcp.mss.toNat (fragmentCount kcp.mss.toNat buffer.length) buffer }
      out (sent ++ fragmentItems kcp.mss.toNat buffer) := by
  have hnxt : kcp.sndNxt.toNat = out.log.length := h.nxt
  refine ⟨?_, h.nxt, ?_, h.held, h.item, h.push, ?_⟩
  · rw [← h.stream, List.map_append, ← List.append_assoc]
    rfl
  · rw [List.length_append, length_fragments]
    omega
  · intro seg hseg
    rcases List.mem_append.mp hseg with hqueue | hbuf
    · rcases List.mem_append.mp hqueue with hold | hnew
      · exact h.fits seg (List.mem_append_left _ hold)
      · exact (length_data_of_mem_fragments hnew).trans_lt kcp.mss.isLt
    · exact h.fits seg (List.mem_append_right _ hbuf)

theorem EndCorrect.send (h : EndCorrect agreed mss others e out inc) {buffer : List UInt8}
    (hnumbers : e.withinNumbers (.send buffer)) :
    Keeps agreed mss others e (e.send buffer) out inc := by
  have hmss : e.kcp.mss = agreed.2 := congrArg Prod.snd h.chosen
  refine ⟨out, inc, .refl, ?_⟩
  unfold End.send ikcpSend
  dsimp only
  split
  · exact ⟨h, fun _ => id⟩
  · next hcount =>
    have hsending := h.connected.sending.send hnumbers
    rw [hmss] at hsending hcount
    refine ⟨⟨⟨?_, h.connected.receiving, h.connected.out_sound, h.connected.inc_sound,
      h.connected.inc_short⟩, h.output, h.chosen, h.given, ?_⟩, fun _ => id⟩
    · rw [if_neg (lt_irrefl _), items_concat]
      dsimp only
      rw [hmss]
      unfold Ikcpcb.sendView at hsending ⊢
      rwa [hmss] at hsending
    · dsimp only
      rw [if_neg (lt_irrefl _)]
      intro message hmessage
      rcases List.mem_append.mp hmessage with hold | hnew
      · exact h.few message hold
      · rw [List.mem_singleton.mp hnew]
        exact not_lt.mp hcount

/-- The items that are queued are a beginning of what the other end has still to give. -/
theorem EndCorrect.queue_isPrefix (h : EndCorrect agreed mss others e out inc)
    (hlog : inc.log <+: items mss others) {rest : List (List UInt8)}
    (hrest : e.given ++ rest = others) : e.kcp.rcvQueue.map IKCPSEG.item <+: items mss rest := by
  have hqueued : items mss e.given ++ e.kcp.rcvQueue.map IKCPSEG.item <+: items mss others := by
    have hitems : items mss e.given ++ e.kcp.rcvQueue.map IKCPSEG.item = inc.passedItems :=
      h.connected.receiving.queued
    rw [hitems]
    exact (Channel.passed_isPrefix inc).trans hlog
  rw [← hrest, items, items, List.flatMap_append] at hqueued
  exact (List.prefix_append_right_inj _).mp hqueued

/-- The rest of the queue, when the items taken from it count as consumed. -/
theorem Receiving.consume {v : RecvView} {c : Channel Item} {consumed more : List Item}
    {queue : List IKCPSEG} (h : Receiving v c consumed)
    (hqueue : more ++ queue.map IKCPSEG.item = v.queue.map IKCPSEG.item) :
    Receiving { v with queue } c (consumed ++ more) := by
  refine ⟨h.nxt, ?_, h.item, h.received, h.early, h.ascending, h.ahead, h.acks, h.window⟩
  rw [List.append_assoc, hqueue]
  exact h.queued

@[simp] theorem sendView_afterRecv (kcp : Ikcpcb) (len : ℤ) :
    (afterRecv kcp len).sendView = kcp.sendView := by
  rw [afterRecv, sendView_moveAvailable, withoutFirst]
  split <;> rfl

/-- Handing out a message, or looking at it, lets segments move on. -/
theorem EndCorrect.recv (h : EndCorrect agreed mss others e out inc) (hmss : 0 < mss)
    (hlog : inc.log <+: items mss others)
    (hfew : ∀ message ∈ others, fragmentCount mss message.length ≤ 255) (len : ℤ) :
    Keeps agreed mss others e (e.recv len) out inc := by
  unfold End.recv
  rcases ikcpRecv_cases e.kcp len with ⟨hfail, hsame⟩ | ⟨hsize, -, hcode, hdata, hsend, hrecv⟩
  · -- no message, or no room for it in the buffer: nothing changes
    refine ⟨out, inc, .refl, ?_⟩
    generalize ikcpRecv e.kcp len = answer at hfail hsame
    obtain ⟨code, data, kcp⟩ := answer
    dsimp only at hfail hsame ⊢
    rw [if_pos (Or.inl hfail), hsame]
    exact ⟨h, fun _ => id⟩
  · obtain ⟨seg, hseg, hall⟩ := ikcpPeeksize_nonneg_iff.mp hsize
    obtain ⟨rest, hrest⟩ := h.given
    obtain ⟨message, more, rfl, hmerged, hqueue⟩ :=
      exists_first_message hmss (fun m hm => hfew m (hrest ▸ List.mem_append_right _ hm))
        (h.queue_isPrefix hlog hrest) hseg hall
    generalize ikcpRecv e.kcp len = answer at hcode hdata hsend hrecv
    obtain ⟨code, data, kcp⟩ := answer
    dsimp only at hcode hdata hsend hrecv ⊢
    rw [hmerged] at hcode hdata
    have hpos : ¬ code < 0 := by omega
    -- a look leaves the message in the queue
    have hreceiving : Receiving { (withoutFirst e.kcp len).recvView with buf := e.kcp.rcvBuf } inc
        (items mss (if code < 0 ∨ len < 0 then e.given else e.given ++ [data])) := by
      unfold withoutFirst
      by_cases hlook : len < 0
      · rw [if_pos hlook, if_pos (Or.inr hlook)]
        exact h.connected.receiving
      · rw [if_neg hlook, if_neg (not_or.mpr ⟨hpos, hlook⟩), items_concat, hdata]
        exact h.connected.receiving.consume hqueue
    obtain ⟨inc', hreach, hend, hsettled⟩ :=
      Receiving.moveAvailable h.connected.inc_sound h.connected.inc_short hreceiving
    rw [rcvWnd_withoutFirst] at hsettled
    refine ⟨out, inc', ⟨.refl, hreach⟩, ⟨⟨?_, ?_, h.connected.out_sound,
      h.connected.inc_sound.receiverReaches hreach, hreach.frame.1 ▸ h.connected.inc_short⟩, ?_, ?_,
      ?_, h.few⟩, fun wnd hbefore => ?_⟩
    · rw [hsend, sendView_afterRecv]
      exact h.connected.sending
    · rw [hrecv]
      exact hend
    · have hadvances : Advances out inc out inc' := ⟨.refl, hreach⟩
      exact fun data hdata => hadvances.carried (h.output data hdata)
    · exact (chosen_of_sendView (hsend.trans (sendView_afterRecv _ _))).trans h.chosen
    · dsimp only
      split
      · exact h.given
      · rw [← hrest, hdata]
        exact ⟨more, by rw [List.append_assoc]; rfl⟩
    · have hwnd : wnd = e.kcp.rcvWnd := hbefore.1.symm
      rw [hrecv, hwnd]
      exact hsettled

/-- A datagram of the other end is read. -/
theorem EndCorrect.input (h : EndCorrect agreed mss others e out inc) {data : List UInt8}
    (hdata : Carried agreed.1 inc out data) :
    Keeps agreed mss others e { e with kcp := (ikcpInput e.kcp data).2 } out inc := by
  have hconv : e.kcp.conv = agreed.1 := congrArg Prod.fst h.chosen
  obtain ⟨out', inc', hadvances, hconnected, hsettled⟩ := h.connected.input (hconv ▸ hdata)
  exact ⟨out', inc', hadvances, ⟨hconnected,
    fun old hold => hadvances.carried (h.output old hold),
    (chosen_ikcpInput _ _).trans h.chosen, h.given, h.few⟩, hsettled⟩

theorem chosen_ikcpFlush (kcp : Ikcpcb) : (ikcpFlush kcp).1.chosen = kcp.chosen := by
  have hnumbered : ∀ (wnd : BitVec 16) (cwnd : BitVec 32) (queue : List IKCPSEG) (kcp : Ikcpcb),
      (numberSegments wnd cwnd queue kcp).chosen = kcp.chosen := by
    intro wnd cwnd queue
    induction queue with
    | nil => exact fun _ => rfl
    | cons newseg rest ih =>
        intro kcp
        unfold numberSegments
        split
        · exact ih _
        · rfl
  unfold ikcpFlush
  split
  · rfl
  · have hcontrol : (flushControl kcp).1.chosen = kcp.chosen :=
      chosen_of_sendView (sendView_flushControl kcp)
    have hwritten : ∀ (kcp : Ikcpcb) (cwnd : BitVec 32) (wnd : BitVec 16) (w : Writer),
        (writeSegments kcp cwnd wnd w).1.chosen = kcp.chosen := by
      intro kcp cwnd wnd w
      unfold writeSegments
      dsimp only
      rw [chosen_of_sendView (sendView_updateSsthresh _ _ _ _)]
      rfl
    dsimp only
    rw [hwritten, hnumbered, hcontrol]

/-- An end whose clock or settings have changed. -/
theorem EndCorrect.congr (h : EndCorrect agreed mss others e out inc) {kcp : Ikcpcb}
    (hsend : kcp.sendView = e.kcp.sendView) (hrecv : kcp.recvView = e.kcp.recvView) :
    EndCorrect agreed mss others { e with kcp } out inc where
  connected := h.connected.of_sending .refl (hsend ▸ h.connected.sending) hrecv
  output := h.output
  chosen := (chosen_of_sendView hsend).trans h.chosen
  given := h.given
  few := h.few

theorem EndCorrect.flush (h : EndCorrect agreed mss others e out inc) :
    Keeps agreed mss others e (e.emit (ikcpFlush e.kcp)) out inc := by
  have hconv : e.kcp.conv = agreed.1 := congrArg Prod.fst h.chosen
  have hreceiving := h.connected.receiving
  obtain ⟨out', hreach, hsending, houtput⟩ :=
    h.connected.sending.flush hreceiving.acks hreceiving.nxt.le
  have hadvances : Advances out inc out' inc := ⟨hreach, .refl⟩
  refine ⟨out', inc, hadvances, ⟨⟨hsending, ?_, h.connected.out_sound.senderReaches hreach,
    h.connected.inc_sound, h.connected.inc_short⟩, ?_, (chosen_ikcpFlush _).trans h.chosen, h.given,
    h.few⟩, ?_⟩
  · show Receiving (ikcpFlush e.kcp).1.recvView inc _
    rw [recvView_ikcpFlush]
    split
    · exact hreceiving
    · exact hreceiving.flushed
  · intro data hdata
    rcases List.mem_append.mp hdata with hold | hnew
    · exact hadvances.carried (h.output data hold)
    · exact hconv ▸ houtput data hnew
  · show ∀ wnd, _ → Settled wnd (ikcpFlush e.kcp).1.recvView
    rw [recvView_ikcpFlush]
    exact fun _ => id

@[simp] theorem sendView_setClock (kcp : Ikcpcb) (current : BitVec 32) :
    (setClock kcp current).sendView = kcp.sendView := by
  unfold setClock
  dsimp only
  split_ifs <;> simp only [Ikcpcb.sendView]

@[simp] theorem recvView_setClock (kcp : Ikcpcb) (current : BitVec 32) :
    (setClock kcp current).recvView = kcp.recvView := by
  unfold setClock
  dsimp only
  split_ifs <;> simp only [Ikcpcb.recvView]

/-- An update sets the clock, and flushes when it is time. -/
theorem ikcpUpdate_cases (kcp : Ikcpcb) (current : BitVec 32) :
    ∃ ticked : Ikcpcb, ticked.sendView = kcp.sendView ∧ ticked.recvView = kcp.recvView ∧
      (ikcpUpdate kcp current = ikcpFlush ticked ∨ ikcpUpdate kcp current = (ticked, [])) := by
  unfold ikcpUpdate
  dsimp only
  split
  · exact ⟨nextFlush (setClock kcp current), sendView_setClock kcp current,
      recvView_setClock kcp current, Or.inl rfl⟩
  · exact ⟨setClock kcp current, sendView_setClock kcp current, recvView_setClock kcp current,
      Or.inr rfl⟩

theorem EndCorrect.update (h : EndCorrect agreed mss others e out inc) (current : BitVec 32) :
    Keeps agreed mss others e (e.emit (ikcpUpdate e.kcp current)) out inc := by
  obtain ⟨ticked, hsend, hrecv, hcases⟩ := ikcpUpdate_cases e.kcp current
  have hticked : EndCorrect agreed mss others { e with kcp := ticked } out inc :=
    h.congr hsend hrecv
  rcases hcases with hflush | hwait
  · rw [hflush]
    obtain ⟨out', inc', hadvances, hend, hsettled⟩ := hticked.flush
    exact ⟨out', inc', hadvances, hend, fun wnd hbefore => hsettled wnd (hrecv.symm ▸ hbefore)⟩
  · rw [hwait]
    refine ⟨out, inc, .refl, ?_, fun _ hbefore => hrecv.symm ▸ hbefore⟩
    unfold End.emit
    rw [List.append_nil]
    exact hticked

theorem EndCorrect.nodelay (h : EndCorrect agreed mss others e out inc)
    (nodelay interval resend nc : BitVec 32) :
    Keeps agreed mss others e
      { e with kcp := ikcpNodelay e.kcp nodelay interval resend nc } out inc := by
  refine ⟨out, inc, .refl, h.congr (sendView_ikcpNodelay _ _ _ _ _)
    (recvView_ikcpNodelay _ _ _ _ _), ?_⟩
  show ∀ wnd, _ → Settled wnd (ikcpNodelay e.kcp nodelay interval resend nc).recvView
  rw [recvView_ikcpNodelay]
  exact fun _ => id

theorem EndCorrect.wndsize (h : EndCorrect agreed mss others e out inc)
    {sndwnd rcvwnd : BitVec 32} (hnumbers : e.withinNumbers (.wndsize sndwnd rcvwnd)) :
    EndCorrect agreed mss others { e with kcp := ikcpWndsize e.kcp sndwnd rcvwnd } out inc := by
  have hreceiving := h.connected.receiving
  refine ⟨⟨?_, ?_, h.connected.out_sound, h.connected.inc_sound, h.connected.inc_short⟩, h.output,
    (chosen_of_sendView (sendView_ikcpWndsize _ _ _)).trans h.chosen, h.given, h.few⟩
  · rw [sendView_ikcpWndsize]
    exact h.connected.sending
  · rw [recvView_ikcpWndsize]
    refine ⟨hreceiving.nxt, hreceiving.queued, hreceiving.item, hreceiving.received,
      hreceiving.early, hreceiving.ascending, hreceiving.ahead, hreceiving.acks, ?_⟩
    have hbound : rcvwnd.toInt ≤ 2 ^ 30 := hnumbers
    dsimp only
    split
    · next hpos =>
      rw [BitVec.toInt_eq_toNat_cond] at hbound hpos
      split at hbound <;> omega
    · exact hreceiving.window

end

/-! ## Both ends -/

/-- Each end is correct between the two channels. -/
def Linked (conv : BitVec 32) (mss : Bool → BitVec 32) (ends : Bool → End)
    (c : Bool → Channel Item) : Prop :=
  ∀ side, EndCorrect (conv, mss side) (mss (!side)).toNat (ends (!side)).accepted (ends side)
    (c side) (c (!side))

section

variable {conv : BitVec 32} {mss : Bool → BitVec 32} {ends next : Bool → End}
  {c : Bool → Channel Item}

/-- The log of an end is a beginning of what it has accepted. -/
theorem Linked.log_isPrefix (h : Linked conv mss ends c) (side : Bool) :
    (c side).log <+: items (mss side).toNat (ends side).accepted :=
  ⟨_, (h side).connected.sending.stream⟩

/-- A call at one end; the other sees only the channels change. -/
theorem Linked.replace (h : Linked conv mss ends c) (side : Bool) {e : End}
    {out inc : Channel Item} (hadvances : Advances (c side) (c (!side)) out inc)
    (he : EndCorrect (conv, mss side) (mss (!side)).toNat (ends (!side)).accepted e out inc)
    (haccepted : (ends side).accepted <+: e.accepted) :
    ∃ c', Linked conv mss (Function.update ends side e) c' := by
  have hne : (!side) ≠ side := Bool.not_ne_self side
  have hother := h (!side)
  rw [Bool.not_not] at hother
  refine ⟨fun s => if s = side then out else inc, ?_⟩
  intro s
  rcases Bool.eq_or_eq_not s side with rfl | rfl
  · rw [Function.update_self, Function.update_of_ne hne]
    dsimp only
    rw [if_pos rfl, if_neg hne]
    exact he
  · rw [Bool.not_not, Function.update_self, Function.update_of_ne hne]
    dsimp only
    rw [if_pos rfl, if_neg hne]
    exact hother.other hadvances he.connected.sending.length_log haccepted

theorem accepted_call (e : End) (call : Call) : e.accepted <+: (e.call call).accepted := by
  cases call with
  | send buffer =>
      show _ <+: (if _ then e.accepted else e.accepted ++ [buffer])
      split
      · exact List.prefix_refl _
      · exact List.prefix_append _ _
  | recv | input | update | flush | wndsize | nodelay => exact List.prefix_refl _

/-- A call of an end, unless it sets the window. -/
theorem Linked.keeps (h : Linked conv mss ends c) (hmss : ∀ side, 0 < (mss side).toNat)
    (side : Bool) {call : Call} (hnumbers : (ends side).withinNumbers call)
    (hpossible : possible ends side call = true)
    (hcall : ∀ sndwnd rcvwnd, call ≠ .wndsize sndwnd rcvwnd) :
    Keeps (conv, mss side) (mss (!side)).toNat (ends (!side)).accepted (ends side)
      ((ends side).call call) (c side) (c (!side)) := by
  have hother := h (!side)
  rw [Bool.not_not] at hother
  cases call with
  | send buffer => exact (h side).send hnumbers
  | recv len => exact (h side).recv (hmss _) (h.log_isPrefix _) hother.few len
  | input data =>
      have hmem : data ∈ (ends (!side)).output := List.contains_iff_mem.mp hpossible
      exact (h side).input (hother.output data hmem)
  | update current => exact (h side).update current
  | flush => exact (h side).flush
  | wndsize sndwnd rcvwnd => exact absurd rfl (hcall sndwnd rcvwnd)
  | nodelay nodelay interval resend nc => exact (h side).nodelay nodelay interval resend nc

theorem Linked.step (h : Linked conv mss ends c) (hmss : ∀ side, 0 < (mss side).toNat)
    {event : Bool × Call} (hguard : bounded ends event) (hstep : step ends event = some next) :
    ∃ c', Linked conv mss next c' := by
  obtain ⟨side, call⟩ := event
  unfold Kcp.step at hstep
  split at hstep
  · next hpossible =>
    cases hstep
    by_cases hcall : ∃ sndwnd rcvwnd, call = .wndsize sndwnd rcvwnd
    · obtain ⟨sndwnd, rcvwnd, rfl⟩ := hcall
      exact h.replace side .refl ((h side).wndsize hguard) (accepted_call _ _)
    · push Not at hcall
      obtain ⟨out, inc, hadvances, he, -⟩ := h.keeps hmss side hguard hpossible hcall
      exact h.replace side hadvances he (accepted_call _ _)
  · cases hstep

end

section

variable {conv : BitVec 32} {mtu : Bool → BitVec 32}

/-- The largest size of a segment at each end. -/
def startMss (conv : BitVec 32) (mtu : Bool → BitVec 32) (side : Bool) : BitVec 32 :=
  (start conv mtu side).kcp.mss

theorem startMss_pos (side : Bool) : 0 < (startMss conv mtu side).toNat := by
  show 0 < (ikcpSetmtu (ikcpCreate conv) (mtu side)).2.mss.toNat
  unfold ikcpSetmtu
  split
  · show 0 < (IKCP_MTU_DEF - BitVec.ofNat 32 IKCP_OVERHEAD).toNat
    decide
  · next hmtu =>
    have hlarge : 50 ≤ (mtu side).toNat := by
      rw [BitVec.toInt_eq_toNat_cond] at hmtu
      split at hmtu <;> omega
    show 0 < (mtu side - BitVec.ofNat 32 IKCP_OVERHEAD).toNat
    rw [BitVec.toNat_sub, IKCP_OVERHEAD]
    have hlt := (mtu side).isLt
    simp
    omega

theorem views_start (side : Bool) :
    (start conv mtu side).kcp.sendView = ⟨conv, startMss conv mtu side, 0, [], []⟩ ∧
      (start conv mtu side).kcp.recvView = ⟨0, IKCP_WND_RCV, [], [], []⟩ := by
  show (ikcpSetmtu (ikcpCreate conv) (mtu side)).2.sendView =
      ⟨conv, (ikcpSetmtu (ikcpCreate conv) (mtu side)).2.mss, 0, [], []⟩ ∧
    (ikcpSetmtu (ikcpCreate conv) (mtu side)).2.recvView = _
  unfold ikcpSetmtu
  split <;> exact ⟨rfl, rfl⟩

theorem linked_start :
    Linked conv (startMss conv mtu) (start conv mtu) fun _ => Channel.empty := by
  intro side
  obtain ⟨hsend, hrecv⟩ := @views_start conv mtu side
  constructor
  · refine ⟨?_, ?_, Channel.sound_empty, Channel.sound_empty, Nat.zero_le _⟩
    · rw [hsend]
      refine ⟨rfl, rfl, Nat.zero_le _, fun n hn => hn.elim, ?_, ?_, ?_⟩ <;>
        exact fun seg hseg => absurd hseg List.not_mem_nil
    · rw [hrecv]
      refine ⟨rfl, rfl, ?_, ?_, ?_, List.Pairwise.nil, fun n hn => hn.elim, ?_, by decide⟩ <;>
        exact fun seg hseg => absurd hseg List.not_mem_nil
  · exact fun data hdata => absurd hdata List.not_mem_nil
  · have hconv := congrArg SendView.conv hsend
    have hmss := congrArg SendView.mss hsend
    exact Prod.ext hconv hmss
  · exact List.prefix_refl _
  · exact fun message hmessage => absurd hmessage List.not_mem_nil

/-! ## Whole runs -/

variable {events : List (Bool × Call)} {final : Bool → End}

theorem exists_linked (hrun : Run step bounded (start conv mtu) events final) :
    ∃ c, Linked conv (startMss conv mtu) final c := by
  induction hrun with
  | refl => exact ⟨_, linked_start⟩
  | snoc hrun hguard hstep ih =>
      obtain ⟨c, hlinked⟩ := ih
      exact hlinked.step startMss_pos hguard hstep

/-- The messages handed out at one end are the first ones that the other has accepted, each
once and in this order. -/
theorem given_isPrefix (hrun : Run step bounded (start conv mtu) events final) (side : Bool) :
    (final side).given <+: (final (!side)).accepted := by
  obtain ⟨c, hlinked⟩ := exists_linked hrun
  exact (hlinked side).given

/-- A message of two segments, the second of which arrives first and again later; then the
acknowledgements. -/
def delivery : List (Bool × Call) :=
  let first : List UInt8 :=
    [7, 0, 0, 0, 81, 1, 32, 0, 0, 0, 0, 0, 0, 0, 0, 0, 0, 0, 0, 0, 26, 0, 0, 0] ++
      List.replicate 26 5
  let second : List UInt8 :=
    [7, 0, 0, 0, 81, 0, 32, 0, 0, 0, 0, 0, 1, 0, 0, 0, 0, 0, 0, 0, 1, 0, 0, 0, 5]
  let acknowledgements : List UInt8 :=
    [7, 0, 0, 0, 82, 0, 32, 0, 0, 0, 0, 0, 1, 0, 0, 0, 2, 0, 0, 0, 0, 0, 0, 0,
      7, 0, 0, 0, 82, 0, 32, 0, 0, 0, 0, 0, 0, 0, 0, 0, 2, 0, 0, 0, 0, 0, 0, 0]
  [(false, .nodelay 1 10 2 1), (false, .send (List.replicate 27 5)), (false, .update 0),
    (true, .input second), (true, .input first), (true, .input second), (true, .recv 4096),
    (true, .update 3), (false, .input acknowledgements)]

/-- The ends after it. -/
def delivered : Bool → End :=
  (exec step roomy (start 7 fun _ => 50) delivery).getD (start 7 fun _ => 50)

theorem run_delivered : Run step roomy (start 7 fun _ => 50) delivery delivered :=
  run_exec_getD _ (by decide +kernel)

theorem given_isPrefix_delivered :
    (delivered true).given ≠ [] ∧ (delivered true).given <+: (delivered false).accepted :=
  ⟨by decide +kernel, given_isPrefix (run_delivered.mono fun _ _ h => h.1) true⟩

/-- Every item that was accepted and has not been passed on is still with one of the ends,
under its number. -/
theorem item_kept (hrun : Run step bounded (start conv mtu) events final) (side : Bool) {n : ℕ}
    {item : Item}
    (hitem : (items (startMss conv mtu side).toNat (final side).accepted)[n]? = some item) :
    n < (final (!side)).kcp.rcvNxt.toNat ∨
      (∃ seg ∈ (final (!side)).kcp.rcvBuf, seg.sn.toNat = n ∧ seg.item = item) ∨
      (∃ seg ∈ (final side).kcp.sndBuf, seg.sn.toNat = n ∧ seg.item = item) ∨
      ∃ k, n = (final side).kcp.sndNxt.toNat + k ∧
        ((final side).kcp.sndQueue.map IKCPSEG.item)[k]? = some item := by
  obtain ⟨c, hlinked⟩ := exists_linked hrun
  have hother := hlinked (!side)
  rw [Bool.not_not] at hother
  have hsending := (hlinked side).connected.sending
  have hreceiving := hother.connected.receiving
  have hstream : (c side).log ++ (final side).kcp.sndQueue.map IKCPSEG.item =
      items (startMss conv mtu side).toNat (final side).accepted := hsending.stream
  have hsndNxt : (final side).kcp.sndNxt.toNat = (c side).log.length := hsending.nxt
  have hrcvNxt : (final (!side)).kcp.rcvNxt.toNat = (c side).passed := hreceiving.nxt
  rw [← hstream] at hitem
  by_cases hlog : n < (c side).log.length
  · rw [List.getElem?_append_left hlog] at hitem
    -- numbered: the sender holds it until the receiver has it
    rcases (hlinked side).connected.out_sound.kept n hlog with hheld | hreceived
    · obtain ⟨fixed, hfixed, rfl⟩ := hsending.held n hheld
      have hsame := hsending.item fixed hfixed
      obtain ⟨seg, hseg, rfl⟩ := mem_map_fixed.mp hfixed
      exact Or.inr (Or.inr (Or.inl ⟨seg, hseg, rfl, Option.some.inj (hsame.symm.trans hitem)⟩))
    · rcases hreceiving.ahead n hreceived with hpassed | ⟨seg, hseg, rfl⟩
      · exact Or.inl (hrcvNxt.symm ▸ hpassed)
      · have hsame := hreceiving.item seg hseg
        exact Or.inr (Or.inl ⟨seg, hseg, rfl, Option.some.inj (hsame.symm.trans hitem)⟩)
  · rw [List.getElem?_append_right (not_lt.mp hlog)] at hitem
    -- not numbered yet: it waits in `snd_queue`
    refine Or.inr (Or.inr (Or.inr ⟨n - (c side).log.length, ?_, hitem⟩))
    omega

theorem item_kept_delivered :
    1 < (delivered true).kcp.rcvNxt.toNat ∨
      (∃ seg ∈ (delivered true).kcp.rcvBuf, seg.sn.toNat = 1 ∧ seg.item = (0, [5])) ∨
      (∃ seg ∈ (delivered false).kcp.sndBuf, seg.sn.toNat = 1 ∧ seg.item = (0, [5])) ∨
      ∃ k, 1 = (delivered false).kcp.sndNxt.toNat + k ∧
        ((delivered false).kcp.sndQueue.map IKCPSEG.item)[k]? = some (0, [5]) :=
  item_kept (run_delivered.mono fun _ _ h => h.1) false (by decide +kernel)

end

/-! ## All messages arrive -/

/-- The windows have room for every message, and nothing stays behind. -/
structure Ready (ends : Bool → End) : Prop where
  settled : ∀ side, Settled (ends side).kcp.rcvWnd (ends side).kcp.recvView
  room : ∀ side, ∀ message ∈ (ends side).accepted,
    (ends side).segmentsOf message ≤ (ends (!side)).kcp.rcvWnd.toNat

section

variable {conv : BitVec 32} {mss : Bool → BitVec 32} {ends next : Bool → End}
  {c : Bool → Channel Item}

theorem mem_accepted_call {e : End} {call : Call} {message : List UInt8}
    (h : message ∈ (e.call call).accepted) : message ∈ e.accepted ∨ call = .send message := by
  cases call with
  | send buffer =>
      have hmem : message ∈ (if _ then e.accepted else e.accepted ++ [buffer]) := h
      split at hmem
      · exact Or.inl hmem
      · rcases List.mem_append.mp hmem with hold | hnew
        · exact Or.inl hold
        · rw [List.mem_singleton.mp hnew]
          exact Or.inr rfl
  | recv | input | update | flush | wndsize | nodelay => exact Or.inl h

/-- An end that has changed, when its window has room for the messages of the other. -/
theorem Ready.replace (h : Ready ends) (side : Bool) {e : End}
    (hsettled : Settled e.kcp.rcvWnd e.kcp.recvView) (hmss : e.kcp.mss = (ends side).kcp.mss)
    (haccepted : ∀ message ∈ e.accepted,
      e.segmentsOf message ≤ (ends (!side)).kcp.rcvWnd.toNat)
    (hroom : ∀ message ∈ (ends (!side)).accepted,
      (ends (!side)).segmentsOf message ≤ e.kcp.rcvWnd.toNat) :
    Ready (Function.update ends side e) := by
  have hne : (!side) ≠ side := Bool.not_ne_self side
  constructor
  · intro s
    rcases Bool.eq_or_eq_not s side with rfl | rfl
    · rw [Function.update_self]
      exact hsettled
    · rw [Function.update_of_ne hne]
      exact h.settled _
  · intro s
    rcases Bool.eq_or_eq_not s side with rfl | rfl
    · rw [Function.update_self, Function.update_of_ne hne]
      exact haccepted
    · rw [Bool.not_not, Function.update_self, Function.update_of_ne hne]
      exact hroom

theorem Ready.step (h : Ready ends) (hlinked : Linked conv mss ends c)
    (hmss : ∀ side, 0 < (mss side).toNat) {event : Bool × Call} (hguard : roomy ends event)
    (hstep : step ends event = some next) : Ready next := by
  obtain ⟨side, call⟩ := event
  obtain ⟨hnumbers, hwindow⟩ := hguard
  have hother := h.room (!side)
  rw [Bool.not_not] at hother
  unfold Kcp.step at hstep
  split at hstep
  · next hpossible =>
    cases hstep
    by_cases hcall : ∃ sndwnd rcvwnd, call = .wndsize sndwnd rcvwnd
    · -- the window is set before the other end has sent anything
      obtain ⟨sndwnd, rcvwnd, rfl⟩ := hcall
      have hnone : (ends (!side)).accepted = [] := hwindow
      have hlog : (c (!side)).log = [] := by
        have hprefix := hlinked.log_isPrefix (!side)
        rw [hnone] at hprefix
        exact List.prefix_nil.mp hprefix
      have hbuf : (ends side).kcp.rcvBuf = [] := by
        rw [List.eq_nil_iff_forall_not_mem]
        intro seg hseg
        have hitem := (hlinked side).connected.receiving.item seg hseg
        rw [hlog] at hitem
        cases hitem
      have hview := recvView_ikcpWndsize (ends side).kcp sndwnd rcvwnd
      have hsend := sendView_ikcpWndsize (ends side).kcp sndwnd rcvwnd
      have hmssSame : (ikcpWndsize (ends side).kcp sndwnd rcvwnd).mss = (ends side).kcp.mss :=
        congrArg SendView.mss hsend
      refine h.replace side ⟨rfl, ?_⟩ hmssSame ?_ ?_
      · intro _ seg hseg
        have hempty : (ikcpWndsize (ends side).kcp sndwnd rcvwnd).recvView.buf = [] := by
          rw [hview]
          exact hbuf
        have hmem : seg ∈ (ikcpWndsize (ends side).kcp sndwnd rcvwnd).recvView.buf := hseg
        rw [hempty] at hmem
        cases hmem
      · intro message hmessage
        have hroom := h.room side message hmessage
        unfold End.segmentsOf at hroom ⊢
        exact hmssSame.symm ▸ hroom
      · rw [hnone]
        exact fun message hmessage => absurd hmessage List.not_mem_nil
    · push Not at hcall
      obtain ⟨out, inc, -, he, hkeeps⟩ := hlinked.keeps hmss side hnumbers hpossible hcall
      have hsettled := hkeeps _ (h.settled side)
      have hwnd : ((ends side).call call).kcp.rcvWnd = (ends side).kcp.rcvWnd := hsettled.1
      have hmssSame : ((ends side).call call).kcp.mss = (ends side).kcp.mss := by
        have hchosen := he.chosen.trans (hlinked side).chosen.symm
        exact congrArg Prod.snd hchosen
      refine h.replace side (hwnd.symm ▸ hsettled) hmssSame ?_ (hwnd.symm ▸ hother)
      intro message hmessage
      have hsame : ((ends side).call call).segmentsOf message = (ends side).segmentsOf message := by
        unfold End.segmentsOf
        rw [hmssSame]
      rw [hsame]
      rcases mem_accepted_call hmessage with hold | rfl
      · exact h.room side message hold
      · exact hwindow
  · cases hstep

end

section

variable {conv : BitVec 32} {mtu : Bool → BitVec 32} {events : List (Bool × Call)}
  {final : Bool → End}

theorem ready_start : Ready (start conv mtu) := by
  constructor
  · intro side
    refine ⟨rfl, fun _ seg hseg => ?_⟩
    rw [(@views_start conv mtu side).2] at hseg
    cases hseg
  · exact fun side message hmessage => absurd hmessage List.not_mem_nil

theorem ready_of_run (hrun : Run step roomy (start conv mtu) events final) : Ready final := by
  induction hrun with
  | refl => exact ready_start
  | snoc hrun hguard hstep ih =>
      obtain ⟨c, hlinked⟩ := exists_linked (hrun.mono fun _ _ h => h.1)
      exact ih.step hlinked startMss_pos hguard hstep

/-- When nothing waits to be sent and no message can be received, all messages that were
accepted have been handed out. -/
theorem given_eq_accepted (hrun : Run step roomy (start conv mtu) events final) (side : Bool)
    (hsent : ikcpWaitsnd (final side).kcp = 0)
    (hread : ikcpPeeksize (final (!side)).kcp < 0) :
    (final (!side)).given = (final side).accepted := by
  have hready := ready_of_run hrun
  obtain ⟨c, hlinked⟩ := exists_linked (hrun.mono fun _ _ h => h.1)
  have hother := hlinked (!side)
  rw [Bool.not_not] at hother
  have hsending := (hlinked side).connected.sending
  have hreceiving := hother.connected.receiving
  obtain ⟨hbuf, hqueue⟩ : (final side).kcp.sndBuf = [] ∧ (final side).kcp.sndQueue = [] := by
    unfold ikcpWaitsnd at hsent
    exact ⟨List.length_eq_zero_iff.mp (by omega), List.length_eq_zero_iff.mp (by omega)⟩
  have hlog : (c side).log = items (startMss conv mtu side).toNat (final side).accepted := by
    have hstream : (c side).log ++ (final side).kcp.sndQueue.map IKCPSEG.item = _ := hsending.stream
    rwa [hqueue, List.map_nil, List.append_nil] at hstream
  have hheld : (c side).held = ∅ := by
    rw [Set.eq_empty_iff_forall_notMem]
    intro n hn
    obtain ⟨seg, hseg, -⟩ := hsending.held n hn
    have hmem : seg ∈ (final side).kcp.sndBuf.map IKCPSEG.fixed := hseg
    rw [hbuf] at hmem
    cases hmem
  obtain ⟨rest, hrest⟩ := hother.given
  cases rest with
  | nil => rw [← hrest, List.append_nil]
  | cons message more =>
      -- the first message that is missing could be received
      have hmem : message ∈ (final side).accepted :=
        hrest ▸ List.mem_append_right _ List.mem_cons_self
      have hfew := (hlinked side).few message hmem
      have hprefix := hother.queue_isPrefix (hlinked.log_isPrefix side) hrest
      have hlong : fragmentCount (startMss conv mtu side).toNat message.length ≤
          (final (!side)).kcp.rcvQueue.length := by
        by_cases hroom : (final (!side)).kcp.rcvQueue.length < (final (!side)).kcp.rcvWnd.toNat
        · have hnext : (c side).passed ∉ (c side).received := by
            intro hreceived
            rcases hreceiving.ahead _ hreceived with hlt | ⟨seg, hseg, hsn⟩
            · exact lt_irrefl _ hlt
            · refine (hready.settled (!side)).2 hroom seg hseg (BitVec.eq_of_toNat_eq ?_)
              rw [hsn, hreceiving.nxt]
          have hall := (hlinked side).connected.out_sound.passedItems_eq hheld hnext
          have hqueued := hreceiving.queued
          rw [hall, hlog, ← hrest, items, items, List.flatMap_append] at hqueued
          have hitems : (final (!side)).kcp.rcvQueue.map IKCPSEG.item =
              (message :: more).flatMap (fragmentItems (startMss conv mtu side).toNat) :=
            List.append_cancel_left hqueued
          have hlength := congrArg List.length hitems
          rw [List.length_map, List.flatMap_cons, List.length_append,
            length_fragmentItems] at hlength
          omega
        · have hwindow := hready.room side message hmem
          have hmss : (final side).kcp.mss = startMss conv mtu side :=
            congrArg Prod.snd (hlinked side).chosen
          unfold End.segmentsOf at hwindow
          rw [hmss] at hwindow
          omega
      obtain ⟨seg, hseg, hall⟩ := exists_head_of_le hfew hprefix hlong
      have hsize := ikcpPeeksize_nonneg_iff.mpr ⟨seg, hseg, hall⟩
      exact absurd hread (not_lt.mpr hsize)

theorem given_eq_accepted_delivered : (delivered true).given = (delivered false).accepted :=
  given_eq_accepted run_delivered false (by decide +kernel) (by decide +kernel)

end

/-! ## The buffer of the Lua binding -/

/-- The size of the buffer that `lkcp_recv` offers. -/
def RECV_BUFFER_LEN : ℤ := 4 * 1024

/-- Messages are received by `lkcp_recv` only. -/
def lkcp (ends : Bool → End) (event : Bool × Call) : Prop :=
  bounded ends event ∧ ∀ len, event.2 = .recv len → len = RECV_BUFFER_LEN

instance (ends : Bool → End) (event : Bool × Call) : Decidable (lkcp ends event) :=
  match event with
  | (_, .recv len) =>
      decidable_of_iff (bounded ends _ ∧ len = RECV_BUFFER_LEN)
        ⟨fun h => ⟨h.1, fun _ hlen => by cases hlen; exact h.2⟩, fun h => ⟨h.1, h.2 len rfl⟩⟩
  | (_, .send _) | (_, .input _) | (_, .update _) | (_, .flush) | (_, .wndsize _ _)
  | (_, .nodelay _ _ _ _) =>
      decidable_of_iff (bounded ends _) ⟨fun h => ⟨h, fun _ hlen => by cases hlen⟩, fun h => h.1⟩

section

variable {conv : BitVec 32} {mtu : Bool → BitVec 32} {events : List (Bool × Call)}
  {final : Bool → End}

/-- What is handed out fits the buffer. -/
theorem mem_given_call {e : End} {call : Call} {message : List UInt8}
    (h : message ∈ (e.call call).given) :
    message ∈ e.given ∨ ∃ len, call = .recv len ∧ (message.length : ℤ) ≤ |len| := by
  cases call with
  | recv len =>
      rcases ikcpRecv_cases e.kcp len with ⟨hfail, -⟩ | ⟨hsize, hfits, -, hdata, -, -⟩
      · have hmem : message ∈ (if (ikcpRecv e.kcp len).1 < 0 ∨ len < 0 then e.given else _) := h
        rw [if_pos (Or.inl hfail)] at hmem
        exact Or.inl hmem
      · have hmem : message ∈ (if (ikcpRecv e.kcp len).1 < 0 ∨ len < 0 then e.given
            else e.given ++ [(ikcpRecv e.kcp len).2.1]) := h
        split at hmem
        · exact Or.inl hmem
        · rcases List.mem_append.mp hmem with hold | hnew
          · exact Or.inl hold
          · refine Or.inr ⟨len, rfl, ?_⟩
            rw [List.mem_singleton.mp hnew, hdata, ← ikcpPeeksize_eq hsize]
            exact hfits
  | send | input | update | flush | wndsize | nodelay => exact Or.inl h

theorem length_le_of_mem_given (hrun : Run step lkcp (start conv mtu) events final) (side : Bool)
    {message : List UInt8} (hmem : message ∈ (final side).given) :
    (message.length : ℤ) ≤ RECV_BUFFER_LEN := by
  induction hrun with
  | refl => cases hmem
  | @snoc events ends event next hrun hguard hstep ih =>
      obtain ⟨caller, call⟩ := event
      unfold step at hstep
      split at hstep
      · cases hstep
        by_cases hside : side = caller
        · subst hside
          rw [Function.update_self] at hmem
          rcases mem_given_call hmem with hold | ⟨len, rfl, hlen⟩
          · exact ih hold
          · rwa [hguard.2 len rfl] at hlen
        · rw [Function.update_of_ne hside] at hmem
          exact ih hmem
      · cases hstep

/-- A message that is longer than the buffer stops the messages behind it for good. -/
theorem given_before_long (hrun : Run step lkcp (start conv mtu) events final) (side : Bool)
    {before after : List (List UInt8)} {message : List UInt8}
    (haccepted : (final (!side)).accepted = before ++ message :: after)
    (hlong : RECV_BUFFER_LEN < message.length) : (final side).given <+: before := by
  obtain ⟨c, hlinked⟩ := exists_linked (hrun.mono fun _ _ h => h.1)
  have hprefix := (hlinked side).given
  have hbefore : before <+: (final (!side)).accepted := haccepted ▸ List.prefix_append _ _
  rcases List.prefix_or_prefix_of_prefix hprefix hbefore with h | ⟨more, hmore⟩
  · exact h
  · cases more with
    | nil => exact ⟨[], by rw [List.append_nil, ← hmore, List.append_nil]⟩
    | cons first rest =>
        -- the first message behind is the long one, and it would have been given
        rw [← hmore, haccepted, List.prefix_append_right_inj, List.cons_prefix_cons] at hprefix
        have hmem : message ∈ (final side).given := by
          rw [← hmore, hprefix.1]
          exact List.mem_append_right _ List.mem_cons_self
        exact absurd hlong (not_lt.mpr (length_le_of_mem_given hrun side hmem))

/-- A message of one byte and a message of 4097 bytes. -/
def longDelivery : List (Bool × Call) :=
  let first : List UInt8 :=
    [7, 0, 0, 0, 81, 0, 32, 0, 0, 0, 0, 0, 0, 0, 0, 0, 0, 0, 0, 0, 1, 0, 0, 0, 9]
  [(false, .nodelay 1 10 2 1), (false, .send [9]), (false, .send (List.replicate 4097 5)),
    (false, .update 0), (true, .input first), (true, .recv 4096)]

def longDelivered : Bool → End :=
  (exec step lkcp (start 7 fun _ => 1400) longDelivery).getD (start 7 fun _ => 1400)

theorem given_before_long_delivered :
    (longDelivered true).given ≠ [] ∧ (longDelivered true).given <+: [[9]] := by
  have hrun : Run step lkcp (start 7 fun _ => 1400) longDelivery longDelivered :=
    run_exec_getD _ (by decide +kernel)
  have hlength : (longDelivered false).accepted.length = 2 := by decide +kernel
  have hfirst : (longDelivered false).accepted.getD 0 [] = [9] := by decide +kernel
  have hlong : RECV_BUFFER_LEN < ((longDelivered false).accepted.getD 1 []).length := by
    decide +kernel
  obtain ⟨first, long, haccepted⟩ := List.length_eq_two.mp hlength
  rw [haccepted] at hfirst hlong
  have hsplit : (longDelivered false).accepted = [[9]] ++ long :: [] := by
    rw [haccepted]
    exact congrArg (fun head => [head, long]) hfirst
  exact ⟨by decide +kernel, given_before_long hrun true hsplit hlong⟩

end

end Kcp
end ArmyRs
