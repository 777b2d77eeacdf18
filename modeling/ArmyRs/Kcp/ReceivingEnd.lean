import ArmyRs.Kcp.SendingEnd

/-!
# The receiving end

`Receiving` ties what a control block has received to a channel: the items that were
handed to the user and those in `rcv_queue` are the items that the channel has passed
on, and the segments that came early are in `rcv_buf`, in ascending order.

A segment that fits the window is put at its place and moves on when it is the next one
(`Receiving.parseData`).  `Receiving.input` takes a whole datagram: what it acknowledges
is let go of on one channel, what it carries is received on the other.
-/

namespace ArmyRs
namespace Kcp

open Foundation

/-- What has arrived, against the channel; `consumed` lists the items of the messages that
were handed to the user. -/
structure Receiving (v : RecvView) (c : Channel Item) (consumed : List Item) : Prop where
  nxt : v.nxt.toNat = c.passed
  queued : consumed ++ v.queue.map IKCPSEG.item = c.passedItems
  item : ∀ seg ∈ v.buf, c.log[seg.sn.toNat]? = some seg.item
  received : ∀ seg ∈ v.buf, seg.sn.toNat ∈ c.received
  early : ∀ seg ∈ v.buf, c.passed ≤ seg.sn.toNat
  ascending : v.buf.Pairwise fun a b => a.sn.toNat < b.sn.toNat
  ahead : ∀ n ∈ c.received, n < c.passed ∨ ∃ seg ∈ v.buf, seg.sn.toNat = n
  acks : ∀ sn ∈ v.acks, sn.toNat ∈ c.received
  window : v.wnd.toNat ≤ 2 ^ 30

/-- With this window, nothing that could move on stays behind. -/
def Settled (wnd : BitVec 32) (v : RecvView) : Prop :=
  v.wnd = wnd ∧ (v.queue.length < wnd.toNat → ∀ seg ∈ v.buf, seg.sn ≠ v.nxt)

section

variable {v : RecvView} {c next : Channel Item} {consumed : List Item}

/-- The receiving end does not depend on what the sender does. -/
theorem Receiving.senderReaches (h : Receiving v c consumed) (hsound : c.Sound)
    (hreach : Channel.SenderReaches c next) : Receiving v next consumed := by
  obtain ⟨⟨rest, hlog⟩, hreceived, hpassed⟩ := hreach.frame
  have hitems : next.passedItems = c.passedItems := by
    rw [Channel.passedItems, Channel.passedItems, ← hlog, hpassed,
      List.take_append_of_le_length hsound.passed_le]
  refine ⟨hpassed ▸ h.nxt, hitems ▸ h.queued, ?_, hreceived ▸ h.received, hpassed ▸ h.early,
    h.ascending, ?_, hreceived ▸ h.acks, h.window⟩
  · intro seg hseg
    have hitem := h.item seg hseg
    obtain ⟨hlt, -⟩ := List.getElem?_eq_some_iff.mp hitem
    rw [← hlog, List.getElem?_append_left hlt, hitem]
  · rw [hreceived, hpassed]
    exact h.ahead

/-- The acknowledgements may be sent. -/
theorem Receiving.flushed (h : Receiving v c consumed) : Receiving { v with acks := [] } c consumed :=
  ⟨h.nxt, h.queued, h.item, h.received, h.early, h.ascending, h.ahead, by simp, h.window⟩

end

/-! ## What is next moves on -/

section

variable {kcp : Ikcpcb} {c : Channel Item} {consumed : List Item}

@[simp] theorem sendView_moveAvailable (buf : List IKCPSEG) (kcp : Ikcpcb) :
    (moveAvailable buf kcp).sendView = kcp.sendView := by
  induction buf generalizing kcp with
  | nil => rfl
  | cons seg rest ih =>
      unfold moveAvailable
      split
      · exact ih _
      · rfl

/-- The next segment moves from `rcv_buf` to `rcv_queue`. -/
theorem Receiving.pass {v : RecvView} (h : Receiving v c consumed)
    (hlog : c.log.length ≤ 2 ^ 30) {seg : IKCPSEG} {rest : List IKCPSEG}
    (hbuf : v.buf = seg :: rest) (hsn : seg.sn = v.nxt) :
    Receiving { v with nxt := v.nxt + 1, queue := v.queue ++ [seg], buf := rest } c.pass
      consumed := by
  have hmem : seg ∈ v.buf := hbuf ▸ List.mem_cons_self
  have hrest : ∀ other ∈ rest, other ∈ v.buf := fun other hother =>
    hbuf ▸ List.mem_cons_of_mem _ hother
  have hpassed : seg.sn.toNat = c.passed := by rw [hsn, h.nxt]
  have hascending := h.ascending
  rw [hbuf, List.pairwise_cons] at hascending
  have hitem : c.log[c.passed]? = some seg.item := hpassed ▸ h.item seg hmem
  obtain ⟨hlt, hget⟩ := List.getElem?_eq_some_iff.mp hitem
  refine ⟨?_, ?_, fun other hother => h.item other (hrest other hother),
    fun other hother => h.received other (hrest other hother), ?_, hascending.2, ?_, h.acks,
    h.window⟩
  · show (v.nxt + 1).toNat = c.passed + 1
    rw [toNat_succ, h.nxt]
    rw [h.nxt]
    omega
  · show consumed ++ (v.queue ++ [seg]).map IKCPSEG.item = c.log.take (c.passed + 1)
    rw [List.map_append, ← List.append_assoc, h.queued, Channel.passedItems,
      ← List.take_concat_get' _ _ hlt, hget]
    rfl
  · intro other hother
    have hgreater : seg.sn.toNat < other.sn.toNat := hascending.1 other hother
    show c.passed + 1 ≤ _
    omega
  · intro n hn
    rcases h.ahead n hn with hbelow | ⟨other, hother, rfl⟩
    · exact Or.inl (Nat.lt_succ_of_lt hbelow)
    · rw [hbuf] at hother
      -- the first segment of the buffer is the one that has been passed on
      rcases List.mem_cons.mp hother with rfl | hlater
      · exact Or.inl (by rw [hpassed]; exact Nat.lt_succ_self _)
      · exact Or.inr ⟨other, hlater, rfl⟩

theorem Receiving.moveAvailable {buf : List IKCPSEG} (hsound : c.Sound)
    (hlog : c.log.length ≤ 2 ^ 30) (h : Receiving { kcp.recvView with buf } c consumed) :
    ∃ next, Channel.ReceiverReaches c next ∧
      Receiving (moveAvailable buf kcp).recvView next consumed ∧
      Settled kcp.rcvWnd (moveAvailable buf kcp).recvView := by
  induction buf generalizing kcp c with
  | nil => exact ⟨c, .refl, h, rfl, fun _ => by simp [Kcp.moveAvailable, Ikcpcb.recvView]⟩
  | cons seg rest ih =>
      unfold Kcp.moveAvailable
      split
      · next hnext =>
        have hpassed : seg.sn.toNat = c.passed := by
          rw [hnext.1]
          exact h.nxt
        have hstep : Channel.ReceiverStep c c.pass :=
          .pass c (hpassed ▸ h.received seg List.mem_cons_self)
        obtain ⟨next, hreach, hend⟩ :=
          @ih { kcp with rcvQueue := kcp.rcvQueue ++ [seg], rcvNxt := kcp.rcvNxt + 1 } c.pass
            (hsound.receiverStep hstep) hlog (h.pass hlog rfl hnext.1)
        exact ⟨next, (Relation.ReflTransGen.single hstep).trans hreach, hend⟩
      · next hstop =>
        -- the first segment does not fit, and those behind it have greater numbers
        refine ⟨c, .refl, h, rfl, ?_⟩
        intro hroom other hother heq
        have hfirst : seg.sn ≠ kcp.rcvNxt := fun hfirst => hstop ⟨hfirst, hroom⟩
        rcases List.mem_cons.mp hother with rfl | hlater
        · exact hfirst heq
        · have hgreater : seg.sn.toNat < other.sn.toNat :=
            (List.pairwise_cons.mp h.ascending).1 other hlater
          have hearly : c.passed ≤ seg.sn.toNat := h.early seg List.mem_cons_self
          have hnxt : kcp.rcvNxt.toNat = c.passed := h.nxt
          have hsn : other.sn.toNat = kcp.rcvNxt.toNat := congrArg BitVec.toNat heq
          omega

/-! ## A segment arrives -/

theorem mem_insertFromBack {newseg seg : IKCPSEG} {buf : List IKCPSEG}
    (h : seg ∈ insertFromBack newseg buf) : seg = newseg ∨ seg ∈ buf := by
  induction buf with
  | nil => exact Or.inl (List.mem_singleton.mp h)
  | cons first prev ih =>
      unfold insertFromBack at h
      split at h
      · exact Or.inr h
      · split at h
        · exact List.mem_cons.mp h
        · rcases List.mem_cons.mp h with rfl | hprev
          · exact Or.inr List.mem_cons_self
          · exact (ih hprev).imp_right (List.mem_cons_of_mem _)

theorem mem_insertFromBack_of_mem {newseg seg : IKCPSEG} {buf : List IKCPSEG} (h : seg ∈ buf) :
    seg ∈ insertFromBack newseg buf := by
  induction buf with
  | nil => cases h
  | cons first prev ih =>
      unfold insertFromBack
      split
      · exact h
      · split
        · exact List.mem_cons_of_mem _ h
        · rcases List.mem_cons.mp h with rfl | hprev
          · exact List.mem_cons_self
          · exact List.mem_cons_of_mem _ (ih hprev)

/-- The number is there afterwards, whether the segment was a repetition or not. -/
theorem exists_mem_insertFromBack (newseg : IKCPSEG) (buf : List IKCPSEG) :
    ∃ seg ∈ insertFromBack newseg buf, seg.sn = newseg.sn := by
  induction buf with
  | nil => exact ⟨newseg, List.mem_cons_self, rfl⟩
  | cons first prev ih =>
      unfold insertFromBack
      split
      · next hsame => exact ⟨first, List.mem_cons_self, hsame⟩
      · split
        · exact ⟨newseg, List.mem_cons_self, rfl⟩
        · obtain ⟨seg, hseg, hsn⟩ := ih
          exact ⟨seg, List.mem_cons_of_mem _ hseg, hsn⟩

/-- From the back the numbers descend, before and after. -/
theorem pairwise_insertFromBack {newseg : IKCPSEG} {buf : List IKCPSEG}
    (hnew : newseg.sn.toNat < 2 ^ 31) (hbuf : ∀ seg ∈ buf, seg.sn.toNat < 2 ^ 31)
    (hdescending : buf.Pairwise fun a b => b.sn.toNat < a.sn.toNat) :
    (insertFromBack newseg buf).Pairwise fun a b => b.sn.toNat < a.sn.toNat := by
  induction buf with
  | nil => exact List.pairwise_singleton _ _
  | cons first prev ih =>
      rw [List.forall_mem_cons] at hbuf
      obtain ⟨hfirst, hprev⟩ := List.pairwise_cons.mp hdescending
      unfold insertFromBack
      split
      · exact hdescending
      · next hne =>
        have hne' : first.sn.toNat ≠ newseg.sn.toNat := fun heq =>
          hne (BitVec.eq_of_toNat_eq heq)
        rw [itimediff_eq hnew hbuf.1]
        split
        · refine List.pairwise_cons.mpr ⟨?_, hdescending⟩
          intro seg hseg
          rcases List.mem_cons.mp hseg with rfl | hmem
          · omega
          · have hlt := hfirst seg hmem
            omega
        · refine List.pairwise_cons.mpr ⟨?_, ih hbuf.2 hprev⟩
          intro seg hseg
          rcases mem_insertFromBack hseg with rfl | hmem
          · omega
          · exact hfirst seg hmem

/-- A segment within the window is received and acknowledged. -/
theorem Receiving.insert {v : RecvView} (h : Receiving v c consumed)
    (hlog : c.log.length ≤ 2 ^ 30) {newseg : IKCPSEG}
    (hitem : c.log[newseg.sn.toNat]? = some newseg.item) (hearly : c.passed ≤ newseg.sn.toNat) :
    Receiving
      { v with
        buf := (insertFromBack newseg v.buf.reverse).reverse, acks := v.acks ++ [newseg.sn] }
      (c.receive newseg.sn.toNat) consumed := by
  have hmem : ∀ seg ∈ (insertFromBack newseg v.buf.reverse).reverse,
      seg = newseg ∨ seg ∈ v.buf := by
    intro seg hseg
    exact (mem_insertFromBack (List.mem_reverse.mp hseg)).imp_right List.mem_reverse.mp
  -- numbers below 2 ^ 31 are compared as integers
  have hsn : ∀ seg : IKCPSEG, c.log[seg.sn.toNat]? = some seg.item → seg.sn.toNat < 2 ^ 31 := by
    intro seg hseg
    obtain ⟨hlt, -⟩ := List.getElem?_eq_some_iff.mp hseg
    omega
  refine ⟨h.nxt, h.queued, ?_, ?_, ?_, ?_, ?_, ?_, h.window⟩
  · intro seg hseg
    rcases hmem seg hseg with rfl | hold
    · exact hitem
    · exact h.item seg hold
  · intro seg hseg
    rcases hmem seg hseg with rfl | hold
    · exact Set.mem_insert _ _
    · exact Set.mem_insert_of_mem _ (h.received seg hold)
  · intro seg hseg
    rcases hmem seg hseg with rfl | hold
    · exact hearly
    · exact h.early seg hold
  · refine List.pairwise_reverse.mpr (pairwise_insertFromBack (hsn _ hitem) ?_ ?_)
    · exact fun seg hseg => hsn seg (h.item seg (List.mem_reverse.mp hseg))
    · exact List.pairwise_reverse.mpr h.ascending
  · rintro n (rfl | hn)
    · -- inserted or there before, the number is in the buffer
      obtain ⟨seg, hseg, hsame⟩ := exists_mem_insertFromBack newseg v.buf.reverse
      exact Or.inr ⟨seg, List.mem_reverse.mpr hseg, congrArg BitVec.toNat hsame⟩
    · refine (h.ahead n hn).imp_right ?_
      rintro ⟨seg, hseg, rfl⟩
      exact ⟨seg, List.mem_reverse.mpr (mem_insertFromBack_of_mem (List.mem_reverse.mpr hseg)), rfl⟩
  · intro sn hacked
    rcases List.mem_append.mp hacked with hold | hnew
    · exact Set.mem_insert_of_mem _ (h.acks sn hold)
    · rw [List.mem_singleton.mp hnew]
      exact Set.mem_insert _ _

@[simp] theorem sendView_ikcpParseData (kcp : Ikcpcb) (newseg : IKCPSEG) :
    (ikcpParseData kcp newseg).sendView = kcp.sendView := by
  unfold ikcpParseData
  split
  · rfl
  · exact sendView_moveAvailable _ _

/-- A pushed segment is acknowledged unless it is beyond the window, and its data is taken
when it is not old. -/
theorem Receiving.inputPush (h : Receiving kcp.recvView c consumed) (hsound : c.Sound)
    (hlog : c.log.length ≤ 2 ^ 30) {seg : IKCPSEG}
    (hitem : c.log[seg.sn.toNat]? = some seg.item) :
    ∃ next, Channel.ReceiverReaches c next ∧ Receiving (inputPush kcp seg).recvView next consumed ∧
      ∀ wnd, Settled wnd kcp.recvView → Settled wnd (inputPush kcp seg).recvView := by
  obtain ⟨hlt, -⟩ := List.getElem?_eq_some_iff.mp hitem
  have hnxt : kcp.rcvNxt.toNat = c.passed := h.nxt
  have hwnd : kcp.rcvWnd.toNat ≤ 2 ^ 30 := h.window
  have hpassed : c.passed ≤ c.log.length := hsound.passed_le
  have hdiff : itimediff seg.sn kcp.rcvNxt = (seg.sn.toNat : ℤ) - c.passed := by
    rw [itimediff_eq (by omega) (by omega), hnxt]
  unfold Kcp.inputPush
  split
  · next hwindow =>
    split
    · next hnew =>
      have hearly : c.passed ≤ seg.sn.toNat := by omega
      have hstep : Channel.ReceiverStep c (c.receive seg.sn.toNat) := .receive c hlt
      obtain ⟨next, hreach, hend, hsettled⟩ :=
        @Receiving.moveAvailable (ikcpAckPush kcp seg.sn seg.ts) _ _
          (insertFromBack seg kcp.rcvBuf.reverse).reverse (hsound.receiverStep hstep) hlog
          (by simpa [ikcpAckPush, Ikcpcb.recvView] using h.insert hlog hitem hearly)
      refine ⟨next, (Relation.ReflTransGen.single hstep).trans hreach, ?_⟩
      have hinside : ¬ (itimediff seg.sn (kcp.rcvNxt + kcp.rcvWnd) ≥ 0 ∨
          itimediff seg.sn kcp.rcvNxt < 0) := by omega
      unfold ikcpParseData
      rw [if_neg (by exact hinside)]
      exact ⟨hend, fun wnd hbefore => hbefore.1 ▸ hsettled⟩
    · next hold =>
      -- an old segment is acknowledged only: it has been passed on
      refine ⟨c, .refl, ⟨h.nxt, h.queued, h.item, h.received, h.early, h.ascending, h.ahead, ?_,
        h.window⟩, fun _ => id⟩
      intro sn hacked
      rw [Ikcpcb.recvView, ikcpAckPush] at hacked
      dsimp only at hacked
      rw [List.map_append] at hacked
      rcases List.mem_append.mp hacked with hbefore | hthis
      · exact h.acks sn hbefore
      · rw [List.mem_singleton.mp hthis]
        exact hsound.passed_received seg.sn.toNat (by omega)
  · -- beyond the window nothing happens
    exact ⟨c, .refl, h, fun _ => id⟩

@[simp] theorem sendView_inputPush (kcp : Ikcpcb) (seg : IKCPSEG) :
    (inputPush kcp seg).sendView = kcp.sendView := by
  unfold Kcp.inputPush
  split
  · split
    · exact sendView_ikcpParseData _ _
    · rfl
  · rfl

end

/-! ## A datagram arrives -/

/-- A control block between its two channels: it sends on `out` and receives on `inc`. -/
structure Connected (kcp : Ikcpcb) (out inc : Channel Item) (sent consumed : List Item) :
    Prop where
  sending : Sending kcp.sendView out sent
  receiving : Receiving kcp.recvView inc consumed
  out_sound : out.Sound
  inc_sound : inc.Sound
  inc_short : inc.log.length ≤ 2 ^ 30

/-- What the control block may have done to its channels. -/
structure Advances (out inc out' inc' : Channel Item) : Prop where
  out : Channel.SenderReaches out out'
  inc : Channel.ReceiverReaches inc inc'

section

variable {kcp : Ikcpcb} {out inc : Channel Item} {sent consumed : List Item} {conv : BitVec 32}

theorem Connected.of_sending (h : Connected kcp out inc sent consumed) {kcp' : Ikcpcb}
    {out' : Channel Item} (hreach : Channel.SenderReaches out out')
    (hsending : Sending kcp'.sendView out' sent) (hrecv : kcp'.recvView = kcp.recvView) :
    Connected kcp' out' inc sent consumed :=
  ⟨hsending, hrecv ▸ h.receiving, h.out_sound.senderReaches hreach, h.inc_sound, h.inc_short⟩

/-- The acknowledgement that every segment has. -/
theorem Connected.inputUna (h : Connected kcp out inc sent consumed) {seg : IKCPSEG}
    (hseg : Carries conv inc out seg) :
    ∃ out', Channel.SenderReaches out out' ∧ Connected (inputUna kcp seg) out' inc sent consumed := by
  have hsending : Sending { kcp with rmtWnd := seg.wnd.setWidth 32 }.sendView out sent := h.sending
  obtain ⟨out', hreach, hout⟩ := hsending.parseUna h.out_sound hseg.una
  refine ⟨out', hreach, h.of_sending hreach ?_ ?_⟩
  · rw [Kcp.inputUna, sendView_ikcpShrinkBuf]
    exact hout
  · rw [Kcp.inputUna, recvView_ikcpShrinkBuf, recvView_ikcpParseUna]
    rfl

@[simp] theorem recvView_inputUna (kcp : Ikcpcb) (seg : IKCPSEG) :
    (inputUna kcp seg).recvView = kcp.recvView := by
  rw [inputUna, recvView_ikcpShrinkBuf, recvView_ikcpParseUna]
  rfl

@[simp] theorem recvView_inputAck (kcp : Ikcpcb) (seg : IKCPSEG) :
    (inputAck kcp seg).recvView = kcp.recvView := by
  rw [inputAck, recvView_ikcpShrinkBuf, recvView_ikcpParseAck]
  split
  · exact recvView_ikcpUpdateAck _ _
  · rfl

/-- The acknowledgement of one segment. -/
theorem Sending.inputAck (h : Sending kcp.sendView out sent) {seg : IKCPSEG}
    (hsn : seg.sn.toNat ∈ out.received) :
    ∃ next, Channel.SenderReaches out next ∧ Sending (inputAck kcp seg).sendView next sent := by
  unfold Kcp.inputAck
  rw [sendView_ikcpShrinkBuf]
  split
  · have hupdated : Sending (ikcpUpdateAck kcp (itimediff kcp.current seg.ts)).sendView out sent := h
    exact hupdated.parseAck hsn
  · exact h.parseAck hsn

/-- The command of a segment, one case for each. -/
theorem Connected.inputCommand (h : Connected kcp out inc sent consumed) {seg : IKCPSEG}
    (hpush : seg.cmd = IKCP_CMD_PUSH → inc.log[seg.sn.toNat]? = some seg.item)
    (hack : seg.cmd = IKCP_CMD_ACK → seg.sn.toNat ∈ out.received) :
    ∃ out' inc', Advances out inc out' inc' ∧
      Connected (inputCommand kcp seg) out' inc' sent consumed ∧
      ∀ wnd, Settled wnd kcp.recvView → Settled wnd (inputCommand kcp seg).recvView := by
  unfold Kcp.inputCommand
  split
  · next hcmd =>
    obtain ⟨out', hreach, hsending⟩ := h.sending.inputAck (hack hcmd)
    refine ⟨out', inc, ⟨hreach, .refl⟩, h.of_sending hreach hsending (recvView_inputAck kcp seg), ?_⟩
    rw [recvView_inputAck]
    exact fun _ => id
  · split
    · next hcmd =>
      obtain ⟨inc', hreach, hreceiving, hsettled⟩ :=
        h.receiving.inputPush h.inc_sound h.inc_short (hpush hcmd)
      refine ⟨out, inc', ⟨.refl, hreach⟩, ⟨?_, hreceiving, h.out_sound,
        h.inc_sound.receiverReaches hreach, hreach.frame.1 ▸ h.inc_short⟩, hsettled⟩
      rw [sendView_inputPush]
      exact h.sending
    · split
      · exact ⟨out, inc, ⟨.refl, .refl⟩, h.of_sending .refl h.sending rfl, fun _ => id⟩
      · exact ⟨out, inc, ⟨.refl, .refl⟩, h, fun _ => id⟩

/-- One segment of a datagram. -/
theorem Connected.inputSegment {r : Reading} (h : Connected r.kcp out inc sent consumed) {seg : IKCPSEG}
    (hseg : Carries conv inc out seg) :
    ∃ out' inc' r', inputSegment r seg = some r' ∧ Advances out inc out' inc' ∧
      Connected r'.kcp out' inc' sent consumed ∧
      ∀ wnd, Settled wnd r.kcp.recvView → Settled wnd r'.kcp.recvView := by
  obtain ⟨out', hreach, huna⟩ := h.inputUna hseg
  obtain ⟨-, hreceived, -⟩ := hreach.frame
  obtain ⟨out'', inc', hadvances, hend, hsettled⟩ :=
    huna.inputCommand hseg.push fun hcmd => hreceived ▸ hseg.ack hcmd
  rw [recvView_inputUna] at hsettled
  refine ⟨out'', inc', ⟨Kcp.inputCommand (Kcp.inputUna r.kcp seg) seg, newMaxack r.maxack seg⟩, ?_,
    ⟨hreach.trans hadvances.out, hadvances.inc⟩, hend, hsettled⟩
  have hknown := hseg.known
  unfold Kcp.inputSegment
  rw [if_neg (by tauto)]

/-! ## Whole datagrams -/

/-- What is chosen when the connection is made. -/
def Ikcpcb.chosen (kcp : Ikcpcb) : BitVec 32 × BitVec 32 := (kcp.conv, kcp.mss)

theorem chosen_of_sendView {kcp kcp' : Ikcpcb} (h : kcp'.sendView = kcp.sendView) :
    kcp'.chosen = kcp.chosen := by
  have hconv := congrArg SendView.conv h
  have hmss := congrArg SendView.mss h
  exact Prod.ext hconv hmss

@[simp] theorem chosen_inputUna (kcp : Ikcpcb) (seg : IKCPSEG) :
    (inputUna kcp seg).chosen = kcp.chosen := by
  rw [inputUna, chosen_of_sendView (sendView_ikcpShrinkBuf _)]
  rfl

@[simp] theorem chosen_inputCommand (kcp : Ikcpcb) (seg : IKCPSEG) :
    (inputCommand kcp seg).chosen = kcp.chosen := by
  unfold inputCommand
  split
  · rw [inputAck, chosen_of_sendView (sendView_ikcpShrinkBuf _), ikcpParseAck]
    split <;> split <;> rfl
  · split
    · exact chosen_of_sendView (sendView_inputPush _ _)
    · split <;> rfl

theorem chosen_of_inputSegment {r r' : Reading} {seg : IKCPSEG}
    (h : inputSegment r seg = some r') : r'.kcp.chosen = r.kcp.chosen := by
  unfold inputSegment at h
  split at h
  · cases h
  · cases h
    rw [chosen_inputCommand, chosen_inputUna]

theorem chosen_inputSegments (fuel : ℕ) (data : List UInt8) (r : Reading) :
    (inputSegments fuel data r).2.kcp.chosen = r.kcp.chosen := by
  induction fuel generalizing data r with
  | zero => rfl
  | succ fuel ih =>
      unfold inputSegments
      split
      · rfl
      · dsimp only
        split
        · rfl
        · split
          · rfl
          · split
            · rfl
            · next hsegment => rw [ih, chosen_of_inputSegment hsegment]

@[simp] theorem chosen_ikcpInput (kcp : Ikcpcb) (data : List UInt8) :
    (ikcpInput kcp data).2.chosen = kcp.chosen := by
  unfold ikcpInput
  split
  · rfl
  · have hread := chosen_inputSegments data.length data ⟨kcp, none⟩
    dsimp only
    generalize inputSegments data.length data ⟨kcp, none⟩ = answer at hread ⊢
    obtain ⟨code, r⟩ := answer
    dsimp only at hread ⊢
    split
    · exact hread
    · dsimp only
      split_ifs <;> cases r.maxack <;> dsimp only <;>
        simp only [chosen_of_sendView (sendView_growWindow _),
          chosen_of_sendView (sendView_ikcpParseFastack _ _), hread]

/-- A segment as it is read from the wire. -/
def IKCPSEG.asRead (seg : IKCPSEG) : IKCPSEG := { seg.header with data := seg.data }

/-- It promises what the one that was written did. -/
theorem Carries.asRead {seg : IKCPSEG} (h : Carries conv out inc seg) :
    Carries conv out inc seg.asRead :=
  ⟨h.conv_eq, h.fits, h.known, h.push, h.una, h.ack⟩

/-- A round of the loop reads one segment and leaves the rest. -/
theorem inputSegments_wire {seg : IKCPSEG} {r r' : Reading} (hconv : seg.conv = r.kcp.conv)
    (hfits : seg.data.length < 2 ^ 32) (hread : inputSegment r seg.asRead = some r') (fuel : ℕ)
    (rest : List UInt8) :
    inputSegments (fuel + 1) (seg.wire ++ rest) r = inputSegments fuel rest r' := by
  have hlength : IKCP_OVERHEAD ≤ (seg.wire ++ rest).length := by
    rw [IKCPSEG.wire, List.length_append, List.length_append, length_ikcpEncodeSeg]
    omega
  have hheader : ¬ (seg.header.conv ≠ r.kcp.conv) := not_not.mpr hconv
  have hlen : seg.len.toNat = seg.data.length := toNat_len hfits
  have hroom : ¬ ((seg.data ++ rest).length < seg.data.length) := by
    rw [List.length_append]
    omega
  rw [inputSegments, if_neg (not_lt.mpr hlength), IKCPSEG.wire, List.append_assoc,
    decodeHeader_encodeSeg]
  dsimp only
  rw [if_neg hheader, hlen, if_neg hroom, List.take_left, List.drop_left]
  split
  · next hnone => cases hread.symm.trans hnone
  · next hsome =>
    cases hread.symm.trans hsome
    rfl

/-- All segments of a datagram, by induction on the row. -/
theorem Connected.inputSegments {r : Reading} {segs : List IKCPSEG} {fuel : ℕ}
    (h : Connected r.kcp out inc sent consumed) (hconv : r.kcp.conv = conv)
    (hsegs : ∀ seg ∈ segs, Carries conv inc out seg) :
    ∃ out' inc' r', inputSegments fuel (segs.flatMap IKCPSEG.wire) r = (0, r') ∧
      Advances out inc out' inc' ∧ Connected r'.kcp out' inc' sent consumed ∧
      ∀ wnd, Settled wnd r.kcp.recvView → Settled wnd r'.kcp.recvView := by
  induction segs generalizing fuel r out inc with
  | nil =>
      refine ⟨out, inc, r, ?_, ⟨.refl, .refl⟩, h, fun _ => id⟩
      cases fuel <;> rfl
  | cons seg rest ih =>
      cases fuel with
      | zero => exact ⟨out, inc, r, rfl, ⟨.refl, .refl⟩, h, fun _ => id⟩
      | succ fuel =>
          rw [List.forall_mem_cons] at hsegs
          obtain ⟨out', inc', r', hread, hadvances, hconnected, hsettled⟩ :=
            h.inputSegment hsegs.1.asRead
          have hchosen : r'.kcp.conv = conv := by
            have hsame := congrArg Prod.fst (chosen_of_inputSegment hread)
            exact hsame.trans hconv
          obtain ⟨hlog, hheld, hreceived, hpassed⟩ := hadvances.inc.frame
          obtain ⟨-, hout, houtPassed⟩ := hadvances.out.frame
          -- what the other end sent it still sends after this segment
          have hrest : ∀ other ∈ rest, Carries conv inc' out' other := fun other hother =>
            (hsegs.2 other hother).mono (hlog ▸ List.prefix_refl _) hout.ge houtPassed.ge
          obtain ⟨out'', inc'', r'', hend, hmore, hdone, hstill⟩ :=
            @ih out' inc' r' fuel hconnected hchosen hrest
          refine ⟨out'', inc'', r'', ?_, ⟨hadvances.out.trans hmore.out,
            hadvances.inc.trans hmore.inc⟩, hdone, fun wnd hbefore => hstill wnd (hsettled wnd hbefore)⟩
          rw [List.flatMap_cons, inputSegments_wire (hsegs.1.conv_eq.trans hconv.symm)
            hsegs.1.fits hread]
          exact hend

/-- A datagram of the other end keeps a control block connected. -/
theorem Connected.input (h : Connected kcp out inc sent consumed) {data : List UInt8}
    (hdata : Carried kcp.conv inc out data) :
    ∃ out' inc', Advances out inc out' inc' ∧ Connected (ikcpInput kcp data).2 out' inc' sent consumed ∧
      ∀ wnd, Settled wnd kcp.recvView → Settled wnd (ikcpInput kcp data).2.recvView := by
  unfold ikcpInput
  split
  · exact ⟨out, inc, ⟨.refl, .refl⟩, h, fun _ => id⟩
  · obtain ⟨segs, rfl, hsegs⟩ := hdata
    have hstart : Connected (Reading.kcp ⟨kcp, none⟩) out inc sent consumed := h
    obtain ⟨out', inc', r, hread, hadvances, hconnected, hsettled⟩ :=
      @Connected.inputSegments _ _ _ _ _ ⟨kcp, none⟩ segs (segs.flatMap IKCPSEG.wire).length hstart
        rfl hsegs
    refine ⟨out', inc', hadvances, ?_⟩
    dsimp only
    rw [hread]
    dsimp only
    rw [if_neg (by simp)]
    have hfinal : ∀ kcp' : Ikcpcb, kcp'.sendView = r.kcp.sendView →
        kcp'.recvView = r.kcp.recvView → Connected kcp' out' inc' sent consumed ∧
          (∀ wnd, Settled wnd kcp.recvView → Settled wnd kcp'.recvView) := fun kcp' hsend hrecv =>
      ⟨hconnected.of_sending .refl (hsend ▸ hconnected.sending) hrecv, hrecv ▸ hsettled⟩
    dsimp only
    apply hfinal
    · split_ifs <;> cases r.maxack <;> simp
    · split_ifs <;> cases r.maxack <;> simp

end

end Kcp
end ArmyRs
