import ArmyRs.Foundation.SelectiveRepeat
import ArmyRs.Kcp.IkcpFlush

/-!
# The sending end

`Sending` ties what a control block has to send to a channel: the segments of `snd_buf`
carry items of the log, and they are at least the items that the channel holds.  An
acknowledgement takes segments out of `snd_buf`, which the channel sees as a release;
a flush numbers segments, and touches otherwise only times and counts.

`Carries` says what a segment on its way promises: its data is an item of the log, and
what it acknowledges has been received.  Every datagram of a flush is a row of such
segments (`carried_ikcpFlush`).
-/

namespace ArmyRs
namespace Kcp

open Foundation

/-! ## What the transport sees of a control block -/

/-- A segment without the fields that a retransmission changes. -/
def IKCPSEG.fixed (seg : IKCPSEG) : IKCPSEG :=
  { seg with wnd := 0, ts := 0, una := 0, resendts := 0, rto := 0, fastack := 0, xmit := 0 }

structure SendView where
  conv : BitVec 32
  mss : BitVec 32
  nxt : BitVec 32
  queue : List IKCPSEG
  buf : List IKCPSEG

structure RecvView where
  nxt : BitVec 32
  wnd : BitVec 32
  queue : List IKCPSEG
  buf : List IKCPSEG
  acks : List (BitVec 32)

def Ikcpcb.sendView (kcp : Ikcpcb) : SendView :=
  ⟨kcp.conv, kcp.mss, kcp.sndNxt, kcp.sndQueue, kcp.sndBuf.map IKCPSEG.fixed⟩

def Ikcpcb.recvView (kcp : Ikcpcb) : RecvView :=
  ⟨kcp.rcvNxt, kcp.rcvWnd, kcp.rcvQueue, kcp.rcvBuf, kcp.acklist.map Prod.fst⟩

section

variable (kcp : Ikcpcb)

@[simp] theorem sendView_ikcpUpdateAck (rtt : ℤ) :
    (ikcpUpdateAck kcp rtt).sendView = kcp.sendView := rfl

@[simp] theorem recvView_ikcpUpdateAck (rtt : ℤ) :
    (ikcpUpdateAck kcp rtt).recvView = kcp.recvView := rfl

@[simp] theorem sendView_ikcpShrinkBuf : (ikcpShrinkBuf kcp).sendView = kcp.sendView := by
  unfold ikcpShrinkBuf
  split <;> rfl

@[simp] theorem recvView_ikcpShrinkBuf : (ikcpShrinkBuf kcp).recvView = kcp.recvView := by
  unfold ikcpShrinkBuf
  split <;> rfl

@[simp] theorem recvView_ikcpParseUna (una : BitVec 32) :
    (ikcpParseUna kcp una).recvView = kcp.recvView := rfl

@[simp] theorem recvView_ikcpParseAck (sn : BitVec 32) :
    (ikcpParseAck kcp sn).recvView = kcp.recvView := by
  unfold ikcpParseAck
  split <;> rfl

@[simp] theorem map_fixed_countFastack (sn : BitVec 32) (buf : List IKCPSEG) :
    (countFastack sn buf).map IKCPSEG.fixed = buf.map IKCPSEG.fixed := by
  induction buf with
  | nil => rfl
  | cons seg rest ih =>
      unfold countFastack
      split
      · rfl
      · split
        · rw [List.map_cons, ih]
          rfl
        · rw [List.map_cons, ih]
          rfl

@[simp] theorem sendView_ikcpParseFastack (sn : BitVec 32) :
    (ikcpParseFastack kcp sn).sendView = kcp.sendView := by
  unfold ikcpParseFastack
  split
  · simp [Ikcpcb.sendView]
  · rfl

@[simp] theorem recvView_ikcpParseFastack (sn : BitVec 32) :
    (ikcpParseFastack kcp sn).recvView = kcp.recvView := by
  unfold ikcpParseFastack
  split <;> rfl

@[simp] theorem sendView_growWindow : (growWindow kcp).sendView = kcp.sendView := by
  unfold growWindow
  dsimp only
  split_ifs <;> rfl

@[simp] theorem recvView_growWindow : (growWindow kcp).recvView = kcp.recvView := by
  unfold growWindow
  dsimp only
  split_ifs <;> rfl

@[simp] theorem sendView_ikcpNodelay (nodelay interval resend nc : BitVec 32) :
    (ikcpNodelay kcp nodelay interval resend nc).sendView = kcp.sendView := by
  unfold ikcpNodelay
  dsimp only
  split_ifs <;> rfl

@[simp] theorem recvView_ikcpNodelay (nodelay interval resend nc : BitVec 32) :
    (ikcpNodelay kcp nodelay interval resend nc).recvView = kcp.recvView := by
  unfold ikcpNodelay
  dsimp only
  split_ifs <;> rfl

@[simp] theorem sendView_ikcpWndsize (sndwnd rcvwnd : BitVec 32) :
    (ikcpWndsize kcp sndwnd rcvwnd).sendView = kcp.sendView := by
  unfold ikcpWndsize
  dsimp only
  split_ifs <;> rfl

theorem recvView_ikcpWndsize (sndwnd rcvwnd : BitVec 32) :
    (ikcpWndsize kcp sndwnd rcvwnd).recvView =
      { kcp.recvView with wnd := if rcvwnd.toInt > 0 then rcvwnd else kcp.rcvWnd } := by
  unfold ikcpWndsize
  dsimp only
  split_ifs <;> rfl

end

/-! ## The sending end and its channel -/

/-- What is queued and outstanding, against the channel; `sent` lists the items of all
messages that were taken. -/
structure Sending (v : SendView) (c : Channel Item) (sent : List Item) : Prop where
  stream : c.log ++ v.queue.map IKCPSEG.item = sent
  nxt : v.nxt.toNat = c.log.length
  short : c.log.length + v.queue.length ≤ 2 ^ 30
  held : ∀ n ∈ c.held, ∃ seg ∈ v.buf, seg.sn.toNat = n
  item : ∀ seg ∈ v.buf, c.log[seg.sn.toNat]? = some seg.item
  push : ∀ seg ∈ v.buf, seg.cmd = IKCP_CMD_PUSH ∧ seg.conv = v.conv
  fits : ∀ seg ∈ v.queue ++ v.buf, seg.data.length < 2 ^ 32

section

variable {v : SendView} {c next : Channel Item} {sent : List Item}

theorem Sending.length_log (h : Sending v c sent) : c.log.length ≤ 2 ^ 30 := by
  have := h.short
  omega

theorem Sending.sn_lt (h : Sending v c sent) {seg : IKCPSEG} (hseg : seg ∈ v.buf) :
    seg.sn.toNat < c.log.length := by
  obtain ⟨hlt, -⟩ := List.getElem?_eq_some_iff.mp (h.item seg hseg)
  exact hlt

/-- The sending end does not depend on what the receiver does. -/
theorem Sending.receiverReaches (h : Sending v c sent) (hreach : Channel.ReceiverReaches c next) :
    Sending v next sent := by
  obtain ⟨hlog, hheld, -⟩ := hreach.frame
  exact ⟨hlog ▸ h.stream, hlog ▸ h.nxt, hlog ▸ h.short, hheld ▸ h.held, hlog ▸ h.item, h.push, h.fits⟩

/-- Segments are taken out of `snd_buf` that the receiver has. -/
theorem Sending.remove (h : Sending v c sent) {buf : List IKCPSEG} (hsub : ∀ seg ∈ buf, seg ∈ v.buf)
    (hgone : ∀ seg ∈ v.buf, seg ∈ buf ∨ seg.sn.toNat ∈ c.received) :
    ∃ next, Channel.SenderReaches c next ∧ Sending { v with buf } next sent := by
  let gone : Set ℕ := {n | n ∈ c.received ∧ ∀ seg ∈ buf, seg.sn.toNat ≠ n}
  refine ⟨c.release gone, .single (.release c fun n hn => hn.1), h.stream, h.nxt, h.short,
    ?_, ?_, ?_, ?_⟩
  · rintro n ⟨hheld, hstays⟩
    by_contra hnone
    push Not at hnone
    obtain ⟨seg, hseg, rfl⟩ := h.held n hheld
    rcases hgone seg hseg with hmem | hreceived
    · exact hnone seg hmem rfl
    · exact hstays ⟨hreceived, hnone⟩
  · exact fun seg hseg => h.item seg (hsub seg hseg)
  · exact fun seg hseg => h.push seg (hsub seg hseg)
  · intro seg hseg
    refine h.fits seg ?_
    rw [List.mem_append] at hseg ⊢
    exact hseg.imp_right (hsub seg)

end

theorem mem_map_fixed {buf : List IKCPSEG} {seg : IKCPSEG} :
    seg ∈ buf.map IKCPSEG.fixed ↔ ∃ whole ∈ buf, whole.fixed = seg := List.mem_map

theorem eq_of_fixed_eq {a b : IKCPSEG} (h : a.fixed = b.fixed) :
    a.conv = b.conv ∧ a.cmd = b.cmd ∧ a.sn = b.sn ∧ a.item = b.item ∧ a.data = b.data := by
  have hconv := congrArg IKCPSEG.conv h
  have hcmd := congrArg IKCPSEG.cmd h
  have hsn := congrArg IKCPSEG.sn h
  have hitem := congrArg IKCPSEG.item h
  have hdata := congrArg IKCPSEG.data h
  exact ⟨hconv, hcmd, hsn, hitem, hdata⟩

theorem mem_of_mem_removeBelow {una : BitVec 32} {buf : List IKCPSEG} {seg : IKCPSEG}
    (h : seg ∈ removeBelow una buf) : seg ∈ buf := by
  induction buf with
  | nil => exact h
  | cons first rest ih =>
      unfold removeBelow at h
      split at h
      · exact List.mem_cons_of_mem _ (ih h)
      · exact h

/-- What a cumulative acknowledgement takes out is below it. -/
theorem removeBelow_gone {una : BitVec 32} {buf : List IKCPSEG} {seg : IKCPSEG}
    (h : seg ∈ buf) : seg ∈ removeBelow una buf ∨ itimediff una seg.sn > 0 := by
  induction buf with
  | nil => cases h
  | cons first rest ih =>
      unfold removeBelow
      split
      · next hfirst =>
        rcases List.mem_cons.mp h with rfl | hrest
        · exact Or.inr hfirst
        · exact ih hrest
      · exact Or.inl h

theorem mem_of_mem_removeAcked {sn : BitVec 32} {buf : List IKCPSEG} {seg : IKCPSEG}
    (h : seg ∈ removeAcked sn buf) : seg ∈ buf := by
  induction buf with
  | nil => exact h
  | cons first rest ih =>
      unfold removeAcked at h
      split at h
      · exact List.mem_cons_of_mem _ h
      · split at h
        · exact h
        · rcases List.mem_cons.mp h with rfl | hrest
          · exact List.mem_cons_self
          · exact List.mem_cons_of_mem _ (ih hrest)

/-- An acknowledgement of one number takes out nothing else. -/
theorem removeAcked_gone {sn : BitVec 32} {buf : List IKCPSEG} {seg : IKCPSEG}
    (h : seg ∈ buf) : seg ∈ removeAcked sn buf ∨ seg.sn = sn := by
  induction buf with
  | nil => cases h
  | cons first rest ih =>
      unfold removeAcked
      split
      · next hfirst =>
        rcases List.mem_cons.mp h with rfl | hrest
        · exact Or.inr hfirst.symm
        · exact Or.inl hrest
      · split
        · exact Or.inl h
        · rcases List.mem_cons.mp h with rfl | hrest
          · exact Or.inl List.mem_cons_self
          · exact (ih hrest).imp_left (List.mem_cons_of_mem _)

section

variable {kcp : Ikcpcb} {c : Channel Item} {sent : List Item}

/-- The same for the segments themselves. -/
theorem Sending.removeWhole (h : Sending kcp.sendView c sent) {buf : List IKCPSEG}
    (hsub : ∀ seg ∈ buf, seg ∈ kcp.sndBuf)
    (hgone : ∀ seg ∈ kcp.sndBuf, seg ∈ buf ∨ seg.sn.toNat ∈ c.received) :
    ∃ next, Channel.SenderReaches c next ∧
      Sending { kcp with sndBuf := buf }.sendView next sent := by
  refine h.remove (show ∀ seg ∈ buf.map IKCPSEG.fixed, seg ∈ kcp.sendView.buf from ?_) ?_
  · intro seg hseg
    obtain ⟨whole, hwhole, rfl⟩ := mem_map_fixed.mp hseg
    exact mem_map_fixed.mpr ⟨whole, hsub whole hwhole, rfl⟩
  · intro seg hseg
    obtain ⟨whole, hwhole, rfl⟩ := mem_map_fixed.mp hseg
    exact (hgone whole hwhole).imp_left fun hmem => mem_map_fixed.mpr ⟨whole, hmem, rfl⟩

theorem Sending.sn_lt_of_mem (h : Sending kcp.sendView c sent) {seg : IKCPSEG}
    (hseg : seg ∈ kcp.sndBuf) : seg.sn.toNat < 2 ^ 30 := by
  have hfixed : seg.fixed ∈ kcp.sendView.buf := mem_map_fixed.mpr ⟨seg, hseg, rfl⟩
  have hlt : seg.fixed.sn.toNat < c.log.length := h.sn_lt hfixed
  exact lt_of_lt_of_le hlt h.length_log

/-- A cumulative acknowledgement of what has been passed on. -/
theorem Sending.parseUna (h : Sending kcp.sendView c sent) (hsound : c.Sound) {una : BitVec 32}
    (huna : una.toNat ≤ c.passed) :
    ∃ next, Channel.SenderReaches c next ∧ Sending (ikcpParseUna kcp una).sendView next sent := by
  refine h.removeWhole (fun seg hseg => mem_of_mem_removeBelow hseg) ?_
  intro seg hseg
  refine (removeBelow_gone hseg).imp_right fun hbelow => ?_
  have hpassed : c.passed ≤ c.log.length := hsound.passed_le
  have hlog : c.log.length ≤ 2 ^ 30 := h.length_log
  have hsn : seg.sn.toNat < 2 ^ 30 := h.sn_lt_of_mem hseg
  rw [itimediff_eq (by omega) (by omega)] at hbelow
  exact hsound.passed_received _ (by omega)

/-- An acknowledgement of one number that has been received. -/
theorem Sending.parseAck (h : Sending kcp.sendView c sent) {sn : BitVec 32}
    (hsn : sn.toNat ∈ c.received) :
    ∃ next, Channel.SenderReaches c next ∧ Sending (ikcpParseAck kcp sn).sendView next sent := by
  unfold ikcpParseAck
  split
  · refine h.removeWhole (fun seg hseg => mem_of_mem_removeAcked hseg) ?_
    intro seg hseg
    refine (removeAcked_gone hseg).imp_right fun heq => ?_
    rw [heq]
    exact hsn
  · exact ⟨c, .refl, h⟩

end

/-! ## Segments on their way -/

/-- What a segment promises: its data is an item of the log of `out`, and what it
acknowledges has been received on `inc`. -/
structure Carries (conv : BitVec 32) (out inc : Channel Item) (seg : IKCPSEG) : Prop where
  conv_eq : seg.conv = conv
  fits : seg.data.length < 2 ^ 32
  known : seg.cmd = IKCP_CMD_PUSH ∨ seg.cmd = IKCP_CMD_ACK ∨ seg.cmd = IKCP_CMD_WASK ∨
    seg.cmd = IKCP_CMD_WINS
  push : seg.cmd = IKCP_CMD_PUSH → out.log[seg.sn.toNat]? = some seg.item
  una : seg.una.toNat ≤ inc.passed
  ack : seg.cmd = IKCP_CMD_ACK → seg.sn.toNat ∈ inc.received

/-- A row of such segments. -/
def Carried (conv : BitVec 32) (out inc : Channel Item) (data : List UInt8) : Prop :=
  ∃ segs : List IKCPSEG, data = segs.flatMap IKCPSEG.wire ∧
    ∀ seg ∈ segs, Carries conv out inc seg

section

variable {conv : BitVec 32} {out out' inc inc' : Channel Item}

theorem Carries.mono {seg : IKCPSEG} (h : Carries conv out inc seg) (hlog : out.log <+: out'.log)
    (hreceived : inc.received ⊆ inc'.received) (hpassed : inc.passed ≤ inc'.passed) :
    Carries conv out' inc' seg where
  conv_eq := h.conv_eq
  fits := h.fits
  known := h.known
  push := fun hcmd => by
    obtain ⟨rest, hrest⟩ := hlog
    have hitem := h.push hcmd
    obtain ⟨hlt, -⟩ := List.getElem?_eq_some_iff.mp hitem
    rw [← hrest, List.getElem?_append_left hlt, hitem]
  una := h.una.trans hpassed
  ack := fun hcmd => hreceived (h.ack hcmd)

theorem Carried.mono {data : List UInt8} (h : Carried conv out inc data)
    (hlog : out.log <+: out'.log) (hreceived : inc.received ⊆ inc'.received)
    (hpassed : inc.passed ≤ inc'.passed) : Carried conv out' inc' data := by
  obtain ⟨segs, hdata, hsegs⟩ := h
  exact ⟨segs, hdata, fun seg hseg => (hsegs seg hseg).mono hlog hreceived hpassed⟩

theorem carried_nil : Carried conv out inc [] := ⟨[], rfl, by simp⟩

theorem Carried.append {data more : List UInt8} (h : Carried conv out inc data)
    (hmore : Carried conv out inc more) : Carried conv out inc (data ++ more) := by
  obtain ⟨segs, rfl, hsegs⟩ := h
  obtain ⟨others, rfl, hothers⟩ := hmore
  refine ⟨segs ++ others, by rw [List.flatMap_append], ?_⟩
  intro seg hseg
  exact (List.mem_append.mp hseg).elim (hsegs seg) (hothers seg)

theorem Carries.carried {seg : IKCPSEG} (h : Carries conv out inc seg) :
    Carried conv out inc seg.wire :=
  ⟨[seg], by simp, by simpa using h⟩

/-- A header without data is a segment as well. -/
theorem Carries.header {seg : IKCPSEG} (h : Carries conv out inc seg) (hdata : seg.data = []) :
    Carried conv out inc (ikcpEncodeSeg seg) := by
  have hwire := h.carried
  rwa [IKCPSEG.wire, hdata, List.append_nil] at hwire

/-- Everything written so far is a row of segments. -/
structure WellWritten (conv : BitVec 32) (out inc : Channel Item) (w : Writer) : Prop where
  buffer : Carried conv out inc w.buffer
  output : ∀ data ∈ w.output, Carried conv out inc data

theorem mem_ikcpOutput {output : List (List UInt8)} {data datagram : List UInt8}
    (h : datagram ∈ ikcpOutput output data) : datagram ∈ output ∨ datagram = data := by
  unfold ikcpOutput at h
  split at h
  · exact Or.inl h
  · simpa using h

theorem WellWritten.ikcpOutput {w : Writer} (h : WellWritten conv out inc w) :
    ∀ data ∈ ikcpOutput w.output w.buffer, Carried conv out inc data := by
  intro data hdata
  rcases mem_ikcpOutput hdata with hmem | rfl
  · exact h.output data hmem
  · exact h.buffer

theorem WellWritten.mono {w : Writer} (h : WellWritten conv out inc w)
    (hlog : out.log <+: out'.log) : WellWritten conv out' inc w :=
  ⟨h.buffer.mono hlog subset_rfl le_rfl,
    fun data hdata => (h.output data hdata).mono hlog subset_rfl le_rfl⟩

theorem WellWritten.makeRoom {w : Writer} (h : WellWritten conv out inc w) (mtu : BitVec 32)
    (need : ℕ) : WellWritten conv out inc (w.makeRoom mtu need) := by
  unfold Writer.makeRoom
  split
  · exact ⟨carried_nil, h.ikcpOutput⟩
  · exact h

theorem WellWritten.header {w : Writer} (h : WellWritten conv out inc w) (mtu : BitVec 32)
    {seg : IKCPSEG} (hseg : Carries conv out inc seg) (hdata : seg.data = []) :
    WellWritten conv out inc (w.header mtu seg) :=
  have hroom := h.makeRoom mtu IKCP_OVERHEAD
  ⟨hroom.buffer.append (hseg.header hdata), hroom.output⟩

theorem WellWritten.segment {w : Writer} (h : WellWritten conv out inc w) (mtu : BitVec 32)
    {seg : IKCPSEG} (hseg : Carries conv out inc seg) :
    WellWritten conv out inc (w.segment mtu seg) :=
  have hroom := h.makeRoom mtu (IKCP_OVERHEAD + seg.data.length)
  ⟨hroom.buffer.append hseg.carried, hroom.output⟩

end

/-! ## A flush -/

/-- A header of the flush, which the probes use after the acknowledgements. -/
structure Plain (conv : BitVec 32) (inc : Channel Item) (seg : IKCPSEG) : Prop where
  conv_eq : seg.conv = conv
  data : seg.data = []
  una : seg.una.toNat ≤ inc.passed

section

variable {conv : BitVec 32} {out inc : Channel Item} {seg : IKCPSEG} {w : Writer}
  {sent : List Item}

theorem Plain.carries (h : Plain conv inc seg)
    (hknown : seg.cmd = IKCP_CMD_ACK ∨ seg.cmd = IKCP_CMD_WASK ∨ seg.cmd = IKCP_CMD_WINS)
    (hack : seg.cmd = IKCP_CMD_ACK → seg.sn.toNat ∈ inc.received) :
    Carries conv out inc seg where
  conv_eq := h.conv_eq
  fits := by rw [h.data]; decide
  known := Or.inr hknown
  push := fun hpush => by
    rw [hpush] at hknown
    rcases hknown with hcmd | hcmd | hcmd <;> cases hcmd
  una := h.una
  ack := hack

theorem WellWritten.flushAcknowledges {acks : List (BitVec 32 × BitVec 32)}
    (h : WellWritten conv out inc w) (hseg : Plain conv inc seg) (hcmd : seg.cmd = IKCP_CMD_ACK)
    (hacks : ∀ ack ∈ acks, ack.1.toNat ∈ inc.received) (mtu : BitVec 32) :
    Plain conv inc (flushAcknowledges mtu acks seg w).1 ∧
      WellWritten conv out inc (flushAcknowledges mtu acks seg w).2 := by
  induction acks generalizing seg w with
  | nil => exact ⟨hseg, h⟩
  | cons ack rest ih =>
      obtain ⟨sn, ts⟩ := ack
      have hplain : Plain conv inc { seg with sn, ts } := ⟨hseg.conv_eq, hseg.data, hseg.una⟩
      have hcarries : Carries conv out inc { seg with sn, ts } :=
        hplain.carries (Or.inl hcmd) fun _ => hacks _ List.mem_cons_self
      exact ih (h.header mtu hcarries hseg.data) hplain hcmd
        fun ack hack => hacks ack (List.mem_cons_of_mem _ hack)

theorem WellWritten.flushProbe (h : WellWritten conv out inc w) (hseg : Plain conv inc seg)
    (kcp : Ikcpcb) (ask : BitVec 32) {cmd : BitVec 8}
    (hcmd : cmd = IKCP_CMD_WASK ∨ cmd = IKCP_CMD_WINS) :
    Plain conv inc (flushProbe kcp ask cmd seg w).1 ∧
      WellWritten conv out inc (flushProbe kcp ask cmd seg w).2 := by
  have hplain : Plain conv inc { seg with cmd } := ⟨hseg.conv_eq, hseg.data, hseg.una⟩
  unfold Kcp.flushProbe
  split
  · refine ⟨hplain, h.header kcp.mtu (hplain.carries (Or.inr hcmd) ?_) hseg.data⟩
    intro hack
    rcases hcmd with rfl | rfl <;> cases hack
  · exact ⟨hseg, h⟩

/-- The first segment of the queue gets the next number. -/
theorem Sending.number {v : SendView} {c : Channel Item} {newseg seg : IKCPSEG}
    {rest : List IKCPSEG} (h : Sending v c sent) (hqueue : v.queue = newseg :: rest)
    (hsn : seg.sn = v.nxt) (hitem : seg.item = newseg.item)
    (hpush : seg.cmd = IKCP_CMD_PUSH ∧ seg.conv = v.conv) :
    Sending { v with nxt := v.nxt + 1, queue := rest, buf := v.buf ++ [seg] }
      (c.number newseg.item) sent := by
  have hlength : (c.number newseg.item).log.length = c.log.length + 1 :=
    Channel.length_log_number _ _
  have hnxt : v.nxt.toNat = c.log.length := h.nxt
  have hshort : c.log.length + (rest.length + 1) ≤ 2 ^ 30 := by
    have hshort := h.short
    rwa [hqueue, List.length_cons] at hshort
  have hfits : ∀ other ∈ newseg :: rest ++ v.buf, other.data.length < 2 ^ 32 := by
    rw [← hqueue]
    exact h.fits
  constructor
  · have hstream := h.stream
    rw [hqueue, List.map_cons] at hstream
    rw [← hstream, Channel.number, List.append_assoc]
    rfl
  · show (v.nxt + 1).toNat = _
    rw [toNat_succ (by omega), hlength, hnxt]
  · show (c.number newseg.item).log.length + rest.length ≤ _
    rw [hlength]
    omega
  · rintro n (rfl | hn)
    · refine ⟨seg, List.mem_append_right _ List.mem_cons_self, ?_⟩
      rw [hsn, hnxt]
    · obtain ⟨other, hother, rfl⟩ := h.held n hn
      exact ⟨other, List.mem_append_left _ hother, rfl⟩
  · intro other hother
    rcases List.mem_append.mp hother with hold | hnew
    · rw [Channel.number, List.getElem?_append_left (h.sn_lt hold)]
      exact h.item other hold
    · rw [List.mem_singleton.mp hnew, hsn, hnxt, hitem, Channel.number,
        List.getElem?_concat_length]
  · intro other hother
    rcases List.mem_append.mp hother with hold | hnew
    · exact h.push other hold
    · rw [List.mem_singleton.mp hnew]
      exact hpush
  · intro other hother
    have hdata : seg.data = newseg.data := congrArg Prod.snd hitem
    rcases List.mem_append.mp hother with hrest | hbuf
    · exact hfits other (List.mem_append_left _ (List.mem_cons_of_mem _ hrest))
    · rcases List.mem_append.mp hbuf with hold | hnew
      · exact hfits other (List.mem_append_right _ hold)
      · rw [List.mem_singleton.mp hnew, hdata]
        exact hfits newseg (List.mem_append_left _ List.mem_cons_self)

/-- The window moves segments from the queue to the log. -/
theorem Sending.numberSegments {kcp : Ikcpcb} {queue : List IKCPSEG}
    (h : Sending { kcp.sendView with queue } out sent) (wnd : BitVec 16) (cwnd : BitVec 32) :
    ∃ next, Channel.SenderReaches out next ∧
      Sending (numberSegments wnd cwnd queue kcp).sendView next sent := by
  induction queue generalizing kcp out with
  | nil => exact ⟨out, .refl, h⟩
  | cons newseg rest ih =>
      unfold Kcp.numberSegments
      split
      · let numbered : IKCPSEG :=
          { newseg with
            conv := kcp.conv, cmd := IKCP_CMD_PUSH, wnd := wnd, ts := kcp.current,
            sn := kcp.sndNxt, una := kcp.rcvNxt, resendts := kcp.current, rto := kcp.rxRto,
            fastack := 0, xmit := 0 }
        have hfirst : Sending
            ⟨kcp.conv, kcp.mss, kcp.sndNxt + 1, rest,
              kcp.sndBuf.map IKCPSEG.fixed ++ [numbered.fixed]⟩ (out.number newseg.item) sent :=
          h.number rfl rfl rfl ⟨rfl, rfl⟩
        have hview : Sending
            ⟨kcp.conv, kcp.mss, kcp.sndNxt + 1, rest,
              (kcp.sndBuf ++ [numbered]).map IKCPSEG.fixed⟩ (out.number newseg.item) sent := by
          rwa [List.map_append]
        obtain ⟨next, hreach, hnext⟩ :=
          @ih _ { kcp with sndNxt := kcp.sndNxt + 1, sndBuf := kcp.sndBuf ++ [numbered] } hview
        exact ⟨next, (Relation.ReflTransGen.single (.number out newseg.item)).trans hreach, hnext⟩
      · exact ⟨out, .refl, h⟩

end

theorem Sending.numberQueue {kcp : Ikcpcb} {out : Channel Item} {sent : List Item}
    (h : Sending kcp.sendView out sent)
    (wnd : BitVec 16) (cwnd : BitVec 32) :
    ∃ next, Channel.SenderReaches out next ∧
      Sending (Kcp.numberSegments wnd cwnd kcp.sndQueue kcp).sendView next sent :=
  Sending.numberSegments h wnd cwnd

@[simp] theorem recvView_numberSegments (wnd : BitVec 16) (cwnd : BitVec 32)
    (queue : List IKCPSEG) (kcp : Ikcpcb) :
    (numberSegments wnd cwnd queue kcp).recvView = kcp.recvView := by
  induction queue generalizing kcp with
  | nil => rfl
  | cons newseg rest ih =>
      unfold numberSegments
      split
      · exact ih _
      · rfl

@[simp] theorem conv_numberSegments (wnd : BitVec 16) (cwnd : BitVec 32)
    (queue : List IKCPSEG) (kcp : Ikcpcb) :
    (numberSegments wnd cwnd queue kcp).conv = kcp.conv := by
  induction queue generalizing kcp with
  | nil => rfl
  | cons newseg rest ih =>
      unfold numberSegments
      split
      · exact ih _
      · rfl

section

variable {kcp : Ikcpcb} {out inc : Channel Item} {resent rtomin : BitVec 32} {wnd : BitVec 16}
  {sent : List Item}

theorem needSend_fixed (kcp : Ikcpcb) (resent rtomin : BitVec 32) (segment : IKCPSEG)
    (s : Flushing) :
    (needSend kcp resent rtomin segment s).2.1.fixed = segment.fixed ∧
      (needSend kcp resent rtomin segment s).2.2.writer = s.writer := by
  unfold needSend
  dsimp only
  split_ifs <;> exact ⟨rfl, rfl⟩

/-- A retransmission keeps what identifies the segment, and writes it as the log has it. -/
theorem flushSegment_spec {conv : BitVec 32} {segment : IKCPSEG} {s : Flushing}
    (hrcv : kcp.rcvNxt.toNat ≤ inc.passed) (hitem : out.log[segment.sn.toNat]? = some segment.item)
    (hpush : segment.cmd = IKCP_CMD_PUSH ∧ segment.conv = conv)
    (hfits : segment.data.length < 2 ^ 32) (hs : WellWritten conv out inc s.writer) :
    (flushSegment kcp resent rtomin wnd segment s).1.fixed = segment.fixed ∧
      WellWritten conv out inc (flushSegment kcp resent rtomin wnd segment s).2.writer := by
  obtain ⟨hfixed, hwriter⟩ := needSend_fixed kcp resent rtomin segment s
  unfold flushSegment
  generalize needSend kcp resent rtomin segment s = answer at hfixed hwriter
  obtain ⟨needsend, sent, after⟩ := answer
  dsimp only at hfixed hwriter ⊢
  rw [← hwriter] at hs
  cases needsend with
  | false => exact ⟨hfixed, hs⟩
  | true =>
      refine ⟨hfixed, hs.segment kcp.mtu ?_⟩
      obtain ⟨hconv, hcmd, hsn, hsame, hdata⟩ := eq_of_fixed_eq hfixed
      constructor
      · exact hconv.trans hpush.2
      · exact (congrArg List.length hdata).trans_lt hfits
      · exact Or.inl (hcmd.trans hpush.1)
      · intro _
        show out.log[sent.sn.toNat]? = some sent.item
        rw [hsn, hsame, hitem]
      · exact hrcv
      · intro hack
        have hcontra : IKCP_CMD_PUSH = IKCP_CMD_ACK := (hcmd.trans hpush.1).symm.trans hack
        cases hcontra

theorem flushSegments_spec {conv : BitVec 32} {buf : List IKCPSEG} {s : Flushing}
    (hrcv : kcp.rcvNxt.toNat ≤ inc.passed)
    (hitem : ∀ seg ∈ buf, out.log[seg.sn.toNat]? = some seg.item)
    (hpush : ∀ seg ∈ buf, seg.cmd = IKCP_CMD_PUSH ∧ seg.conv = conv)
    (hfits : ∀ seg ∈ buf, seg.data.length < 2 ^ 32) (hs : WellWritten conv out inc s.writer) :
    (flushSegments kcp resent rtomin wnd buf s).1.map IKCPSEG.fixed = buf.map IKCPSEG.fixed ∧
      WellWritten conv out inc (flushSegments kcp resent rtomin wnd buf s).2.writer := by
  induction buf generalizing s with
  | nil => exact ⟨rfl, hs⟩
  | cons segment rest ih =>
      rw [List.forall_mem_cons] at hitem hpush hfits
      obtain ⟨hfixed, hwritten⟩ :=
        flushSegment_spec hrcv hitem.1 hpush.1 hfits.1 hs
      obtain ⟨hrest, hend⟩ := ih hitem.2 hpush.2 hfits.2 hwritten
      unfold flushSegments
      exact ⟨by rw [List.map_cons, List.map_cons, ← hfixed, ← hrest], hend⟩

@[simp] theorem sendView_probeWindow (kcp : Ikcpcb) :
    (probeWindow kcp).sendView = kcp.sendView := by
  unfold probeWindow
  dsimp only
  split_ifs <;> simp only [Ikcpcb.sendView]

@[simp] theorem recvView_probeWindow (kcp : Ikcpcb) :
    (probeWindow kcp).recvView = kcp.recvView := by
  unfold probeWindow
  dsimp only
  split_ifs <;> simp only [Ikcpcb.recvView]

@[simp] theorem sendView_updateSsthresh (kcp : Ikcpcb) (cwnd resent : BitVec 32) (s : Flushing) :
    (updateSsthresh kcp cwnd resent s).sendView = kcp.sendView := by
  unfold updateSsthresh
  dsimp only
  split_ifs <;> rfl

@[simp] theorem recvView_updateSsthresh (kcp : Ikcpcb) (cwnd resent : BitVec 32) (s : Flushing) :
    (updateSsthresh kcp cwnd resent s).recvView = kcp.recvView := by
  unfold updateSsthresh
  dsimp only
  split_ifs <;> rfl

@[simp] theorem sendView_flushControl (kcp : Ikcpcb) :
    (flushControl kcp).1.sendView = kcp.sendView :=
  sendView_probeWindow { kcp with acklist := [] }

theorem recvView_flushControl (kcp : Ikcpcb) :
    (flushControl kcp).1.recvView = { kcp.recvView with acks := [] } :=
  recvView_probeWindow { kcp with acklist := [] }

/-- The acknowledgements and the probes keep their promises. -/
theorem wellWritten_flushControl (hacks : ∀ sn ∈ kcp.recvView.acks, sn.toNat ∈ inc.received)
    (hrcv : kcp.rcvNxt.toNat ≤ inc.passed) :
    WellWritten kcp.conv out inc (flushControl kcp).2.2 := by
  have hseg : Plain kcp.conv inc
      { ikcpSegmentNew [] with
        conv := kcp.conv, cmd := IKCP_CMD_ACK, wnd := (ikcpWndUnused kcp).setWidth 16,
        una := kcp.rcvNxt } := ⟨rfl, rfl, hrcv⟩
  have hempty : WellWritten kcp.conv out inc ⟨[], []⟩ := ⟨carried_nil, by simp⟩
  have hknown : ∀ ack ∈ kcp.acklist, ack.1.toNat ∈ inc.received := fun ack hack =>
    hacks ack.1 (List.mem_map_of_mem hack)
  obtain ⟨hacked, hwacked⟩ := hempty.flushAcknowledges hseg rfl hknown kcp.mtu
  obtain ⟨hasked, hwasked⟩ :=
    hwacked.flushProbe hacked (probeWindow { kcp with acklist := [] }) IKCP_ASK_SEND (Or.inl rfl)
  exact (hwasked.flushProbe hasked _ IKCP_ASK_TELL (Or.inr rfl)).2

@[simp] theorem recvView_writeSegments (kcp : Ikcpcb) (cwnd : BitVec 32) (wnd : BitVec 16)
    (w : Writer) : (writeSegments kcp cwnd wnd w).1.recvView = kcp.recvView :=
  recvView_updateSsthresh _ _ _ _

/-- The segments are written as the log has them. -/
theorem Sending.writeSegments (h : Sending kcp.sendView out sent) (cwnd : BitVec 32)
    (hrcv : kcp.rcvNxt.toNat ≤ inc.passed) {w : Writer} (hw : WellWritten kcp.conv out inc w) :
    (writeSegments kcp cwnd wnd w).1.sendView = kcp.sendView ∧
      ∀ data ∈ (writeSegments kcp cwnd wnd w).2, Carried kcp.conv out inc data := by
  have hmem : ∀ seg ∈ kcp.sndBuf, seg.fixed ∈ kcp.sendView.buf := fun seg hseg =>
    mem_map_fixed.mpr ⟨seg, hseg, rfl⟩
  have hitem : ∀ seg ∈ kcp.sndBuf, out.log[seg.sn.toNat]? = some seg.item := fun seg hseg =>
    h.item seg.fixed (hmem seg hseg)
  have hpush : ∀ seg ∈ kcp.sndBuf, seg.cmd = IKCP_CMD_PUSH ∧ seg.conv = kcp.conv := fun seg hseg =>
    h.push seg.fixed (hmem seg hseg)
  have hfits : ∀ seg ∈ kcp.sndBuf, seg.data.length < 2 ^ 32 := fun seg hseg =>
    h.fits seg.fixed (List.mem_append_right _ (hmem seg hseg))
  have hstart : WellWritten kcp.conv out inc
      (Flushing.writer ⟨w, kcp.xmit, kcp.state, 0, false⟩) := hw
  unfold Kcp.writeSegments
  constructor
  · rw [sendView_updateSsthresh]
    unfold Ikcpcb.sendView
    rw [(flushSegments_spec hrcv hitem hpush hfits hstart).1]
  · exact (flushSegments_spec hrcv hitem hpush hfits hstart).2.ikcpOutput

theorem recvView_ikcpFlush (kcp : Ikcpcb) :
    (ikcpFlush kcp).1.recvView =
      { kcp.recvView with acks := if kcp.updated = 0 then kcp.recvView.acks else [] } := by
  unfold ikcpFlush
  split
  · rfl
  · dsimp only
    rw [recvView_writeSegments, recvView_numberSegments, recvView_flushControl]

/-- A flush numbers segments, and what it outputs keeps its promises. -/
theorem Sending.flush (h : Sending kcp.sendView out sent)
    (hacks : ∀ sn ∈ kcp.recvView.acks, sn.toNat ∈ inc.received)
    (hrcv : kcp.rcvNxt.toNat ≤ inc.passed) :
    ∃ next, Channel.SenderReaches out next ∧ Sending (ikcpFlush kcp).1.sendView next sent ∧
      ∀ data ∈ (ikcpFlush kcp).2, Carried kcp.conv next inc data := by
  unfold ikcpFlush
  split
  · exact ⟨out, .refl, h, by simp⟩
  · have hview : (flushControl kcp).1.sendView = kcp.sendView := sendView_flushControl kcp
    have hnxt : (flushControl kcp).1.rcvNxt = kcp.rcvNxt :=
      congrArg RecvView.nxt (recvView_flushControl kcp)
    have hw : WellWritten kcp.conv out inc (flushControl kcp).2.2 :=
      wellWritten_flushControl hacks hrcv
    generalize flushControl kcp = control at hview hnxt hw ⊢
    obtain ⟨kcp', wnd, w⟩ := control
    dsimp only at hview hnxt hw ⊢
    have hconv : kcp'.conv = kcp.conv := congrArg SendView.conv hview
    rw [← hview] at h
    obtain ⟨next, hreach, hnext⟩ := h.numberQueue wnd (sendWindow kcp')
    have hmoved : (Kcp.numberSegments wnd (sendWindow kcp') kcp'.sndQueue kcp').conv = kcp.conv :=
      (conv_numberSegments _ _ _ _).trans hconv
    have hrcv' : (Kcp.numberSegments wnd (sendWindow kcp') kcp'.sndQueue kcp').rcvNxt = kcp.rcvNxt :=
      (congrArg RecvView.nxt (recvView_numberSegments _ _ _ _)).trans hnxt
    generalize Kcp.numberSegments wnd (sendWindow kcp') kcp'.sndQueue kcp' = moved
      at hnext hmoved hrcv' ⊢
    obtain ⟨hsame, hout⟩ := hnext.writeSegments (sendWindow kcp') (hrcv' ▸ hrcv)
      (hmoved ▸ hw.mono hreach.frame.1)
    exact ⟨next, hreach, hsame ▸ hnext, hmoved ▸ hout⟩

end

end Kcp
end ArmyRs
