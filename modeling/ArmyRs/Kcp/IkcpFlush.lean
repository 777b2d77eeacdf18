import ArmyRs.Kcp.Ikcp

/-!
# Flushing

`ikcpFlush` fills datagrams of at most `mtu` bytes: first the acknowledgements, then the
probes, then every segment of `snd_buf` that is new, that has waited for its
retransmission time, or that was passed over often enough.  Before the segments are
written, `snd_queue` moves to `snd_buf` as far as the window allows.

`ikcpUpdate` sets the clock and flushes when it is time.
-/

namespace ArmyRs
namespace Kcp

/-! ## Datagrams -/

/-- The bytes from `buffer` to `ptr`, and the datagrams handed to the output. -/
structure Writer where
  buffer : List UInt8
  output : List (List UInt8)

/-- `ikcp_output`: an empty datagram is not sent. -/
def ikcpOutput (output : List (List UInt8)) (data : List UInt8) : List (List UInt8) :=
  if data.length = 0 then output else output ++ [data]

/-- The buffer is handed out when what is to come does not fit. -/
def Writer.makeRoom (w : Writer) (mtu : BitVec 32) (need : ℕ) : Writer :=
  if w.buffer.length + need > mtu.toNat then ⟨[], ikcpOutput w.output w.buffer⟩ else w

def Writer.write (w : Writer) (bytes : List UInt8) : Writer :=
  { w with buffer := w.buffer ++ bytes }

/-- A header, with room made for it. -/
def Writer.header (w : Writer) (mtu : BitVec 32) (seg : IKCPSEG) : Writer :=
  (w.makeRoom mtu IKCP_OVERHEAD).write (ikcpEncodeSeg seg)

/-- A segment with its data, with room made for both. -/
def Writer.segment (w : Writer) (mtu : BitVec 32) (seg : IKCPSEG) : Writer :=
  (w.makeRoom mtu (IKCP_OVERHEAD + seg.data.length)).write (seg.wire)

/-! ## Acknowledgements and probes -/

def ikcpWndUnused (kcp : Ikcpcb) : BitVec 32 :=
  if kcp.rcvQueue.length < kcp.rcvWnd.toNat then
    kcp.rcvWnd - BitVec.ofNat 32 kcp.rcvQueue.length
  else 0

/-- `seg` keeps the number and the time of the last acknowledgement. -/
def flushAcknowledges (mtu : BitVec 32) :
    List (BitVec 32 × BitVec 32) → IKCPSEG → Writer → IKCPSEG × Writer
  | [], seg, w => (seg, w)
  | (sn, ts) :: rest, seg, w =>
      let seg := { seg with sn, ts }
      flushAcknowledges mtu rest seg (w.header mtu seg)

/-- The window of the other end is asked for when it is zero, less and less often. -/
def probeWindow (kcp : Ikcpcb) : Ikcpcb :=
  if kcp.rmtWnd = 0 then
    if kcp.probeWait = 0 then
      { kcp with probeWait := IKCP_PROBE_INIT, tsProbe := kcp.current + IKCP_PROBE_INIT }
    else if itimediff kcp.current kcp.tsProbe ≥ 0 then
      let wait :=
        if kcp.probeWait.toNat < IKCP_PROBE_INIT.toNat then IKCP_PROBE_INIT else kcp.probeWait
      let wait := wait + wait / 2
      let wait := if wait.toNat > IKCP_PROBE_LIMIT.toNat then IKCP_PROBE_LIMIT else wait
      { kcp with
        probeWait := wait, tsProbe := kcp.current + wait, probe := kcp.probe ||| IKCP_ASK_SEND }
    else kcp
  else { kcp with tsProbe := 0, probeWait := 0 }

/-- The commands of a probe, where it is asked for. -/
def flushProbe (kcp : Ikcpcb) (ask : BitVec 32) (cmd : BitVec 8) (seg : IKCPSEG) (w : Writer) :
    IKCPSEG × Writer :=
  if kcp.probe &&& ask ≠ 0 then
    let seg := { seg with cmd }
    (seg, w.header kcp.mtu seg)
  else (seg, w)

/-! ## Data -/

/-- Moves what the window allows from `snd_queue` to `snd_buf`, with the next numbers. -/
def numberSegments (wnd : BitVec 16) (cwnd : BitVec 32) : List IKCPSEG → Ikcpcb → Ikcpcb
  | [], kcp => { kcp with sndQueue := [] }
  | newseg :: rest, kcp =>
      if itimediff kcp.sndNxt (kcp.sndUna + cwnd) < 0 then
        let newseg :=
          { newseg with
            conv := kcp.conv, cmd := IKCP_CMD_PUSH, wnd := wnd, ts := kcp.current,
            sn := kcp.sndNxt, una := kcp.rcvNxt, resendts := kcp.current, rto := kcp.rxRto,
            fastack := 0, xmit := 0 }
        numberSegments wnd cwnd rest
          { kcp with sndNxt := kcp.sndNxt + 1, sndBuf := kcp.sndBuf ++ [newseg] }
      else { kcp with sndQueue := newseg :: rest }

/-- What the loop over `snd_buf` keeps: the writer, the counts of `kcp`, whether a segment
was passed over and whether one was lost. -/
structure Flushing where
  writer : Writer
  xmit : BitVec 32
  state : BitVec 32
  change : ℕ
  lost : Bool

/-- Whether the segment is sent now, and what becomes of it and of the counts. -/
def needSend (kcp : Ikcpcb) (resent rtomin : BitVec 32) (segment : IKCPSEG) (s : Flushing) :
    Bool × IKCPSEG × Flushing :=
  if segment.xmit = 0 then
    (true,
      { segment with
        xmit := segment.xmit + 1, rto := kcp.rxRto,
        resendts := kcp.current + kcp.rxRto + rtomin }, s)
  else if itimediff kcp.current segment.resendts ≥ 0 then
    let rto :=
      segment.rto + (if kcp.nodelay = 0 then kcp.rxRto else kcp.rxRto.sdiv 2)
    (true, { segment with xmit := segment.xmit + 1, rto, resendts := kcp.current + rto },
      { s with xmit := s.xmit + 1, lost := true })
  else if segment.fastack.toNat ≥ resent.toNat then
    (true,
      { segment with
        xmit := segment.xmit + 1, fastack := 0, resendts := kcp.current + segment.rto },
      { s with change := s.change + 1 })
  else (false, segment, s)

def flushSegment (kcp : Ikcpcb) (resent rtomin : BitVec 32) (wnd : BitVec 16)
    (segment : IKCPSEG) (s : Flushing) : IKCPSEG × Flushing :=
  let (needsend, segment, s) := needSend kcp resent rtomin segment s
  if needsend then
    let segment := { segment with ts := kcp.current, wnd, una := kcp.rcvNxt }
    (segment,
      { s with
        writer := s.writer.segment kcp.mtu segment
        state := if segment.xmit.toNat ≥ kcp.deadLink.toNat then -1 else s.state })
  else (segment, s)

def flushSegments (kcp : Ikcpcb) (resent rtomin : BitVec 32) (wnd : BitVec 16) :
    List IKCPSEG → Flushing → List IKCPSEG × Flushing
  | [], s => ([], s)
  | segment :: rest, s =>
      let (segment, s) := flushSegment kcp resent rtomin wnd segment s
      let (rest, s) := flushSegments kcp resent rtomin wnd rest s
      (segment :: rest, s)

/-- The congestion window after a flush. -/
def updateSsthresh (kcp : Ikcpcb) (cwnd resent : BitVec 32) (s : Flushing) : Ikcpcb :=
  let atLeast (ssthresh : BitVec 32) :=
    if ssthresh.toNat < IKCP_THRESH_MIN.toNat then IKCP_THRESH_MIN else ssthresh
  let kcp : Ikcpcb :=
    if s.change ≠ 0 then
      let ssthresh := atLeast ((kcp.sndNxt - kcp.sndUna) / 2)
      { kcp with ssthresh, cwnd := ssthresh + resent, incr := (ssthresh + resent) * kcp.mss }
    else kcp
  let kcp : Ikcpcb :=
    if s.lost then
      { kcp with ssthresh := atLeast (cwnd / 2), cwnd := 1, incr := kcp.mss }
    else kcp
  if kcp.cwnd.toNat < 1 then { kcp with cwnd := 1, incr := kcp.mss } else kcp

/-- The window for new segments. -/
def sendWindow (kcp : Ikcpcb) : BitVec 32 :=
  let cwnd := imin kcp.sndWnd kcp.rmtWnd
  if kcp.nocwnd = 0 then imin kcp.cwnd cwnd else cwnd

/-! ## The flush -/

/-- The acknowledgements and the probes; the window that they told is used for the
segments as well. -/
def flushControl (kcp : Ikcpcb) : Ikcpcb × BitVec 16 × Writer :=
  let seg : IKCPSEG :=
    { ikcpSegmentNew [] with
      conv := kcp.conv, cmd := IKCP_CMD_ACK, wnd := (ikcpWndUnused kcp).setWidth 16,
      una := kcp.rcvNxt }
  let (seg, w) := flushAcknowledges kcp.mtu kcp.acklist seg ⟨[], []⟩
  let kcp := probeWindow { kcp with acklist := [] }
  let (seg, w) := flushProbe kcp IKCP_ASK_SEND IKCP_CMD_WASK seg w
  let (seg, w) := flushProbe kcp IKCP_ASK_TELL IKCP_CMD_WINS seg w
  ({ kcp with probe := 0 }, seg.wnd, w)

/-- The segments of `snd_buf`, and what remains in the buffer. -/
def writeSegments (kcp : Ikcpcb) (cwnd : BitVec 32) (wnd : BitVec 16) (w : Writer) :
    Ikcpcb × List (List UInt8) :=
  let resent := if kcp.fastresend.toInt > 0 then kcp.fastresend else 0xffffffff
  let rtomin := if kcp.nodelay = 0 then kcp.rxRto.sshiftRight 3 else 0
  let (sndBuf, s) :=
    flushSegments kcp resent rtomin wnd kcp.sndBuf ⟨w, kcp.xmit, kcp.state, 0, false⟩
  let kcp := { kcp with sndBuf, xmit := s.xmit, state := s.state }
  (updateSsthresh kcp cwnd resent s, ikcpOutput s.writer.output s.writer.buffer)

/-- The control block, and the datagrams that were output. -/
def ikcpFlush (kcp : Ikcpcb) : Ikcpcb × List (List UInt8) :=
  if kcp.updated = 0 then (kcp, [])
  else
    let (kcp, wnd, w) := flushControl kcp
    let cwnd := sendWindow kcp
    writeSegments (numberSegments wnd cwnd kcp.sndQueue kcp) cwnd wnd w

/-! ## Update -/

/-- The clock is set.  When it is far from the time of the next flush, that time is now. -/
def setClock (kcp : Ikcpcb) (current : BitVec 32) : Ikcpcb :=
  let kcp := { kcp with current }
  let kcp := if kcp.updated = 0 then { kcp with updated := 1, tsFlush := current } else kcp
  let slap := itimediff kcp.current kcp.tsFlush
  if slap ≥ 10000 ∨ slap < -10000 then { kcp with tsFlush := kcp.current } else kcp

/-- The time of the flush after this one. -/
def nextFlush (kcp : Ikcpcb) : Ikcpcb :=
  let tsFlush := kcp.tsFlush + kcp.interval
  { kcp with
    tsFlush := if itimediff kcp.current tsFlush ≥ 0 then kcp.current + kcp.interval else tsFlush }

def ikcpUpdate (kcp : Ikcpcb) (current : BitVec 32) : Ikcpcb × List (List UInt8) :=
  let kcp := setClock kcp current
  if itimediff kcp.current kcp.tsFlush ≥ 0 then ikcpFlush (nextFlush kcp) else (kcp, [])

end Kcp
end ArmyRs
