import ArmyRs.Kcp.Segment

/-!
# The control block of the transport

One end of a connection, as `ikcp.c` keeps it.  `ikcpSend` cuts a message into
segments and queues them, `ikcpFlush` numbers what the window allows and writes
acknowledgements, probes and segments into datagrams, `ikcpInput` reads a datagram of
the other end, and `ikcpRecv` hands out a message whose segments have all arrived.

The queues are lists, the first element in front, and the counts that the source keeps
beside them (`nsnd_que`, `nrcv_que`, `nsnd_buf`, `nrcv_buf`, `ackcount`) are their
lengths.  Memory is taken to be available.
-/

namespace ArmyRs
namespace Kcp

def IKCP_RTO_NDL : BitVec 32 := 10
def IKCP_RTO_MIN : BitVec 32 := 100
def IKCP_RTO_DEF : BitVec 32 := 200
def IKCP_RTO_MAX : BitVec 32 := 60000
def IKCP_ASK_SEND : BitVec 32 := 1
def IKCP_ASK_TELL : BitVec 32 := 2
def IKCP_WND_SND : BitVec 32 := 32
def IKCP_WND_RCV : BitVec 32 := 32
def IKCP_MTU_DEF : BitVec 32 := 1400
def IKCP_INTERVAL : BitVec 32 := 100
def IKCP_DEADLINK : BitVec 32 := 20
def IKCP_THRESH_INIT : BitVec 32 := 2
def IKCP_THRESH_MIN : BitVec 32 := 2
def IKCP_PROBE_INIT : BitVec 32 := 7000
def IKCP_PROBE_LIMIT : BitVec 32 := 120000

/-- `IKCPCB`.  The words `rx_*`, `fastresend` and `nocwnd` are signed in the source. -/
structure Ikcpcb where
  conv : BitVec 32
  mtu : BitVec 32
  mss : BitVec 32
  state : BitVec 32
  sndUna : BitVec 32
  sndNxt : BitVec 32
  rcvNxt : BitVec 32
  ssthresh : BitVec 32
  rxRttval : BitVec 32
  rxSrtt : BitVec 32
  rxRto : BitVec 32
  rxMinrto : BitVec 32
  sndWnd : BitVec 32
  rcvWnd : BitVec 32
  rmtWnd : BitVec 32
  cwnd : BitVec 32
  probe : BitVec 32
  current : BitVec 32
  interval : BitVec 32
  tsFlush : BitVec 32
  xmit : BitVec 32
  nodelay : BitVec 32
  updated : BitVec 32
  tsProbe : BitVec 32
  probeWait : BitVec 32
  deadLink : BitVec 32
  incr : BitVec 32
  sndQueue : List IKCPSEG
  rcvQueue : List IKCPSEG
  sndBuf : List IKCPSEG
  rcvBuf : List IKCPSEG
  acklist : List (BitVec 32 × BitVec 32)
  fastresend : BitVec 32
  nocwnd : BitVec 32
deriving DecidableEq

def ikcpCreate (conv : BitVec 32) : Ikcpcb where
  conv := conv
  mtu := IKCP_MTU_DEF
  mss := IKCP_MTU_DEF - BitVec.ofNat 32 IKCP_OVERHEAD
  state := 0
  sndUna := 0
  sndNxt := 0
  rcvNxt := 0
  ssthresh := IKCP_THRESH_INIT
  rxRttval := 0
  rxSrtt := 0
  rxRto := IKCP_RTO_DEF
  rxMinrto := IKCP_RTO_MIN
  sndWnd := IKCP_WND_SND
  rcvWnd := IKCP_WND_RCV
  rmtWnd := IKCP_WND_RCV
  cwnd := 0
  probe := 0
  current := 0
  interval := IKCP_INTERVAL
  tsFlush := IKCP_INTERVAL
  xmit := 0
  nodelay := 0
  updated := 0
  tsProbe := 0
  probeWait := 0
  deadLink := IKCP_DEADLINK
  incr := 0
  sndQueue := []
  rcvQueue := []
  sndBuf := []
  rcvBuf := []
  acklist := []
  fastresend := 0
  nocwnd := 0

/-! ## Settings -/

def ikcpSetmtu (kcp : Ikcpcb) (mtu : BitVec 32) : ℤ × Ikcpcb :=
  if mtu.toInt < 50 ∨ mtu.toInt < IKCP_OVERHEAD then (-1, kcp)
  else (0, { kcp with mtu, mss := mtu - BitVec.ofNat 32 IKCP_OVERHEAD })

/-- The bounds of the interval. -/
def boundInterval (interval : BitVec 32) : BitVec 32 :=
  if interval.toInt > 5000 then 5000 else if interval.toInt < 10 then 10 else interval

def ikcpNodelay (kcp : Ikcpcb) (nodelay interval resend nc : BitVec 32) : Ikcpcb :=
  let kcp :=
    if nodelay.toInt ≥ 0 then
      { kcp with nodelay, rxMinrto := if nodelay ≠ 0 then IKCP_RTO_NDL else IKCP_RTO_MIN }
    else kcp
  let kcp :=
    if interval.toInt ≥ 0 then { kcp with interval := boundInterval interval } else kcp
  let kcp := if resend.toInt ≥ 0 then { kcp with fastresend := resend } else kcp
  if nc.toInt ≥ 0 then { kcp with nocwnd := nc } else kcp

def ikcpWndsize (kcp : Ikcpcb) (sndwnd rcvwnd : BitVec 32) : Ikcpcb :=
  let kcp := if sndwnd.toInt > 0 then { kcp with sndWnd := sndwnd } else kcp
  if rcvwnd.toInt > 0 then { kcp with rcvWnd := rcvwnd } else kcp

def ikcpWaitsnd (kcp : Ikcpcb) : ℕ := kcp.sndBuf.length + kcp.sndQueue.length

/-! ## Sending -/

/-- The segments of a message, `count` of them; each but the last has the full size, and
`frg` counts those that follow. -/
def fragments (mss : ℕ) : ℕ → List UInt8 → List IKCPSEG
  | 0, _ => []
  | left + 1, buffer =>
      { ikcpSegmentNew (buffer.take mss) with frg := BitVec.ofNat 8 left } ::
        fragments mss left (buffer.drop mss)

/-- How many segments a message of this length needs. -/
def fragmentCount (mss len : ℕ) : ℕ :=
  let count := if len ≤ mss then 1 else (len + mss - 1) / mss
  if count = 0 then 1 else count

/-- Nothing sets `stream`, and the length of a buffer is not negative. -/
def ikcpSend (kcp : Ikcpcb) (buffer : List UInt8) : ℤ × Ikcpcb :=
  let count := fragmentCount kcp.mss.toNat buffer.length
  if count > 255 then (-2, kcp)
  else (0, { kcp with sndQueue := kcp.sndQueue ++ fragments kcp.mss.toNat count buffer })

/-! ## Receiving -/

def ikcpPeeksize (kcp : Ikcpcb) : ℤ :=
  match kcp.rcvQueue with
  | [] => -1
  | seg :: _ =>
      if seg.frg = 0 then seg.data.length
      else if kcp.rcvQueue.length < seg.frg.toNat + 1 then -1
      else lengthOfFirst kcp.rcvQueue
where
  /-- The length of the first message of the queue. -/
  lengthOfFirst : List IKCPSEG → ℕ
    | [] => 0
    | seg :: rest =>
        if seg.frg = 0 then seg.data.length else seg.data.length + lengthOfFirst rest

/-- The data of the first message, and the queue behind it. -/
def mergeFragment : List IKCPSEG → List UInt8 × List IKCPSEG
  | [] => ([], [])
  | seg :: rest =>
      if seg.frg = 0 then (seg.data, rest)
      else
        let (data, queue) := mergeFragment rest
        (seg.data ++ data, queue)

/-- Moves what is next from `rcv_buf` to `rcv_queue`, while there is room. -/
def moveAvailable : List IKCPSEG → Ikcpcb → Ikcpcb
  | [], kcp => { kcp with rcvBuf := [] }
  | seg :: rest, kcp =>
      if seg.sn = kcp.rcvNxt ∧ kcp.rcvQueue.length < kcp.rcvWnd.toNat then
        moveAvailable rest
          { kcp with rcvQueue := kcp.rcvQueue ++ [seg], rcvNxt := kcp.rcvNxt + 1 }
      else { kcp with rcvBuf := seg :: rest }

/-- The control block without its first message, unless that is only looked at. -/
def withoutFirst (kcp : Ikcpcb) (len : ℤ) : Ikcpcb :=
  if len < 0 then kcp else { kcp with rcvQueue := (mergeFragment kcp.rcvQueue).2 }

/-- The other end is told of the window when the queue was full and has room again. -/
def tellWindow (recover : Bool) (kcp : Ikcpcb) : Ikcpcb :=
  if kcp.rcvQueue.length < kcp.rcvWnd.toNat ∧ recover then
    { kcp with probe := kcp.probe ||| IKCP_ASK_TELL }
  else kcp

/-- The result, what was written to the buffer, and the control block.  A negative length
only looks at the message. -/
def ikcpRecv (kcp : Ikcpcb) (len : ℤ) : ℤ × List UInt8 × Ikcpcb :=
  if kcp.rcvQueue = [] then (-1, [], kcp)
  else
    let peeksize := ikcpPeeksize kcp
    if peeksize < 0 then (-2, [], kcp)
    else if peeksize > |len| then (-3, [], kcp)
    else
      let recover := kcp.rcvWnd.toNat ≤ kcp.rcvQueue.length
      let data := (mergeFragment kcp.rcvQueue).1
      let kcp := moveAvailable kcp.rcvBuf (withoutFirst kcp len)
      (data.length, data, tellWindow recover kcp)

/-! ## Acknowledgements -/

/-- The larger and the smaller of two words, as `_imax_` and `_imin_`. -/
def imax (a b : BitVec 32) : BitVec 32 := if a.toNat ≥ b.toNat then a else b
def imin (a b : BitVec 32) : BitVec 32 := if a.toNat ≤ b.toNat then a else b

def ibound (lower middle upper : BitVec 32) : BitVec 32 := imin (imax lower middle) upper

/-- The estimate of the round trip; the divisions cut off the fraction. -/
def ikcpUpdateAck (kcp : Ikcpcb) (rtt : ℤ) : Ikcpcb :=
  let (srtt, rttval) :=
    if kcp.rxSrtt = 0 then (BitVec.ofInt 32 rtt, BitVec.ofInt 32 (rtt.tdiv 2))
    else
      let delta := |rtt - kcp.rxSrtt.toInt|
      let rttval := BitVec.ofInt 32 ((3 * kcp.rxRttval.toInt + delta).tdiv 4)
      let srtt := BitVec.ofInt 32 ((7 * kcp.rxSrtt.toInt + rtt).tdiv 8)
      (if srtt.toInt < 1 then 1 else srtt, rttval)
  let rto := srtt + imax 1 (4 * rttval)
  { kcp with
    rxSrtt := srtt, rxRttval := rttval, rxRto := ibound kcp.rxMinrto rto IKCP_RTO_MAX }

def ikcpShrinkBuf (kcp : Ikcpcb) : Ikcpcb :=
  match kcp.sndBuf with
  | seg :: _ => { kcp with sndUna := seg.sn }
  | [] => { kcp with sndUna := kcp.sndNxt }

/-- The segment with this number is taken out; the numbers ascend. -/
def removeAcked (sn : BitVec 32) : List IKCPSEG → List IKCPSEG
  | [] => []
  | seg :: rest =>
      if sn = seg.sn then rest
      else if itimediff sn seg.sn < 0 then seg :: rest
      else seg :: removeAcked sn rest

/-- An acknowledgement of a number that is not outstanding changes nothing. -/
def outstanding (kcp : Ikcpcb) (sn : BitVec 32) : Bool :=
  !(itimediff sn kcp.sndUna < 0 || itimediff sn kcp.sndNxt ≥ 0)

def ikcpParseAck (kcp : Ikcpcb) (sn : BitVec 32) : Ikcpcb :=
  if outstanding kcp sn then { kcp with sndBuf := removeAcked sn kcp.sndBuf } else kcp

/-- The segments below `una` are taken from the front. -/
def removeBelow (una : BitVec 32) : List IKCPSEG → List IKCPSEG
  | [] => []
  | seg :: rest => if itimediff una seg.sn > 0 then removeBelow una rest else seg :: rest

def ikcpParseUna (kcp : Ikcpcb) (una : BitVec 32) : Ikcpcb :=
  { kcp with sndBuf := removeBelow una kcp.sndBuf }

/-- The segments in front of an acknowledged one have been passed over once more. -/
def countFastack (sn : BitVec 32) : List IKCPSEG → List IKCPSEG
  | [] => []
  | seg :: rest =>
      if itimediff sn seg.sn < 0 then seg :: rest
      else if sn ≠ seg.sn then { seg with fastack := seg.fastack + 1 } :: countFastack sn rest
      else seg :: countFastack sn rest

def ikcpParseFastack (kcp : Ikcpcb) (sn : BitVec 32) : Ikcpcb :=
  if outstanding kcp sn then { kcp with sndBuf := countFastack sn kcp.sndBuf } else kcp

def ikcpAckPush (kcp : Ikcpcb) (sn ts : BitVec 32) : Ikcpcb :=
  { kcp with acklist := kcp.acklist ++ [(sn, ts)] }

/-! ## Data -/

/-- A segment is put at its place, which is searched from the back; one that is there
already is dropped.  The list has its last element first. -/
def insertFromBack (newseg : IKCPSEG) : List IKCPSEG → List IKCPSEG
  | [] => [newseg]
  | seg :: prev =>
      if seg.sn = newseg.sn then seg :: prev
      else if itimediff newseg.sn seg.sn > 0 then newseg :: seg :: prev
      else seg :: insertFromBack newseg prev

def ikcpParseData (kcp : Ikcpcb) (newseg : IKCPSEG) : Ikcpcb :=
  if itimediff newseg.sn (kcp.rcvNxt + kcp.rcvWnd) ≥ 0 ∨ itimediff newseg.sn kcp.rcvNxt < 0 then
    kcp
  else moveAvailable (insertFromBack newseg kcp.rcvBuf.reverse).reverse kcp

/-! ## Input -/

/-- The window and the acknowledgement that every segment has. -/
def inputUna (kcp : Ikcpcb) (seg : IKCPSEG) : Ikcpcb :=
  ikcpShrinkBuf (ikcpParseUna { kcp with rmtWnd := seg.wnd.setWidth 32 } seg.una)

def inputAck (kcp : Ikcpcb) (seg : IKCPSEG) : Ikcpcb :=
  let rtt := itimediff kcp.current seg.ts
  let kcp := if rtt ≥ 0 then ikcpUpdateAck kcp rtt else kcp
  ikcpShrinkBuf (ikcpParseAck kcp seg.sn)

/-- What is not beyond the window is acknowledged, and taken when it is not old. -/
def inputPush (kcp : Ikcpcb) (seg : IKCPSEG) : Ikcpcb :=
  if itimediff seg.sn (kcp.rcvNxt + kcp.rcvWnd) < 0 then
    if itimediff seg.sn kcp.rcvNxt ≥ 0 then ikcpParseData (ikcpAckPush kcp seg.sn seg.ts) seg
    else ikcpAckPush kcp seg.sn seg.ts
  else kcp

/-- The command of a segment; a `WINS` has told its window already. -/
def inputCommand (kcp : Ikcpcb) (seg : IKCPSEG) : Ikcpcb :=
  if seg.cmd = IKCP_CMD_ACK then inputAck kcp seg
  else if seg.cmd = IKCP_CMD_PUSH then inputPush kcp seg
  else if seg.cmd = IKCP_CMD_WASK then { kcp with probe := kcp.probe ||| IKCP_ASK_TELL }
  else kcp

/-- What `ikcp_input` keeps while it reads a datagram: the largest number acknowledged,
if any was. -/
structure Reading where
  kcp : Ikcpcb
  maxack : Option (BitVec 32)

def newMaxack (maxack : Option (BitVec 32)) (seg : IKCPSEG) : Option (BitVec 32) :=
  if seg.cmd = IKCP_CMD_ACK then
    match maxack with
    | none => some seg.sn
    | some maxack => some (if itimediff seg.sn maxack > 0 then seg.sn else maxack)
  else maxack

/-- One segment; the answer is nothing when its command is unknown. -/
def inputSegment (r : Reading) (seg : IKCPSEG) : Option Reading :=
  if seg.cmd ≠ IKCP_CMD_PUSH ∧ seg.cmd ≠ IKCP_CMD_ACK ∧ seg.cmd ≠ IKCP_CMD_WASK ∧
      seg.cmd ≠ IKCP_CMD_WINS then none
  else some ⟨inputCommand (inputUna r.kcp seg) seg, newMaxack r.maxack seg⟩

/-- The segments of a datagram.  A round takes at least a header, so that the length of
the datagram bounds their number; the answer has the code of the error, or 0. -/
def inputSegments : ℕ → List UInt8 → Reading → ℤ × Reading
  | 0, _, r => (0, r)
  | fuel + 1, data, r =>
      if data.length < IKCP_OVERHEAD then (0, r)
      else
        let (header, len, data) := decodeHeader data
        if header.conv ≠ r.kcp.conv then (-1, r)
        else if data.length < len.toNat then (-2, r)
        else
          match inputSegment r { header with data := data.take len.toNat } with
          | none => (-3, r)
          | some r => inputSegments fuel (data.drop len.toNat) r

/-- The congestion window grows when the other end has received more. -/
def growWindow (kcp : Ikcpcb) : Ikcpcb :=
  if kcp.cwnd.toNat < kcp.rmtWnd.toNat then
    let mss := kcp.mss
    let kcp : Ikcpcb :=
      if kcp.cwnd.toNat < kcp.ssthresh.toNat then
        { kcp with cwnd := kcp.cwnd + 1, incr := kcp.incr + mss }
      else
        let incr := if kcp.incr.toNat < mss.toNat then mss else kcp.incr
        let incr := incr + ((mss * mss) / incr + mss / 16)
        { kcp with
          incr
          cwnd := if ((kcp.cwnd + 1) * mss).toNat ≤ incr.toNat then kcp.cwnd + 1
            else kcp.cwnd }
    if kcp.cwnd.toNat > kcp.rmtWnd.toNat then
      { kcp with cwnd := kcp.rmtWnd, incr := kcp.rmtWnd * mss }
    else kcp
  else kcp

def ikcpInput (kcp : Ikcpcb) (data : List UInt8) : ℤ × Ikcpcb :=
  if data.length < IKCP_OVERHEAD then (-1, kcp)
  else
    let una := kcp.sndUna
    let (code, r) := inputSegments data.length data ⟨kcp, none⟩
    if code ≠ 0 then (code, r.kcp)
    else
      let kcp := match r.maxack with
        | some maxack => ikcpParseFastack r.kcp maxack
        | none => r.kcp
      (0, if itimediff kcp.sndUna una > 0 then growWindow kcp else kcp)

end Kcp
end ArmyRs
