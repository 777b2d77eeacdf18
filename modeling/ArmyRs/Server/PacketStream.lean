import Mathlib.Data.List.Induction
import Mathlib.Data.List.TakeWhile
import ArmyRs.Foundation.Framing
import ArmyRs.Server.GameServer

/-!
# The packets of a stream

The header of a packet tells where the next one starts, so that the complete
packets of a stream are a matter of its bytes alone: `packets`.  A connection
should have dispatched these after every chunk (`AllDispatched`).

`process_data` stops after thirty packets, at a packet that is not valid, and when
decoding raises, in which case it drops the batch; what is left in the buffer
waits for the next chunk.  `Whole` says of the frames in the buffer that none of
this keeps a packet back, and `allDispatched_iff` that nothing less will do.
-/

namespace ArmyRs
namespace Server

open Foundation

/-! ## Frames -/

/-- A packet on the wire. -/
structure Frame where
  len : Nat
  n : Nat
  t : Nat
  e : Nat
  body : Option (List UInt8)
  deriving DecidableEq, Repr

/-- The first frame of a buffer that holds a header and the message behind it. -/
def cutFrame (buf : List UInt8) : Option (Frame × List UInt8) :=
  match unpack buf with
  | ⟨some len, some n, some t, some e, data⟩ =>
      if len ≤ data.length + 7 then
        some (⟨len, n, t, e, GenLongPacket.messageBytes data len⟩, buf.drop (len + 4))
      else none
  | _ => none

theorem takeInt_eq_some {size value : Nat} {buf : List UInt8}
    (h : (takeInt size buf).1 = some value) :
    size ≤ buf.length ∧ (takeInt size buf).2 = buf.drop size := by
  unfold takeInt at h ⊢
  split at h
  · next hsize => exact ⟨hsize, by rw [if_pos hsize]⟩
  · cases h

theorem takeInt_append {size : Nat} {buf : List UInt8} (h : size ≤ buf.length)
    (more : List UInt8) :
    takeInt size (buf ++ more) = ((takeInt size buf).1, (takeInt size buf).2 ++ more) := by
  unfold takeInt
  rw [if_pos h, if_pos (by rw [List.length_append]; omega), List.take_append_of_le_length h,
    List.drop_append_of_le_length h]

/-- A buffer with a full header: the fields are those of the first eleven bytes. -/
theorem unpack_full {buf : List UInt8} {len n t e : Nat} {data : List UInt8}
    (h : unpack buf = ⟨some len, some n, some t, some e, data⟩) :
    11 ≤ buf.length ∧ data = buf.drop 11 ∧
      ∀ more, unpack (buf ++ more) = ⟨some len, some n, some t, some e, data ++ more⟩ := by
  simp only [unpack, Unpacked.mk.injEq] at h
  obtain ⟨hlen, hn, ht, he, hdata⟩ := h
  obtain ⟨hlenSize, hlenRest⟩ := takeInt_eq_some hlen
  obtain ⟨hnSize, hnRest⟩ := takeInt_eq_some hn
  obtain ⟨htSize, htRest⟩ := takeInt_eq_some ht
  obtain ⟨heSize, heRest⟩ := takeInt_eq_some he
  refine ⟨?_, ?_, ?_⟩
  · rw [htRest, hnRest, hlenRest] at heSize
    simp only [List.length_drop] at heSize
    omega
  · rw [← hdata, heRest, htRest, hnRest, hlenRest]
    simp
  · intro more
    simp only [unpack]
    rw [takeInt_append hlenSize, takeInt_append hnSize, takeInt_append htSize,
      takeInt_append heSize]
    simp only [hlen, hn, ht, he, hdata]

theorem cutFrame_eq_some {buf rest : List UInt8} {frame : Frame}
    (h : cutFrame buf = some (frame, rest)) :
    ∃ data, unpack buf = ⟨some frame.len, some frame.n, some frame.t, some frame.e, data⟩ ∧
      frame.len ≤ data.length + 7 ∧
      frame.body = GenLongPacket.messageBytes data frame.len ∧
      rest = buf.drop (frame.len + 4) := by
  unfold cutFrame at h
  split at h
  · next len n t e data hunpack =>
    split at h
    · next hlen =>
      cases h
      exact ⟨data, hunpack, hlen, rfl, rfl⟩
    · cases h
  · cases h

theorem messageBytes_append {len : Nat} {data : List UInt8} (h : len ≤ data.length + 7)
    (more : List UInt8) :
    GenLongPacket.messageBytes (data ++ more) len = GenLongPacket.messageBytes data len := by
  unfold GenLongPacket.messageBytes
  split
  · rw [List.take_append_of_le_length (by omega)]
  · rfl

/-- The wire format cuts a stream into frames. -/
def wireFormat : Framing UInt8 Frame where
  cut := cutFrame
  cut_shorter := by
    intro buf frame rest hcut
    obtain ⟨data, hunpack, -, -, rfl⟩ := cutFrame_eq_some hcut
    obtain ⟨hheader, -, -⟩ := unpack_full hunpack
    rw [List.length_drop]
    omega
  cut_append := by
    intro buf frame rest hcut more
    obtain ⟨data, hunpack, hlen, hbody, rfl⟩ := cutFrame_eq_some hcut
    obtain ⟨hheader, rfl, happend⟩ := unpack_full hunpack
    have hlong : frame.len ≤ (buf.drop 11 ++ more).length + 7 := by
      rw [List.length_append]
      omega
    have hinside : frame.len + 4 ≤ buf.length := by
      rw [List.length_drop] at hlen
      omega
    unfold cutFrame
    rw [happend more]
    dsimp only
    rw [if_pos hlong, messageBytes_append hlen, ← hbody, List.drop_append_of_le_length hinside]

/-- The frames of some bytes. -/
def framesOf (bytes : List UInt8) : List Frame :=
  (wireFormat.frames bytes).1

/-! ## Packets -/

variable {Msg : Type*} (decode : Option (List UInt8) → Nat → Decoded Msg)

/-- The packet in a frame, when its message is there and it is encrypted. -/
def packetOf (frame : Frame) : Option (GenLongPacket Msg) :=
  match decode frame.body frame.e with
  | .message msg =>
      if 2 ≤ frame.e then some ⟨some frame.len, some frame.n, some frame.t, some frame.e, some msg⟩
      else none
  | _ => none

/-- The packets of some frames. -/
def packetsOf (frames : List Frame) : List (GenLongPacket Msg) :=
  frames.filterMap (packetOf decode)

/-- The complete packets of some bytes. -/
def packets (bytes : List UInt8) : List (GenLongPacket Msg) :=
  packetsOf decode (framesOf bytes)

/-- After each chunk every complete packet that was received has been dispatched. -/
def AllDispatched (chunks : List (List UInt8)) : Prop :=
  ∀ received, received <+: chunks →
    (GameServer.new.receive decode received).dispatched = packets decode received.flatten

/-! ## A batch, frame by frame -/

/-- The loop of `process_data` over the frames of the buffer. -/
def takeBatch : Nat → List Frame → Option (List (GenLongPacket Msg)) × List Frame
  | 0, frames => (some [], frames)
  | _ + 1, [] => (some [], [])
  | room + 1, frame :: frames =>
      match decode frame.body frame.e with
      | .raises => (none, frame :: frames)
      | _ =>
          match packetOf decode frame with
          | none => (some [], frames)
          | some packet =>
              let more := takeBatch room frames
              (more.1.map fun packets => packet :: packets, more.2)

variable {decode}

/-- Without a complete frame nothing is parsed, and nothing is sliced off. -/
theorem parse_of_none {buf : List UInt8} (hcut : cutFrame buf = none) :
    ∃ packet, GenLongPacket.parse decode buf = some (packet, buf) ∧ packet.complete = false := by
  unfold GenLongPacket.parse
  split
  · exact ⟨_, rfl, rfl⟩
  · dsimp only
    split
    · next len n t e hlen hn ht he =>
      split
      · next hlength =>
        exfalso
        have hunpack : unpack buf = ⟨some len, some n, some t, some e, (unpack buf).data⟩ := by
          rw [← hlen, ← hn, ← ht, ← he]
        unfold cutFrame at hcut
        rw [hunpack] at hcut
        simp [hlength] at hcut
      · exact ⟨_, rfl, rfl⟩
    · exact ⟨_, rfl, rfl⟩

/-- What parsing a frame comes to. -/
theorem parse_of_some {buf rest : List UInt8} {frame : Frame}
    (hcut : cutFrame buf = some (frame, rest)) :
    GenLongPacket.parse decode buf =
      match decode frame.body frame.e with
      | .raises => none
      | .missing => some (⟨some frame.len, some frame.n, some frame.t, some frame.e, none⟩, rest)
      | .message msg =>
          some (⟨some frame.len, some frame.n, some frame.t, some frame.e, some msg⟩, rest) := by
  obtain ⟨data, hunpack, hlen, hbody, rfl⟩ := cutFrame_eq_some hcut
  obtain ⟨hheader, -, -⟩ := unpack_full hunpack
  unfold GenLongPacket.parse
  rw [if_neg (by omega), hunpack]
  dsimp only
  rw [if_pos hlen]
  cases hdecode : decode frame.body frame.e with
  | message msg => simp [← hbody, hdecode]
  | missing => simp [← hbody, hdecode]
  | raises => simp [← hbody, hdecode]

/-- The loop reads the frames of the buffer, and leaves the bytes of those that
it did not take. -/
theorem readPackets_eq (room : Nat) (buf : List UInt8) :
    (readPackets decode room buf).1 = (takeBatch decode room (framesOf buf)).1 ∧
      wireFormat.frames (readPackets decode room buf).2 =
        ((takeBatch decode room (framesOf buf)).2, (wireFormat.frames buf).2) := by
  unfold framesOf
  induction room generalizing buf with
  | zero => exact ⟨rfl, rfl⟩
  | succ room ih =>
      cases hcut : cutFrame buf with
      | none =>
          obtain ⟨packet, hparse, hcomplete⟩ := @parse_of_none _ decode buf hcut
          have hframes : wireFormat.frames buf = ([], buf) := Framing.frames_of_none hcut
          unfold readPackets
          rw [hparse, hframes]
          simp [hcomplete, takeBatch, hframes]
      | some pair =>
          obtain ⟨frame, rest⟩ := pair
          have hframes : wireFormat.frames buf = _ := Framing.frames_of_some hcut
          have hparse := @parse_of_some _ decode buf rest frame hcut
          obtain ⟨hbatch, hleft⟩ := ih rest
          unfold readPackets
          rw [hparse, hframes]
          unfold takeBatch packetOf
          cases hdecode : decode frame.body frame.e with
          | raises => simp [hframes]
          | missing => simp [GenLongPacket.complete]
          | message msg =>
              by_cases he : 2 ≤ frame.e
              · simp [GenLongPacket.complete, GenLongPacket.valid, he, hbatch, hleft]
              · simp [GenLongPacket.complete, GenLongPacket.valid, he]

/-! ## When a batch holds all packets -/

variable (decode)

/-- The frame holds a packet. -/
def HoldsPacket (frame : Frame) : Bool :=
  (packetOf decode frame).isSome

/-- The first frame holds a message that raises. -/
def RaisesFirst : List Frame → Bool
  | [] => false
  | frame :: _ =>
      match decode frame.body frame.e with
      | .raises => true
      | _ => false

/-- The frames in front that hold packets are no more than a batch takes, no packet
comes behind them, and a message that raises comes first or behind a full batch. -/
def Whole (frames : List Frame) : Prop :=
  (frames.takeWhile (HoldsPacket decode)).length ≤ maxBatchNum ∧
    (∀ frame ∈ frames.dropWhile (HoldsPacket decode), packetOf decode frame = none) ∧
    (frames.takeWhile (HoldsPacket decode) = [] ∨
      (frames.takeWhile (HoldsPacket decode)).length = maxBatchNum ∨
      RaisesFirst decode (frames.dropWhile (HoldsPacket decode)) = false)

variable {decode}

theorem packetOf_of_raises {frame : Frame} (h : decode frame.body frame.e = .raises) :
    packetOf decode frame = none := by
  simp [packetOf, h]

theorem packetsOf_append (frames others : List Frame) :
    packetsOf decode (frames ++ others) = packetsOf decode frames ++ packetsOf decode others :=
  List.filterMap_append

theorem packetsOf_eq_nil_iff {frames : List Frame} :
    packetsOf decode frames = [] ↔ ∀ frame ∈ frames, packetOf decode frame = none :=
  List.filterMap_eq_nil_iff

/-- Frames that hold packets are as many as their packets. -/
theorem length_packetsOf {frames : List Frame}
    (h : ∀ frame ∈ frames, HoldsPacket decode frame = true) :
    (packetsOf decode frames).length = frames.length := by
  induction frames with
  | nil => rfl
  | cons frame frames ih =>
      obtain ⟨packet, hpacket⟩ := Option.isSome_iff_exists.mp (h frame List.mem_cons_self)
      have hrest := ih fun other hother => h other (List.mem_cons_of_mem _ hother)
      unfold packetsOf at hrest ⊢
      rw [List.filterMap_cons, hpacket]
      simp [hrest]

theorem length_packetsOf_takeWhile (frames : List Frame) :
    (packetsOf decode (frames.takeWhile (HoldsPacket decode))).length =
      (frames.takeWhile (HoldsPacket decode)).length :=
  length_packetsOf fun _ hframe => List.mem_takeWhile_imp hframe

theorem packetsOf_split (frames : List Frame) :
    packetsOf decode frames =
      packetsOf decode (frames.takeWhile (HoldsPacket decode)) ++
        packetsOf decode (frames.dropWhile (HoldsPacket decode)) := by
  rw [← packetsOf_append, List.takeWhile_append_dropWhile]

/-- A batch takes the packets in front, up to its room; it is lost when a message
raises before it is full. -/
theorem takeBatch_fst (room : Nat) (frames : List Frame) :
    (takeBatch decode room frames).1 =
      if room ≤ (frames.takeWhile (HoldsPacket decode)).length then
        some ((packetsOf decode (frames.takeWhile (HoldsPacket decode))).take room)
      else if RaisesFirst decode (frames.dropWhile (HoldsPacket decode)) then none
      else some (packetsOf decode (frames.takeWhile (HoldsPacket decode))) := by
  induction frames generalizing room with
  | nil => cases room <;> simp [takeBatch, packetsOf, RaisesFirst]
  | cons frame frames ih =>
      cases room with
      | zero => simp [takeBatch]
      | succ room =>
          cases hpacket : packetOf decode frame with
          | none =>
              have hholds : HoldsPacket decode frame = false := by simp [HoldsPacket, hpacket]
              unfold takeBatch
              rw [hpacket]
              cases hdecode : decode frame.body frame.e <;>
                simp [hholds, hdecode, packetsOf, RaisesFirst]
          | some packet =>
              have hholds : HoldsPacket decode frame = true := by simp [HoldsPacket, hpacket]
              have hraises : decode frame.body frame.e ≠ .raises := by
                intro h
                rw [packetOf_of_raises h] at hpacket
                cases hpacket
              have hbatch : (takeBatch decode (room + 1) (frame :: frames)).1 =
                  (takeBatch decode room frames).1.map fun packets => packet :: packets := by
                conv_lhs => unfold takeBatch
                rw [hpacket]
                cases hdecode : decode frame.body frame.e with
                | raises => exact absurd hdecode hraises
                | message msg => rfl
                | missing => rfl
              rw [hbatch, ih room, List.takeWhile_cons_of_pos hholds,
                List.dropWhile_cons_of_pos hholds]
              have hcons : packetsOf decode (frame :: frames.takeWhile (HoldsPacket decode)) =
                  packet :: packetsOf decode (frames.takeWhile (HoldsPacket decode)) := by
                simp [packetsOf, hpacket]
              rw [hcons, List.length_cons, List.take_succ_cons]
              simp only [Nat.add_le_add_iff_right]
              split
              · rfl
              · split <;> rfl

/-- A batch dispatches all packets of the buffer exactly when they are whole. -/
theorem takeBatch_eq_iff (frames : List Frame) :
    (takeBatch decode maxBatchNum frames).1.getD [] = packetsOf decode frames ↔
      Whole decode frames := by
  rw [takeBatch_fst, packetsOf_split frames]
  unfold Whole
  rw [← packetsOf_eq_nil_iff]
  generalize hrest : frames.dropWhile (HoldsPacket decode) = rest
  have hlength := @length_packetsOf_takeWhile _ decode frames
  generalize hfront : frames.takeWhile (HoldsPacket decode) = front at hlength ⊢
  have hempty : front = [] ↔ packetsOf decode front = [] := by
    rw [← List.length_eq_zero_iff, ← List.length_eq_zero_iff, hlength]
  split
  · next hfull =>
    constructor
    · intro heq
      have hcount := congrArg List.length heq
      simp only [Option.getD_some, List.length_take, List.length_append] at hcount
      have hnone : (packetsOf decode rest).length = 0 := by omega
      exact ⟨by omega, List.length_eq_zero_iff.mp hnone, .inr (.inl (by omega))⟩
    · rintro ⟨hroom, hnone, -⟩
      rw [hnone, List.append_nil, Option.getD_some]
      exact List.take_of_length_le (by omega)
  · next hroom =>
    split
    · next hraises =>
      constructor
      · intro heq
        have hnil := List.append_eq_nil_iff.mp heq.symm
        exact ⟨by omega, hnil.2, .inl (hempty.mpr hnil.1)⟩
      · rintro ⟨-, hnone, hnil | hfull | hdecodes⟩
        · rw [hnone, hempty.mp hnil]
          rfl
        · omega
        · rw [hdecodes] at hraises
          cases hraises
    · next hdecodes =>
      constructor
      · intro heq
        refine ⟨by omega, List.append_cancel_left (heq.symm.trans (List.append_nil _).symm), ?_⟩
        exact .inr (.inr (Bool.not_eq_true _ ▸ hdecodes))
      · rintro ⟨-, hnone, -⟩
        rw [hnone, List.append_nil]
        rfl

/-- A batch dispatches packets of the frames that it takes, in their order. -/
theorem takeBatch_sublist (room : Nat) (frames : List Frame) :
    ∃ taken, frames = taken ++ (takeBatch decode room frames).2 ∧
      ((takeBatch decode room frames).1.getD []).Sublist (packetsOf decode taken) := by
  induction frames generalizing room with
  | nil => cases room <;> exact ⟨[], rfl, List.nil_sublist _⟩
  | cons frame frames ih =>
      cases room with
      | zero => exact ⟨[], rfl, List.nil_sublist _⟩
      | succ room =>
          unfold takeBatch
          cases hdecode : decode frame.body frame.e with
          | raises => exact ⟨[], rfl, List.nil_sublist _⟩
          | missing =>
              refine ⟨[frame], ?_, ?_⟩ <;> simp [packetOf, hdecode]
          | message msg =>
              cases hpacket : packetOf decode frame with
              | none => exact ⟨[frame], by simp, by simp⟩
              | some packet =>
                  obtain ⟨taken, htaken, hsub⟩ := ih room
                  refine ⟨frame :: taken, by rw [List.cons_append, ← htaken], ?_⟩
                  have hcons : packetsOf decode (frame :: taken) =
                      packet :: packetsOf decode taken := by
                    simp [packetsOf, hpacket]
                  rw [hcons]
                  dsimp only
                  cases hbatch : (takeBatch decode room frames).1 with
                  | none => exact List.nil_sublist _
                  | some packets =>
                      rw [hbatch] at hsub
                      exact hsub.cons_cons packet

/-! ## A connection -/

/-- What a connection has done with the bytes that it received: the frames that
it took from the buffer, of which it dispatched packets in their order. -/
structure Reading (decode : Option (List UInt8) → Nat → Decoded Msg) (bytes : List UInt8)
    (server : GameServer Msg) (taken : List Frame) : Prop where
  frames : wireFormat.frames bytes =
    (taken ++ framesOf server.recvBuf, (wireFormat.frames server.recvBuf).2)
  dispatched : server.dispatched.Sublist (packetsOf decode taken)

theorem reading_new : Reading decode [] (GameServer.new : GameServer Msg) [] where
  frames := rfl
  dispatched := List.Sublist.refl _

section

variable {bytes : List UInt8} {server : GameServer Msg} {taken : List Frame}

/-- The frames of the bytes with one chunk more. -/
theorem Reading.framesOf_append (h : Reading decode bytes server taken) (data : List UInt8) :
    wireFormat.frames (bytes ++ data) =
      (taken ++ framesOf (server.recvBuf ++ data),
        (wireFormat.frames (server.recvBuf ++ data)).2) := by
  have hbuf : wireFormat.frames (server.recvBuf ++ data) = _ :=
    Framing.frames_append server.recvBuf data
  unfold framesOf
  rw [Framing.frames_append, h.frames, hbuf]
  simp [framesOf]

theorem Reading.processData (h : Reading decode bytes server taken) (data : List UInt8) :
    ∃ more, Reading decode (bytes ++ data) (server.processData decode data) (taken ++ more) := by
  obtain ⟨hbatch, hleft⟩ := @readPackets_eq _ decode maxBatchNum (server.recvBuf ++ data)
  obtain ⟨more, hmore, hsub⟩ :=
    @takeBatch_sublist _ decode maxBatchNum (framesOf (server.recvBuf ++ data))
  refine ⟨more, ?_, ?_⟩
  · rw [h.framesOf_append data]
    unfold GameServer.processData framesOf at *
    dsimp only
    rw [hleft, List.append_assoc, ← hmore]
  · unfold GameServer.processData
    dsimp only
    rw [packetsOf_append, hbatch]
    exact h.dispatched.append hsub

/-- When everything received has been dispatched, no packet is left in the
buffer. -/
theorem Reading.packets_eq (h : Reading decode bytes server taken) :
    packets decode bytes = packetsOf decode taken ++ packets decode server.recvBuf := by
  have hframes : framesOf bytes = taken ++ framesOf server.recvBuf := by
    rw [framesOf, h.frames]
  rw [packets, hframes, packetsOf_append, packets]

theorem Reading.dispatched_eq_iff (h : Reading decode bytes server taken) :
    server.dispatched = packets decode bytes ↔
      server.dispatched = packetsOf decode taken ∧ packets decode server.recvBuf = [] := by
  rw [h.packets_eq]
  constructor
  · intro heq
    have hlength := h.dispatched.length_le
    have hlengths := congrArg List.length heq
    rw [List.length_append] at hlengths
    have hnil : packets decode server.recvBuf = [] := List.length_eq_zero_iff.mp (by omega)
    rw [hnil, List.append_nil] at heq
    exact ⟨heq, hnil⟩
  · rintro ⟨hdispatched, hnil⟩
    rw [hnil, List.append_nil, hdispatched]

/-- A connection that has dispatched everything dispatches the next chunk's packets
exactly when the frames of the buffer are whole. -/
theorem Reading.processData_iff (h : Reading decode bytes server taken)
    (hall : server.dispatched = packets decode bytes) (data : List UInt8) :
    (server.processData decode data).dispatched = packets decode (bytes ++ data) ↔
      Whole decode (framesOf (server.recvBuf ++ data)) := by
  obtain ⟨hdispatched, -⟩ := h.dispatched_eq_iff.mp hall
  have hframes : framesOf (bytes ++ data) = taken ++ framesOf (server.recvBuf ++ data) := by
    rw [framesOf, h.framesOf_append data]
  rw [packets, hframes, packetsOf_append, ← takeBatch_eq_iff]
  unfold GameServer.processData
  dsimp only
  rw [(readPackets_eq maxBatchNum (server.recvBuf ++ data)).1, hdispatched]
  exact List.append_cancel_left_eq _ _ _ |>.to_iff

end

/-- The frames in the buffer are whole at each chunk. -/
def WholeChunks (decode : Option (List UInt8) → Nat → Decoded Msg) (server : GameServer Msg) :
    List (List UInt8) → Prop
  | [] => True
  | data :: chunks =>
      Whole decode (framesOf (server.recvBuf ++ data)) ∧
        WholeChunks decode (server.processData decode data) chunks

theorem wholeChunks_append {server : GameServer Msg} {chunks others : List (List UInt8)} :
    WholeChunks decode server (chunks ++ others) ↔
      WholeChunks decode server chunks ∧
        WholeChunks decode (server.receive decode chunks) others := by
  induction chunks generalizing server with
  | nil => simp [WholeChunks, GameServer.receive]
  | cons data chunks ih =>
      simp only [List.cons_append, WholeChunks, ih, and_assoc]
      rfl

theorem reading_receive (chunks : List (List UInt8)) :
    ∃ taken, Reading decode chunks.flatten (GameServer.new.receive decode chunks) taken := by
  induction chunks using List.reverseRecOn with
  | nil => exact ⟨[], reading_new⟩
  | append_singleton chunks data ih =>
      obtain ⟨taken, hreading⟩ := ih
      obtain ⟨more, hmore⟩ := hreading.processData data
      refine ⟨taken ++ more, ?_⟩
      simpa [GameServer.receive] using hmore

theorem allDispatched_append_singleton {chunks : List (List UInt8)} {data : List UInt8} :
    AllDispatched decode (chunks ++ [data]) ↔
      AllDispatched decode chunks ∧
        (GameServer.new.receive decode (chunks ++ [data])).dispatched =
          packets decode (chunks ++ [data]).flatten := by
  constructor
  · intro h
    exact ⟨fun received hreceived => h received (hreceived.trans (List.prefix_append _ _)),
      h _ List.prefix_rfl⟩
  · rintro ⟨hall, hlast⟩ received hreceived
    rcases List.prefix_concat_iff.mp hreceived with rfl | hearlier
    · exact hlast
    · exact hall received hearlier

/-- After every chunk all complete packets have been dispatched exactly when the
frames in the buffer were whole at each chunk. -/
theorem allDispatched_iff_wholeChunks (chunks : List (List UInt8)) :
    AllDispatched decode chunks ↔ WholeChunks decode GameServer.new chunks := by
  induction chunks using List.reverseRecOn with
  | nil =>
      refine iff_of_true ?_ trivial
      intro received hreceived
      rw [List.prefix_nil.mp hreceived]
      rfl
  | append_singleton chunks data ih =>
      rw [allDispatched_append_singleton, wholeChunks_append, ih]
      apply and_congr_right
      intro hwhole
      obtain ⟨taken, hreading⟩ := @reading_receive _ decode chunks
      have hall := (ih.mpr hwhole) chunks List.prefix_rfl
      have hnext := hreading.processData_iff hall data
      simpa [GameServer.receive, WholeChunks] using hnext

/-- For every way of cutting a stream into chunks: all packets are dispatched after
each chunk exactly when the frames in the buffer are whole at each chunk; and two
such cuttings of a stream dispatch the same packets. -/
theorem allDispatched_iff (decode : Option (List UInt8) → Nat → Decoded Msg)
    (chunks : List (List UInt8)) :
    (AllDispatched decode chunks ↔ WholeChunks decode GameServer.new chunks) ∧
      ∀ others, others.flatten = chunks.flatten →
        WholeChunks decode GameServer.new chunks → WholeChunks decode GameServer.new others →
        (GameServer.new.receive decode others).dispatched =
          (GameServer.new.receive decode chunks).dispatched := by
  refine ⟨allDispatched_iff_wholeChunks chunks, ?_⟩
  intro others hbytes hchunks hothers
  have hleft := (allDispatched_iff_wholeChunks others).mpr hothers others List.prefix_rfl
  have hright := (allDispatched_iff_wholeChunks chunks).mpr hchunks chunks List.prefix_rfl
  rw [hleft, hright, hbytes]

/-! ## Examples -/

/-- A codec that takes the bytes of an encrypted message as they are. -/
def plain (data : Option (List UInt8)) (_e : Nat) : Decoded (List UInt8) :=
  match data with
  | some bytes => .message bytes
  | none => .raises

/-- A packet without a message, with its number. -/
def emptyPacket (n : UInt8) : List UInt8 :=
  [0, 0, 0, 7, 0, 0, 0, n, 0, 1, 6]

/-- Of thirty-one packets in one chunk the last one waits; in two chunks all are
dispatched. -/
theorem not_allDispatched_batch :
    ¬ AllDispatched plain [(List.replicate 31 (emptyPacket 1)).flatten] ∧
      (GameServer.new.receive plain [(List.replicate 31 (emptyPacket 1)).flatten]).dispatched ≠
        (GameServer.new.receive plain
          [(List.replicate 30 (emptyPacket 1)).flatten, emptyPacket 1]).dispatched := by
  constructor
  · intro h
    have hlast := congrArg List.length (h _ List.prefix_rfl)
    revert hlast
    decide +kernel
  · intro h
    have hlength := congrArg List.length h
    revert hlength
    decide +kernel

end Server
end ArmyRs
