import Mathlib.Data.List.Basic

/-!
# Reading packets from a connection

`GenLongPacket` is the wire format of the game: a header of eleven bytes with the
length, the number, the type and the encoding of a message, and then the message.
The length counts the bytes behind the number.

`GameServer.process_data` appends what was received to the buffer of the
connection and parses packets from the front of the buffer, `MAX_BATCH_NUM` at
most, which it hands to the dispatcher.

`ServerEncoding.decode` is a parameter.  It gets the bytes of the message, or
nothing when the length is too small for a header, and the encoding.
-/

namespace ArmyRs
namespace Server

/-- What decoding a message comes to. -/
inductive Decoded (Msg : Type*)
  | message (msg : Msg)
  /-- The message is `nil`. -/
  | missing
  | raises
  deriving DecidableEq, Repr

/-! ## The wire format -/

/-- A big-endian integer. -/
def bigEndian (bytes : List UInt8) : Nat :=
  bytes.foldl (fun value byte => value * 256 + byte.toNat) 0

/-- An integer directive of `unpack`: with too few bytes left it gives `nil` and
takes none. -/
def takeInt (size : Nat) (buf : List UInt8) : Option Nat × List UInt8 :=
  if size ≤ buf.length then (some (bigEndian (buf.take size)), buf.drop size) else (none, buf)

structure Unpacked where
  len : Option Nat
  n : Option Nat
  t : Option Nat
  e : Option Nat
  data : List UInt8
  deriving DecidableEq, Repr

/-- `buf.unpack('NNnCa*')`. -/
def unpack (buf : List UInt8) : Unpacked :=
  let len := takeInt 4 buf
  let n := takeInt 4 len.2
  let t := takeInt 2 n.2
  let e := takeInt 1 t.2
  { len := len.1, n := n.1, t := t.1, e := e.1, data := e.2 }

structure GenLongPacket (Msg : Type*) where
  len : Option Nat
  n : Option Nat
  t : Option Nat
  e : Option Nat
  msg : Option Msg
  deriving DecidableEq, Repr

namespace GenLongPacket

variable {Msg : Type*}

/-- A packet that nothing has been parsed into.  The encoding of a new packet is a
name, which no comparison gets to see. -/
def new : GenLongPacket Msg where
  len := none
  n := none
  t := none
  e := none
  msg := none

/-- `data[0, len - 7]`. -/
def messageBytes (data : List UInt8) (len : Nat) : Option (List UInt8) :=
  if 7 ≤ len then some (data.take (len - 7)) else none

/-- `parse!`: the packet and what is left of the buffer, or nothing when decoding
raises.  Only a complete packet is sliced off. -/
def parse (decode : Option (List UInt8) → Nat → Decoded Msg) (buf : List UInt8) :
    Option (GenLongPacket Msg × List UInt8) :=
  if buf.length = 0 then some (new, buf)
  else
    let fields := unpack buf
    let packet : GenLongPacket Msg :=
      { len := fields.len, n := fields.n, t := fields.t, e := fields.e, msg := none }
    match fields.len, fields.n, fields.t, fields.e with
    | some len, some _, some _, some e =>
        if len ≤ fields.data.length + 7 then
          match decode (messageBytes fields.data len) e with
          | .raises => none
          | .missing => some (packet, buf.drop (len + 4))
          | .message msg => some ({ packet with msg := some msg }, buf.drop (len + 4))
        else some (packet, buf)
    | _, _, _, _ => some (packet, buf)

/-- `complete?`. -/
def complete (packet : GenLongPacket Msg) : Bool :=
  packet.msg.isSome

/-- `valid?`: a valid packet must be encrypted. -/
def valid (packet : GenLongPacket Msg) : Bool :=
  decide (2 ≤ packet.e.getD 0)

end GenLongPacket

/-! ## The connection -/

/-- `MAX_BATCH_NUM`. -/
def maxBatchNum : Nat := 30

variable {Msg : Type*}

/-- The loop of `process_data`, with what it may still add to the batch.  When
decoding raises, the packets of the batch are lost. -/
def readPackets (decode : Option (List UInt8) → Nat → Decoded Msg) :
    Nat → List UInt8 → Option (List (GenLongPacket Msg)) × List UInt8
  | 0, buf => (some [], buf)
  | room + 1, buf =>
      match GenLongPacket.parse decode buf with
      | none => (none, buf)
      | some (packet, rest) =>
          if packet.complete && packet.valid then
            let more := readPackets decode room rest
            (more.1.map fun packets => packet :: packets, more.2)
          else (some [], rest)

/-- A connection: `@recv_buf`, and the packets handed to the dispatcher so far. -/
structure GameServer (Msg : Type*) where
  recvBuf : List UInt8
  dispatched : List (GenLongPacket Msg)

def GameServer.new : GameServer Msg where
  recvBuf := []
  dispatched := []

/-- `process_data`. -/
def GameServer.processData (decode : Option (List UInt8) → Nat → Decoded Msg)
    (server : GameServer Msg) (data : List UInt8) : GameServer Msg :=
  let packets := readPackets decode maxBatchNum (server.recvBuf ++ data)
  { recvBuf := packets.2, dispatched := server.dispatched ++ packets.1.getD [] }

/-- What a connection receives, chunk by chunk. -/
def GameServer.receive (decode : Option (List UInt8) → Nat → Decoded Msg)
    (server : GameServer Msg) (chunks : List (List UInt8)) : GameServer Msg :=
  chunks.foldl (GameServer.processData decode) server

end Server
end ArmyRs
