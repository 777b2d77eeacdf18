import Mathlib.Tactic
import ArmyRs.Server.PacketStream

/-!
# Writing packets

`to_wire` encodes a message and writes the header in front of it.  The encoding says
how the message is serialized, whether it is compressed and whether it is encrypted;
some encodings leave the compression to the length, and then the one that was chosen
goes into the header.

The serializers, the compressor and the cipher are parameters (`Codec`).  Where each
takes back what it has done (`Lawful`), `parse!` takes a packet back from the wire:
`parse_toWire`.
-/

namespace ArmyRs
namespace Server

open Foundation

/-! ## Integers on the wire -/

/-- An integer directive of `pack`: the last bytes of the number, the highest first. -/
def packInt : Nat → Nat → List UInt8
  | 0, _ => []
  | size + 1, value => UInt8.ofNat (value / 256 ^ size) :: packInt size value

@[simp] theorem length_packInt (size value : Nat) : (packInt size value).length = size := by
  induction size with
  | zero => rfl
  | succ size ih => simp [packInt, ih]

theorem foldl_packInt (size value start : Nat) :
    (packInt size value).foldl (fun value byte => value * 256 + byte.toNat) start =
      start * 256 ^ size + value % 256 ^ size := by
  induction size generalizing start with
  | zero => simp [packInt, Nat.mod_one]
  | succ size ih =>
      have hbyte : (UInt8.ofNat (value / 256 ^ size)).toNat = value / 256 ^ size % 256 := by simp
      have hmod : value % (256 ^ size * 256) =
          value % 256 ^ size + 256 ^ size * (value / 256 ^ size % 256) := Nat.mod_mul
      rw [packInt, List.foldl_cons, ih, hbyte, pow_succ, hmod]
      ring

/-- What fits into an integer directive is read as it was written. -/
theorem takeInt_packInt {size value : Nat} (hvalue : value < 256 ^ size) (rest : List UInt8) :
    takeInt size (packInt size value ++ rest) = (some value, rest) := by
  have hread : bigEndian (packInt size value) = value := by
    rw [bigEndian, foldl_packInt, Nat.zero_mul, Nat.zero_add, Nat.mod_eq_of_lt hvalue]
  have hsize : size ≤ (packInt size value ++ rest).length := by
    rw [List.length_append, length_packInt]
    omega
  rw [takeInt, if_pos hsize, List.take_left' (length_packInt size value),
    List.drop_left' (length_packInt size value), hread]

/-! ## ServerEncoding -/

/-- The two ways of serializing. -/
inductive Format
  | msgpack
  | json
  deriving DecidableEq, Repr

/-- An encoding: the code of the header, or a name. -/
inductive Encoding
  | code (code : Nat)
  | name (name : String)
  deriving DecidableEq, Repr

/-- The libraries that encode messages.  A message may be `nil`; what cannot be
serialized raises. -/
structure Codec (Msg Nonce : Type*) where
  /-- The bytes of a message that is a string. -/
  bytes : Option Msg → Option (List UInt8)
  ofBytes : List UInt8 → Decoded Msg
  /-- `MessagePack.pack` and `JSON.generate`. -/
  pack : Format → Option Msg → Option (List UInt8)
  /-- `MessagePack.unpack` and `Oj.strict_load`. -/
  unpack : Format → List UInt8 → Decoded Msg
  compress : List UInt8 → List UInt8
  uncompress : List UInt8 → Option (List UInt8)
  encrypt : Nonce → List UInt8 → List UInt8
  decrypt : Nonce → List UInt8 → Option (List UInt8)
  /-- `comm_nonce`, where a codec state has no nonce. -/
  commNonce : Nonce

/-- A message as the outcome of decoding. -/
def decoded {Msg : Type*} : Option Msg → Decoded Msg
  | some msg => .message msg
  | none => .missing

/-- Each part of the codec takes back what it has done. -/
structure Codec.Lawful {Msg Nonce : Type*} (codec : Codec Msg Nonce) : Prop where
  ofBytes_bytes : ∀ msg data, codec.bytes msg = some data → codec.ofBytes data = decoded msg
  unpack_pack : ∀ format msg data, codec.pack format msg = some data →
    codec.unpack format data = decoded msg
  uncompress_compress : ∀ text, codec.uncompress (codec.compress text) = some text
  decrypt_encrypt : ∀ nonce text, codec.decrypt nonce (codec.encrypt nonce text) = some text

/-- `GZIP_THRESHOLD`. -/
def gzipThreshold : Nat := 128

/-- `length` of a string in UTF-8: the bytes that begin a character. -/
def charCount (text : List UInt8) : Nat :=
  (text.filter fun byte => byte.toNat / 64 ≠ 2).length

/-- `convert_encoding`. -/
def convertEncoding : Encoding → Encoding
  | .name "json" => .code 0
  | .name "json_lz4" => .code 1
  | .name "json_enc" => .code 2
  | .name "json_lz4_enc" => .code 3
  | .name "msgpack" => .code 4
  | .name "msgpack_lz4" => .code 5
  | .name "msgpack_enc" => .code 6
  | .name "msgpack_lz4_enc" => .code 7
  | .name "none" => .code 8
  | encoding => encoding

namespace Codec

variable {Msg Nonce : Type*}

/-- The text is compressed and encrypted, as the flags say. -/
def wrap (codec : Codec Msg Nonce) (nonce : Nonce) (deflated encrypted : Bool)
    (text : List UInt8) : List UInt8 :=
  let packed := if deflated then codec.compress text else text
  if encrypted then codec.encrypt nonce packed else packed

/-- The text is decrypted and uncompressed, as the flags say, and then read. -/
def unwrap (codec : Codec Msg Nonce) (nonce : Nonce) (format : Format)
    (deflated encrypted : Bool) (data : List UInt8) : Decoded Msg :=
  match if encrypted then codec.decrypt nonce data else some data with
  | none => .raises
  | some decrypted =>
      match if deflated then codec.uncompress decrypted else some decrypted with
      | none => .raises
      | some text => codec.unpack format text

/-- `encode`: the data and the encoding that goes into the header. -/
def encode (codec : Codec Msg Nonce) (msg : Option Msg) (encoding : Encoding)
    (codecState : Option Nonce) : Option (List UInt8 × Nat) :=
  let nonce := codecState.getD codec.commNonce
  match convertEncoding encoding with
  | .code 8 => (codec.bytes msg).map fun data => (data, 8)
  | .code 7 => (codec.pack .msgpack msg).map fun pack => (codec.wrap nonce true true pack, 7)
  | .code 6 => (codec.pack .msgpack msg).map fun pack => (codec.wrap nonce false true pack, 6)
  | .code 5 => (codec.pack .msgpack msg).map fun pack => (codec.wrap nonce true false pack, 5)
  | .code 4 => (codec.pack .msgpack msg).map fun pack => (codec.wrap nonce false false pack, 4)
  | .code 3 => (codec.pack .json msg).map fun json => (codec.wrap nonce true true json, 3)
  | .code 2 => (codec.pack .json msg).map fun json => (codec.wrap nonce false true json, 2)
  | .code 1 => (codec.pack .json msg).map fun json => (codec.wrap nonce true false json, 1)
  | .code 0 => (codec.pack .json msg).map fun json => (codec.wrap nonce false false json, 0)
  | .name "msgpack-auto" =>
      (codec.pack .msgpack msg).map fun pack =>
        if gzipThreshold < pack.length then (codec.wrap nonce true true pack, 7)
        else (codec.wrap nonce false true pack, 6)
  | .name "json-auto" =>
      (codec.pack .json msg).map fun json =>
        if gzipThreshold < charCount json then (codec.wrap nonce true true json, 3)
        else (codec.wrap nonce false true json, 2)
  | _ =>
      -- choose wisely
      (codec.pack .json msg).map fun json =>
        if gzipThreshold < charCount json then (codec.wrap nonce true false json, 1)
        else (codec.wrap nonce false false json, 0)

/-- `decode`, for the encoding of a header. -/
def decode (codec : Codec Msg Nonce) (codecState : Option Nonce) :
    Option (List UInt8) → Nat → Decoded Msg
  | none, e => if e = 8 then .missing else .raises
  | some data, e =>
      let nonce := codecState.getD codec.commNonce
      match e with
      | 8 => codec.ofBytes data
      | 7 => codec.unwrap nonce .msgpack true true data
      | 6 => codec.unwrap nonce .msgpack false true data
      | 5 => codec.unwrap nonce .msgpack true false data
      | 4 => codec.unwrap nonce .msgpack false false data
      | 3 => codec.unwrap nonce .json true true data
      | 2 => codec.unwrap nonce .json false true data
      | 1 => codec.unwrap nonce .json true false data
      | _ => codec.unwrap nonce .json false false data

end Codec

/-! ## The packet -/

namespace GenLongPacket

variable {Msg Nonce : Type*}

/-- The encoding of a new packet. -/
def defaultEncoding : Encoding := .name "msgpack_enc"

/-- `to_wire`, for a packet with this number, type, encoding and message. -/
def toWire (codec : Codec Msg Nonce) (n t : Nat) (e : Encoding) (msg : Option Msg)
    (encoding : Option Encoding) (codecState : Option Nonce) : Option (List UInt8) :=
  (codec.encode msg (encoding.getD e) codecState).map fun encoded =>
    let len := encoded.1.length + 7
    packInt 4 len ++ (packInt 4 n ++ (packInt 2 t ++ (packInt 1 encoded.2 ++ encoded.1)))

end GenLongPacket

section

variable {Msg Nonce : Type*} {codec : Codec Msg Nonce} {nonce : Nonce} {msg : Option Msg}
  {codecState : Option Nonce} {data text wire : List UInt8} {n t e len : Nat}
  {encoding : Encoding}

/-! ## What is encoded is decoded again -/

theorem unwrap_wrap (lawful : codec.Lawful) (format : Format) (deflated encrypted : Bool) :
    codec.unwrap nonce format deflated encrypted (codec.wrap nonce deflated encrypted text) =
      codec.unpack format text := by
  cases deflated <;> cases encrypted <;>
    simp [Codec.unwrap, Codec.wrap, lawful.uncompress_compress, lawful.decrypt_encrypt]

/-- A message that was serialized and wrapped up. -/
theorem unwrap_of_pack (lawful : codec.Lawful) {format : Format} {deflated encrypted : Bool}
    (hpack : codec.pack format msg = some text) :
    codec.unwrap nonce format deflated encrypted (codec.wrap nonce deflated encrypted text) =
      decoded msg := by
  rw [unwrap_wrap lawful, lawful.unpack_pack format msg text hpack]

/-- Whichever encoding is asked for: the data and the encoding of the header lead back
to the message. -/
theorem decode_encode (lawful : codec.Lawful)
    (hencode : codec.encode msg encoding codecState = some (data, e)) :
    codec.decode codecState (some data) e = decoded msg ∧ e ≤ 8 := by
  unfold Codec.encode at hencode
  dsimp only at hencode
  split at hencode
  all_goals
    obtain ⟨text, htext, heq⟩ := Option.map_eq_some_iff.mp hencode
  case h_1 =>
    cases heq
    exact ⟨lawful.ofBytes_bytes msg _ htext, by omega⟩
  case h_10 | h_11 | h_12 =>
    -- the length decides on the compression
    split at heq <;> cases heq <;> refine ⟨?_, by omega⟩ <;> simp only [Codec.decode] <;>
      exact unwrap_of_pack lawful htext
  all_goals
    cases heq
    refine ⟨?_, by omega⟩
    simp only [Codec.decode]
    exact unwrap_of_pack lawful htext

/-! ## The header -/

theorem unpack_header (hlen : len < 256 ^ 4) (hn : n < 256 ^ 4) (ht : t < 256 ^ 2)
    (he : e < 256 ^ 1) (rest : List UInt8) :
    unpack (packInt 4 len ++ (packInt 4 n ++ (packInt 2 t ++ (packInt 1 e ++ rest)))) =
      ⟨some len, some n, some t, some e, rest⟩ := by
  unfold unpack
  simp only [takeInt_packInt hlen, takeInt_packInt hn, takeInt_packInt ht, takeInt_packInt he]

/-- The frame of a packet, and what follows it. -/
theorem cutFrame_wire (hlen : data.length + 7 < 256 ^ 4) (hn : n < 256 ^ 4) (ht : t < 256 ^ 2)
    (he : e < 256 ^ 1) (rest : List UInt8) :
    cutFrame ((packInt 4 (data.length + 7) ++
        (packInt 4 n ++ (packInt 2 t ++ (packInt 1 e ++ data)))) ++ rest) =
      some (⟨data.length + 7, n, t, e, some data⟩, rest) := by
  have hwire : (packInt 4 (data.length + 7) ++
      (packInt 4 n ++ (packInt 2 t ++ (packInt 1 e ++ data)))) ++ rest =
      packInt 4 (data.length + 7) ++
        (packInt 4 n ++ (packInt 2 t ++ (packInt 1 e ++ (data ++ rest)))) := by simp
  have hlong : data.length + 7 ≤ (data ++ rest).length + 7 := by simp
  have hbody : GenLongPacket.messageBytes (data ++ rest) (data.length + 7) = some data := by
    simp [GenLongPacket.messageBytes]
  unfold cutFrame
  rw [hwire, unpack_header hlen hn ht he]
  dsimp only
  rw [if_pos hlong, hbody, ← hwire]
  congr 2
  exact List.drop_left' (by simp; omega)

/-- A strict beginning of a frame is none. -/
theorem cutFrame_of_isPrefix {frame : Frame} (hcut : cutFrame wire = some (frame, []))
    {begun : List UInt8} (hbegun : begun <+: wire) (hne : begun ≠ wire) :
    cutFrame begun = none := by
  obtain ⟨more, rfl⟩ := hbegun
  cases hfirst : cutFrame begun with
  | none => rfl
  | some first =>
      have happend := wireFormat.cut_append hfirst more
      rw [show wireFormat.cut (begun ++ more) = some (frame, []) from hcut] at happend
      -- nothing would be missing
      have hmore : more = [] := by
        have hrest := congrArg Prod.snd (Option.some.inj happend)
        exact (List.append_eq_nil_iff.mp hrest.symm).2
      exact absurd (by rw [hmore, List.append_nil]) hne

/-- A packet is parsed back from the wire, and what follows it is left in the buffer;
from a strict beginning nothing is parsed and everything is left. -/
theorem parse_toWire (lawful : codec.Lawful) {e : Encoding} {encoding : Option Encoding}
    (hn : n < 2 ^ 32) (ht : t < 2 ^ 16)
    (hwire : GenLongPacket.toWire codec n t e msg encoding codecState = some wire)
    (hlength : wire.length < 2 ^ 32 + 4) :
    (∀ rest, ∃ packet,
      GenLongPacket.parse (codec.decode codecState) (wire ++ rest) = some (packet, rest) ∧
        packet.n = some n ∧ packet.t = some t ∧ packet.msg = msg) ∧
    ∀ begun, begun <+: wire → begun ≠ wire → ∃ packet,
      GenLongPacket.parse (codec.decode codecState) begun = some (packet, begun) ∧
        packet.complete = false := by
  obtain ⟨⟨data, code⟩, hencode, rfl⟩ := Option.map_eq_some_iff.mp hwire
  obtain ⟨hdecode, hcode⟩ := decode_encode lawful hencode
  dsimp only at hlength ⊢
  have hlen : data.length + 7 < 256 ^ 4 := by
    simp only [List.length_append, length_packInt] at hlength
    omega
  have hcut := cutFrame_wire hlen (n := n) (t := t) (e := code) (by omega) (by omega) (by omega)
  constructor
  · intro rest
    rw [parse_of_some (hcut rest)]
    dsimp only
    rw [hdecode]
    cases msg with
    | none => exact ⟨_, rfl, rfl, rfl, rfl⟩
    | some msg => exact ⟨_, rfl, rfl, rfl, rfl⟩
  · intro begun hbegun hne
    have hwhole := hcut []
    rw [List.append_nil] at hwhole
    exact parse_of_none (cutFrame_of_isPrefix hwhole hbegun hne)

end

/-! ## Examples -/

/-- Small numbers and `nil`, as both serializers write them. -/
def smallNumbers : Codec Nat Unit where
  bytes _ := none
  ofBytes _ := .raises
  pack
    | .msgpack, none => some [192]
    | .msgpack, some msg => if msg < 128 then some [UInt8.ofNat msg] else none
    | .json, none => some [110, 117, 108, 108]
    | .json, some msg => if msg < 10 then some [UInt8.ofNat (48 + msg)] else none
  unpack
    | .msgpack, [byte] =>
        if byte.toNat < 128 then .message byte.toNat
        else if byte = 192 then .missing else .raises
    | .json, [byte] =>
        if 48 ≤ byte.toNat ∧ byte.toNat < 58 then .message (byte.toNat - 48) else .raises
    | .json, [110, 117, 108, 108] => .missing
    | _, _ => .raises
  compress text := text
  uncompress text := some text
  encrypt _ text := text
  decrypt _ text := some text
  commNonce := ()

theorem lawful_smallNumbers : smallNumbers.Lawful where
  ofBytes_bytes msg data h := by cases h
  unpack_pack format msg data h := by
    cases msg with
    | none => cases format <;> cases h <;> rfl
    | some msg =>
        cases format with
        | msgpack =>
            have hpack : (if msg < 128 then some [UInt8.ofNat msg] else none) = some data := h
            split at hpack
            · next hsmall =>
              cases hpack
              have hbyte : (UInt8.ofNat msg).toNat = msg := by
                rw [UInt8.toNat_ofNat']
                omega
              show (if (UInt8.ofNat msg).toNat < 128 then .message (UInt8.ofNat msg).toNat
                else if UInt8.ofNat msg = 192 then .missing else .raises) = decoded (some msg)
              rw [hbyte, if_pos hsmall]
              rfl
            · cases hpack
        | json =>
            have hpack : (if msg < 10 then some [UInt8.ofNat (48 + msg)] else none) = some data := h
            split at hpack
            · next hsmall =>
              cases hpack
              have hbyte : (UInt8.ofNat (48 + msg)).toNat = 48 + msg := by
                rw [UInt8.toNat_ofNat']
                omega
              show (if 48 ≤ (UInt8.ofNat (48 + msg)).toNat ∧
                  (UInt8.ofNat (48 + msg)).toNat < 58 then
                .message ((UInt8.ofNat (48 + msg)).toNat - 48) else .raises) = decoded (some msg)
              rw [hbyte, if_pos (by omega), Nat.add_sub_cancel_left]
              rfl
            · cases hpack
  uncompress_compress text := rfl
  decrypt_encrypt nonce text := rfl

/-- The packet with the message 5, in plain msgpack. -/
def five : List UInt8 := [0, 0, 0, 8, 0, 0, 0, 1, 0, 2, 4, 5]

theorem parse_toWire_five :
    (∀ rest, ∃ packet,
      GenLongPacket.parse (smallNumbers.decode none) (five ++ rest) = some (packet, rest) ∧
        packet.n = some 1 ∧ packet.t = some 2 ∧ packet.msg = some 5) ∧
    ∀ begun, begun <+: five → begun ≠ five → ∃ packet,
      GenLongPacket.parse (smallNumbers.decode none) begun = some (packet, begun) ∧
        packet.complete = false := by
  have hwire : GenLongPacket.toWire smallNumbers 1 2 GenLongPacket.defaultEncoding (some 5)
      (some (.name "msgpack")) none = some five := by decide
  exact parse_toWire lawful_smallNumbers (by decide) (by decide) hwire (by decide)

end Server
end ArmyRs
