import ArmyRs.Foundation.ByteOrder

/-!
# Segments on the wire

A datagram of the transport is a row of segments.  Each has a header of 24 bytes, with
the lowest byte of a number first, and its data behind it.  `ikcpEncodeSeg` writes a
header and `decodeHeader` reads one, as `ikcp_input` does.

Sequence numbers and times are words of 32 bits that wrap around; `itimediff` tells
which of two is later.
-/

namespace ArmyRs
namespace Kcp

open Foundation

/-! ## encode / decode -/

/-- A number of the wire; the lowest byte is the first. -/
def encodeUnsigned {w : ℕ} (size : ℕ) (value : BitVec w) : List UInt8 :=
  littleEndian size value.toNat

def decodeUnsigned (w size : ℕ) (p : List UInt8) : BitVec w × List UInt8 :=
  (BitVec.ofNat w (ofLittleEndian (p.take size)), p.drop size)

def ikcpEncode8u (c : BitVec 8) : List UInt8 := encodeUnsigned 1 c
def ikcpEncode16u (w : BitVec 16) : List UInt8 := encodeUnsigned 2 w
def ikcpEncode32u (l : BitVec 32) : List UInt8 := encodeUnsigned 4 l

def ikcpDecode8u (p : List UInt8) : BitVec 8 × List UInt8 := decodeUnsigned 8 1 p
def ikcpDecode16u (p : List UInt8) : BitVec 16 × List UInt8 := decodeUnsigned 16 2 p
def ikcpDecode32u (p : List UInt8) : BitVec 32 × List UInt8 := decodeUnsigned 32 4 p

theorem decodeUnsigned_encodeUnsigned {w size : ℕ} (hw : w ≤ 8 * size) (value : BitVec w)
    (rest : List UInt8) :
    decodeUnsigned w size (encodeUnsigned size value ++ rest) = (value, rest) := by
  have hlength : (encodeUnsigned size value).length = size := length_littleEndian _ _
  have hfits : value.toNat < 256 ^ size := by
    calc
      value.toNat < 2 ^ w := value.isLt
      _ ≤ 2 ^ (8 * size) := Nat.pow_le_pow_right two_pos hw
      _ = 256 ^ size := by rw [pow_mul]; norm_num
  rw [decodeUnsigned, List.take_left' hlength, List.drop_left' hlength, encodeUnsigned,
    ofLittleEndian_of_lt hfits, BitVec.ofNat_toNat, BitVec.setWidth_eq]

@[simp] theorem ikcpDecode8u_encode (c : BitVec 8) (rest : List UInt8) :
    ikcpDecode8u (ikcpEncode8u c ++ rest) = (c, rest) :=
  decodeUnsigned_encodeUnsigned (by norm_num) c rest

@[simp] theorem ikcpDecode16u_encode (w : BitVec 16) (rest : List UInt8) :
    ikcpDecode16u (ikcpEncode16u w ++ rest) = (w, rest) :=
  decodeUnsigned_encodeUnsigned (by norm_num) w rest

@[simp] theorem ikcpDecode32u_encode (l : BitVec 32) (rest : List UInt8) :
    ikcpDecode32u (ikcpEncode32u l ++ rest) = (l, rest) :=
  decodeUnsigned_encodeUnsigned (by norm_num) l rest

/-! ## Segments -/

/-- The commands of a segment. -/
def IKCP_CMD_PUSH : BitVec 8 := 81
def IKCP_CMD_ACK : BitVec 8 := 82
def IKCP_CMD_WASK : BitVec 8 := 83
def IKCP_CMD_WINS : BitVec 8 := 84

def IKCP_OVERHEAD : ℕ := 24

/-- A segment; `len` is the length of the data.  The fields that have 8 and 16 bits on
the wire have them here, for nothing else is read of them. -/
structure IKCPSEG where
  conv : BitVec 32
  cmd : BitVec 8
  frg : BitVec 8
  wnd : BitVec 16
  ts : BitVec 32
  sn : BitVec 32
  una : BitVec 32
  resendts : BitVec 32
  rto : BitVec 32
  fastack : BitVec 32
  xmit : BitVec 32
  data : List UInt8
deriving DecidableEq

/-- What a segment carries for the user. -/
abbrev Item := BitVec 8 × List UInt8

def IKCPSEG.item (seg : IKCPSEG) : Item := (seg.frg, seg.data)

def IKCPSEG.len (seg : IKCPSEG) : BitVec 32 := BitVec.ofNat 32 seg.data.length

/-- A segment as `ikcp_segment_new` leaves it, with its data copied in. -/
def ikcpSegmentNew (data : List UInt8) : IKCPSEG :=
  ⟨0, 0, 0, 0, 0, 0, 0, 0, 0, 0, 0, data⟩

def ikcpEncodeSeg (seg : IKCPSEG) : List UInt8 :=
  ikcpEncode32u seg.conv ++ (ikcpEncode8u seg.cmd ++ (ikcpEncode8u seg.frg ++
    (ikcpEncode16u seg.wnd ++ (ikcpEncode32u seg.ts ++ (ikcpEncode32u seg.sn ++
      (ikcpEncode32u seg.una ++ ikcpEncode32u seg.len))))))

/-- The header that `ikcp_input` reads, its length field and the bytes behind it. -/
def decodeHeader (data : List UInt8) : IKCPSEG × BitVec 32 × List UInt8 :=
  let (conv, data) := ikcpDecode32u data
  let (cmd, data) := ikcpDecode8u data
  let (frg, data) := ikcpDecode8u data
  let (wnd, data) := ikcpDecode16u data
  let (ts, data) := ikcpDecode32u data
  let (sn, data) := ikcpDecode32u data
  let (una, data) := ikcpDecode32u data
  let (len, data) := ikcpDecode32u data
  ({ ikcpSegmentNew [] with conv, cmd, frg, wnd, ts, sn, una }, len, data)

/-- The header of a segment, without what the wire does not carry. -/
def IKCPSEG.header (seg : IKCPSEG) : IKCPSEG :=
  { ikcpSegmentNew [] with
    conv := seg.conv, cmd := seg.cmd, frg := seg.frg, wnd := seg.wnd, ts := seg.ts,
    sn := seg.sn, una := seg.una }

/-- A segment with its data, as a datagram has it. -/
def IKCPSEG.wire (seg : IKCPSEG) : List UInt8 := ikcpEncodeSeg seg ++ seg.data

@[simp] theorem length_ikcpEncodeSeg (seg : IKCPSEG) :
    (ikcpEncodeSeg seg).length = IKCP_OVERHEAD := by
  simp [ikcpEncodeSeg, ikcpEncode8u, ikcpEncode16u, ikcpEncode32u, encodeUnsigned,
    IKCP_OVERHEAD]

/-- A header is read as it was written. -/
theorem decodeHeader_encodeSeg (seg : IKCPSEG) (rest : List UInt8) :
    decodeHeader (ikcpEncodeSeg seg ++ rest) = (seg.header, seg.len, rest) := by
  simp [decodeHeader, ikcpEncodeSeg, List.append_assoc, IKCPSEG.header]

theorem toNat_len {seg : IKCPSEG} (h : seg.data.length < 2 ^ 32) :
    seg.len.toNat = seg.data.length := by
  rw [IKCPSEG.len, BitVec.toNat_ofNat, Nat.mod_eq_of_lt h]

/-! ## Times and sequence numbers -/

/-- By how much a word is later than another; it wraps around. -/
def itimediff (later earlier : BitVec 32) : ℤ := (later - earlier).toInt

/-- Among the lower half of the words there is no wrapping. -/
theorem itimediff_eq {later earlier : BitVec 32} (hlater : later.toNat < 2 ^ 31)
    (hearlier : earlier.toNat < 2 ^ 31) :
    itimediff later earlier = (later.toNat : ℤ) - earlier.toNat := by
  rw [itimediff, BitVec.toInt_eq_toNat_cond, BitVec.toNat_sub]
  split <;> omega

theorem toNat_succ {x : BitVec 32} (h : x.toNat < 2 ^ 31) : (x + 1).toNat = x.toNat + 1 := by
  rw [BitVec.toNat_add]
  exact Nat.mod_eq_of_lt (by simp; omega)

end Kcp
end ArmyRs
