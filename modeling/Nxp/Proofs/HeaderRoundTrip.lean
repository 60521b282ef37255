import Nxp.Core.LongHeader

/-! A packet header read back is the one that was written. -/

namespace Nxp

/-- The fields of a long header that has a packet number, within the limits of the parser. -/
structure LongFields where
  type : PacketType
  numbered : type = .initial ∨ type = .handshake ∨ type = .zeroRtt
  version : UInt32
  dcid : ConnId
  scid : ConnId
  token : Bytes
  tokenShort : token.length ≤ maxHeaderTokenLen
  payloadLen : UInt64
  payloadShort : payloadLen.toNat ≤ maxPayloadLen
  pktNum : UInt64
  pktNumLen : Nat
  positive : 1 ≤ pktNumLen
  short : pktNumLen ≤ 4

/-- The fields of a short header. -/
structure ShortFields where
  dcid : ConnId
  spinBit : Bool
  keyPhase : Bool
  pktNum : UInt64
  pktNumLen : Nat
  positive : 1 ≤ pktNumLen
  short : pktNumLen ≤ 4

/-- Encode a long header from its fields. -/
def LongFields.encode (fields : LongFields) (bufLen : Nat) : Option Bytes :=
  pktEncodeLongHeader fields.type fields.version fields.dcid fields.scid fields.token
    fields.payloadLen fields.pktNum fields.pktNumLen bufLen

/-- Encode a short header from its fields. -/
def ShortFields.encode (fields : ShortFields) (bufLen : Nat) : Option Bytes :=
  pktEncodeShortHeader fields.dcid fields.spinBit fields.keyPhase fields.pktNum fields.pktNumLen
    bufLen

/-- A long header that was read says what its fields say, the token only of an initial packet. -/
structure LongFields.ReadBack (fields : LongFields) (size : Nat) (read : PktLongHeader) : Prop where
  type : read.type = fields.type
  version : read.version = fields.version
  dcid : read.dcid = fields.dcid
  scid : read.scid = fields.scid
  token : read.token = if fields.type = .initial then fields.token else []
  payloadLen : read.payloadLen = fields.payloadLen
  pktNumLen : read.pktNumLen = fields.pktNumLen
  pktNum : read.pktNum.toNat = fields.pktNum.toNat % 2 ^ (8 * fields.pktNumLen)
  headerLen : read.headerLen = size
  pktNumOffset : read.pktNumOffset = size - fields.pktNumLen

/-- A short header that was read says what its fields say. -/
structure ShortFields.ReadBack (fields : ShortFields) (size : Nat) (read : PktShortHeader) :
    Prop where
  dcid : read.dcid = fields.dcid
  spinBit : read.spinBit = fields.spinBit
  keyPhase : read.keyPhase = fields.keyPhase
  pktNumLen : read.pktNumLen = fields.pktNumLen
  pktNum : read.pktNum.toNat = fields.pktNum.toNat % 2 ^ (8 * fields.pktNumLen)
  headerLen : read.headerLen = size
  pktNumOffset : read.pktNumOffset = size - fields.pktNumLen

/-- The header carries the low octets of the packet number. -/
theorem readBigEndian_low {pktNumLen : Nat} (short : pktNumLen ≤ 4) (pktNum : UInt64) :
    (readBigEndian (pktNumBytes pktNumLen pktNum)).toNat = pktNum.toNat % 2 ^ (8 * pktNumLen) := by
  rw [readBigEndian_pktNumBytes pktNumLen (by omega) pktNum, Nat.pow_mul]

theorem LongFields.named (fields : LongFields) :
    ∃ typeBits, longTypeBits fields.type = some typeBits ∧ fields.type ≠ .retry := by
  rcases fields.numbered with initial | handshake | zeroRtt
  · exact ⟨0, by rw [initial]; rfl, by rw [initial]; decide⟩
  · exact ⟨1, by rw [handshake]; rfl, by rw [handshake]; decide⟩
  · exact ⟨3, by rw [zeroRtt]; rfl, by rw [zeroRtt]; decide⟩

end Nxp
