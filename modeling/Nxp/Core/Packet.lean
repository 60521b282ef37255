import Nxp.Util.Varint

/-! Long and short packet headers, and packet numbers cut to their low octets. -/

namespace Nxp

/-- Longest token accepted in a header. -/
def maxHeaderTokenLen : Nat := 1024

/-- Longest payload a header may announce. -/
def maxPayloadLen : Nat := 65536

/-- A parsed long header, with where its packet number stands in the datagram. -/
structure PktLongHeader where
  type : PacketType
  version : UInt32
  dcid : ConnId
  scid : ConnId
  token : Bytes
  payloadLen : UInt64
  pktNum : UInt64
  pktNumLen : Nat
  headerLen : Nat
  pktNumOffset : Nat
  deriving DecidableEq

/-- A parsed short header, with where its packet number stands in the datagram. -/
structure PktShortHeader where
  dcid : ConnId
  spinBit : Bool
  keyPhase : Bool
  pktNum : UInt64
  pktNumLen : Nat
  headerLen : Nat
  pktNumOffset : Nat
  deriving DecidableEq

/-- The two type bits of a long header. -/
def longTypeBits : PacketType → Option UInt8
  | .initial => some 0
  | .handshake => some 1
  | .retry => some 2
  | .zeroRtt => some 3
  | .short => none

/-- Low octets of a packet number, the most significant first. -/
def pktNumBytes (pktNumLen : Nat) (pktNum : UInt64) : Bytes :=
  (List.range pktNumLen).map fun i => octetAt pktNum (UInt64.ofNat ((pktNumLen - 1 - i) * 8))

/-- Octets of a value that is known to fit. -/
def varintOctets (value : UInt64) : Bytes := (varintEncode value 8).getD []

/-- Four octets of a version, the most significant first. -/
def versionBytes (version : UInt32) : Bytes :=
  [(version >>> 24).toUInt8, (version >>> 16).toUInt8, (version >>> 8).toUInt8, version.toUInt8]

/-- Whether the first octet announces a long header. -/
def pktIsLongHeader (firstByte : UInt8) : Bool := firstByte &&& 0x80 != 0

/-- First octet of a long header. -/
def longFirstByte (typeBits : UInt8) (pktNumLen : Nat) : UInt8 :=
  (0x80 : UInt8) ||| (0x40 : UInt8) ||| (typeBits <<< 4) ||| UInt8.ofNat (pktNumLen - 1)

/-- Encode a long header, the token being there only under the initial type. -/
def pktEncodeLongHeader (type : PacketType) (version : UInt32) (dcid scid : ConnId) (token : Bytes)
    (payloadLen pktNum : UInt64) (pktNumLen bufLen : Nat) : Option Bytes := do
  if pktNumLen < 1 ∨ pktNumLen > 4 then none
  else
    let typeBits ← longTypeBits type
    let tokenLen := UInt64.ofNat token.length
    if type = .initial ∧ varintLen tokenLen = 0 then none
    else if varintLen payloadLen = 0 then none
    else
      let bytes :=
        longFirstByte typeBits pktNumLen :: versionBytes version ++
          UInt8.ofNat dcid.len :: dcid.data ++
          UInt8.ofNat scid.len :: scid.data ++
          (if type = .initial then varintOctets tokenLen ++ token else []) ++
          varintOctets payloadLen ++ pktNumBytes pktNumLen pktNum
      if bufLen < bytes.length then none else some bytes

/-- First octet of a short header. -/
def shortFirstByte (spinBit keyPhase : Bool) (pktNumLen : Nat) : UInt8 :=
  let first := if spinBit then (0x40 : UInt8) ||| 0x20 else 0x40
  let first := if keyPhase then first ||| 0x10 else first
  first ||| UInt8.ofNat (pktNumLen - 1)

/-- Encode a short header, whose identifier has no length field. -/
def pktEncodeShortHeader (dcid : ConnId) (spinBit keyPhase : Bool) (pktNum : UInt64)
    (pktNumLen bufLen : Nat) : Option Bytes :=
  if pktNumLen < 1 ∨ pktNumLen > 4 then none
  else if bufLen < 1 + dcid.len + pktNumLen then none
  else some (shortFirstByte spinBit keyPhase pktNumLen :: dcid.data ++ pktNumBytes pktNumLen pktNum)

/-- Type named by the two type bits of a long header. -/
def longType (firstByte : UInt8) : PacketType :=
  match ((firstByte &&& 0x30) >>> 4).toNat with
  | 0 => .initial
  | 1 => .handshake
  | 2 => .retry
  | _ => .zeroRtt

/-- Take a connection identifier preceded by its length. -/
def decodeConnId (buf : Bytes) : Option (ConnId × Bytes) :=
  match buf with
  | [] => none
  | len :: rest =>
    if bounded : len.toNat ≤ maxCidLen then
      if len.toNat > rest.length then none
      else some (⟨rest.take len.toNat, ConnId.take_bounded bounded rest⟩, rest.drop len.toNat)
    else none

/-- Take the token of an initial packet, other packets having none. -/
def decodeToken (type : PacketType) (buf : Bytes) : Option (Bytes × Bytes) :=
  if type = .initial then do
    let (tokenLen, rest) ← varintDecode buf
    if tokenLen.toNat > maxHeaderTokenLen then none
    else if tokenLen.toNat > rest.length then none
    else some (rest.take tokenLen.toNat, rest.drop tokenLen.toNat)
  else some ([], buf)

/-- Take the four octets of a version. -/
def decodeVersion (buf : Bytes) : Option (UInt32 × Bytes) :=
  match buf with
  | b0 :: b1 :: b2 :: b3 :: rest =>
    some ((b0.toUInt32 <<< 24) ||| (b1.toUInt32 <<< 16) ||| (b2.toUInt32 <<< 8) ||| b3.toUInt32,
      rest)
  | _ => none

/-- Parse a long header; the version is read and not checked. -/
def pktDecodeLongHeader (buf : Bytes) : Option PktLongHeader :=
  match buf with
  | [] => none
  | first :: rest => do
    if buf.length < 7 ∨ first &&& 0x80 = 0 ∨ first &&& 0x40 = 0 then none
    else
      let type := longType first
      let pktNumLen := (first &&& 0x03).toNat + 1
      let (version, rest) ← decodeVersion rest
      let (dcid, rest) ← decodeConnId rest
      let (scid, rest) ← decodeConnId rest
      let (token, rest) ← decodeToken type rest
      if type = .retry then
        -- A retry has neither a length nor a packet number.
        some { type, version, dcid, scid, token
               payloadLen := UInt64.ofNat rest.length
               pktNum := 0
               pktNumLen := 0
               headerLen := buf.length - rest.length
               pktNumOffset := 0 }
      else
        let (payloadLen, rest) ← varintDecode rest
        if payloadLen.toNat > maxPayloadLen then none
        else if pktNumLen > rest.length then none
        else
          some { type, version, dcid, scid, token, payloadLen
                 pktNum := readBigEndian (rest.take pktNumLen)
                 pktNumLen := pktNumLen
                 headerLen := buf.length - rest.length + pktNumLen
                 pktNumOffset := buf.length - rest.length }

/-- Parse a short header whose identifier has the length this side chose. -/
def pktDecodeShortHeader (buf : Bytes) (dcidLen : Nat) (bounded : dcidLen ≤ maxCidLen) :
    Option PktShortHeader :=
  match buf with
  | [] => none
  | first :: rest =>
    if buf.length < 1 + dcidLen + 1 then none
    else if first &&& 0x80 ≠ 0 then none
    else if first &&& 0x40 = 0 then none
    else
      let pktNumLen := (first &&& 0x03).toNat + 1
      let pktNumOffset := 1 + dcidLen
      if pktNumOffset + pktNumLen > buf.length then none
      else
        some { dcid := ⟨rest.take dcidLen, by simp; omega⟩
               spinBit := first &&& 0x20 != 0
               keyPhase := first &&& 0x10 != 0
               pktNum := readBigEndian ((buf.drop pktNumOffset).take pktNumLen)
               pktNumLen := pktNumLen
               headerLen := pktNumOffset + pktNumLen
               pktNumOffset := pktNumOffset }

/-- Full packet number nearest to the expected one whose low octets are those given. -/
def pktDecodePktNum (largestAcked truncatedPn : UInt64) (pnLen : Nat) : UInt64 :=
  let expected := largestAcked + 1
  let pnWin := (1 : UInt64) <<< UInt64.ofNat (pnLen * 8)
  let pnHwin := pnWin / 2
  let pnMask := pnWin - 1
  let candidate := (expected &&& ~~~pnMask) ||| truncatedPn
  if candidate + pnHwin ≤ expected ∧ candidate + pnWin < (1 : UInt64) <<< 62 then candidate + pnWin
  else if candidate > expected + pnHwin ∧ candidate ≥ pnWin then candidate - pnWin
  else candidate

/-- How many low octets to send for a packet number. -/
def pktNumLen (pktNum largestAcked : UInt64) : Nat :=
  let numUnacked := pktNum - largestAcked
  if numUnacked < 0x80 then 1
  else if numUnacked < 0x8000 then 2
  else if numUnacked < 0x800000 then 3
  else 4

/-- Between one and four octets are sent. -/
theorem pktNumLen_bounds (pktNum largestAcked : UInt64) :
    1 ≤ pktNumLen pktNum largestAcked ∧ pktNumLen pktNum largestAcked ≤ 4 := by
  unfold pktNumLen
  grind

/-- As many octets are sent as were asked for. -/
@[simp] theorem pktNumBytes_length (len : Nat) (pktNum : UInt64) :
    (pktNumBytes len pktNum).length = len := by
  simp [pktNumBytes]

/-- A short header has the length its parts add up to. -/
theorem pktEncodeShortHeader_length {dcid : ConnId} {spinBit keyPhase : Bool} {pktNum : UInt64}
    {len bufLen : Nat} {hdr : Bytes}
    (encoded : pktEncodeShortHeader dcid spinBit keyPhase pktNum len bufLen = some hdr) :
    hdr.length = 1 + dcid.len + len := by
  unfold pktEncodeShortHeader at encoded
  split_ifs at encoded
  simp only [Option.some.injEq] at encoded
  rw [← encoded]
  simp [ConnId.len]
  omega

end Nxp
