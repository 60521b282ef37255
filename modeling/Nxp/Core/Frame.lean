import Nxp.Core.FrameData
import Nxp.Util.Varint

/-! Encoding and decoding of every frame. -/

namespace Nxp

/-- Longest token accepted in a frame. -/
def maxTokenLen : Nat := 1024

/-- Longest close reason accepted. -/
def maxCloseReasonLen : Nat := 1024

/-- Longest stretch of handshake data accepted. -/
def maxCryptoFrameData : Nat := 16384

/-- Longest stretch of stream data accepted. -/
def maxStreamFrameData : Nat := 1048576

/-- Longest datagram accepted. -/
def maxDatagramLen : Nat := 65536

/-- Largest stream identifier accepted. -/
def maxStreamId : UInt64 := 1152921504606846976

/-- Largest stream offset accepted. -/
def maxStreamOffset : UInt64 := 1152921504606846976

/-- Append an encoded value to what is in the buffer so far. -/
def encodeVarint (val : UInt64) (bufLen : Nat) (out : Bytes) : Option Bytes :=
  if out.length ≥ bufLen then none
  else (varintEncode val (bufLen - out.length)).map fun bytes => out ++ bytes

/-- Append encoded values one after another. -/
def encodeVarints (vals : List UInt64) (bufLen : Nat) (out : Bytes) : Option Bytes :=
  vals.foldlM (fun out val => encodeVarint val bufLen out) out

/-- Append raw octets. -/
def encodeBytes (bytes : Bytes) (bufLen : Nat) (out : Bytes) : Option Bytes :=
  if out.length + bytes.length > bufLen then none else some (out ++ bytes)

/-- A run of padding. -/
def frameEncodePadding (count bufLen : Nat) : Option Bytes :=
  if count = 0 ∨ bufLen < count then none else some (List.replicate count 0)

/-- A probe without content. -/
def frameEncodePing (bufLen : Nat) : Option Bytes :=
  if bufLen < 1 then none else some [0x01]

/-- An acknowledgement with all its ranges. -/
def frameEncodeAck (f : FrameAck) (bufLen : Nat) : Option Bytes :=
  -- The congestion counters follow only under the second of the two types.
  encodeVarints
    ([if f.hasEcn then 0x03 else 0x02, f.largestAcked, f.ackDelay, UInt64.ofNat f.ranges.length,
        f.firstAckRange] ++
      f.ranges.flatMap (fun range => [range.gap, range.ackRange]) ++
      if f.hasEcn then [f.ect0Count, f.ect1Count, f.ecnCeCount] else [])
    bufLen []

/-- Abrupt end of a stream's sending direction. -/
def frameEncodeResetStream (streamId errorCode finalSize : UInt64) (bufLen : Nat) : Option Bytes :=
  encodeVarints [0x04, streamId, errorCode, finalSize] bufLen []

/-- Request to stop sending on a stream. -/
def frameEncodeStopSending (streamId errorCode : UInt64) (bufLen : Nat) : Option Bytes :=
  encodeVarints [0x05, streamId, errorCode] bufLen []

/-- A stretch of handshake data. -/
def frameEncodeCrypto (offset : UInt64) (data : Bytes) (bufLen : Nat) : Option Bytes := do
  let out ← encodeVarints [0x06, offset, UInt64.ofNat data.length] bufLen []
  encodeBytes data bufLen out

/-- A token for a later connection. -/
def frameEncodeNewToken (token : Bytes) (bufLen : Nat) : Option Bytes := do
  let out ← encodeVarints [0x07, UInt64.ofNat token.length] bufLen []
  encodeBytes token bufLen out

/-- Type octet of a stream frame, whose low bits say which fields follow. -/
def streamTypeByte (f : FrameStream) : UInt8 :=
  let typeByte := if f.hasOffset then (0x08 : UInt8) ||| 0x04 else 0x08
  let typeByte := if f.hasLength then typeByte ||| 0x02 else typeByte
  if f.fin then typeByte ||| 0x01 else typeByte

/-- Write the first octet of a frame. -/
def encodeOctet (octet : UInt8) (bufLen : Nat) : Option Bytes :=
  if bufLen < 1 then none else some [octet]

/-- Append an encoded value where the frame has the field. -/
def encodeWhen (present : Bool) (val : UInt64) (bufLen : Nat) (out : Bytes) : Option Bytes :=
  if present then encodeVarint val bufLen out else some out

/-- The data that is written, which is none at all without a length field. -/
def FrameStream.writtenData (f : FrameStream) : Bytes := if f.hasLength then f.data.getD [] else []

/-- A stretch of stream data. -/
def frameEncodeStream (f : FrameStream) (bufLen : Nat) : Option Bytes := do
  let out ← encodeOctet (streamTypeByte f) bufLen
  let out ← encodeVarint f.streamId bufLen out
  let out ← encodeWhen f.hasOffset f.offset bufLen out
  let out ← encodeWhen f.hasLength f.length bufLen out
  if f.writtenData.length > 0 then encodeBytes f.writtenData bufLen out else some out

/-- A raised limit for the whole connection. -/
def frameEncodeMaxData (maxData : UInt64) (bufLen : Nat) : Option Bytes :=
  encodeVarints [0x10, maxData] bufLen []

/-- A raised limit for one stream. -/
def frameEncodeMaxStreamData (streamId maxStreamData : UInt64) (bufLen : Nat) : Option Bytes :=
  encodeVarints [0x11, streamId, maxStreamData] bufLen []

/-- A raised number of streams. -/
def frameEncodeMaxStreams (maxStreams : UInt64) (isBidi : Bool) (bufLen : Nat) : Option Bytes :=
  encodeVarints [if isBidi then 0x12 else 0x13, maxStreams] bufLen []

/-- Notice that the connection's limit holds data back. -/
def frameEncodeDataBlocked (maxData : UInt64) (bufLen : Nat) : Option Bytes :=
  encodeVarints [0x14, maxData] bufLen []

/-- Notice that a stream's limit holds data back. -/
def frameEncodeStreamDataBlocked (streamId maxStreamData : UInt64) (bufLen : Nat) :
    Option Bytes :=
  encodeVarints [0x15, streamId, maxStreamData] bufLen []

/-- Notice that the number of streams holds a new one back. -/
def frameEncodeStreamsBlocked (maxStreams : UInt64) (isBidi : Bool) (bufLen : Nat) :
    Option Bytes :=
  encodeVarints [if isBidi then 0x16 else 0x17, maxStreams] bufLen []

/-- A fresh connection identifier with its reset token. -/
def frameEncodeNewConnectionId (f : FrameNewConnectionId) (bufLen : Nat) : Option Bytes := do
  let out ← encodeVarints [0x18, f.seqNum, f.retirePriorTo] bufLen []
  encodeBytes (UInt8.ofNat f.cid.len :: f.cid.data ++ f.statelessResetToken.toList) bufLen out

/-- Retirement of a connection identifier. -/
def frameEncodeRetireConnectionId (seqNum : UInt64) (bufLen : Nat) : Option Bytes :=
  encodeVarints [0x19, seqNum] bufLen []

/-- A path probe. -/
def frameEncodePathChallenge (data : Vector UInt8 8) (bufLen : Nat) : Option Bytes := do
  let out ← encodeVarints [0x1A] bufLen []
  encodeBytes data.toList bufLen out

/-- The answer to a path probe. -/
def frameEncodePathResponse (data : Vector UInt8 8) (bufLen : Nat) : Option Bytes := do
  let out ← encodeVarints [0x1B] bufLen []
  encodeBytes data.toList bufLen out

/-- A close notice, which names the offending frame type only at the transport level. -/
def frameEncodeConnectionClose (f : FrameConnectionClose) (bufLen : Nat) : Option Bytes := do
  let out ← encodeVarints
    ([if f.isApp then 0x1D else 0x1C, f.errorCode] ++ (if f.isApp then [] else [f.frameType]) ++
      [UInt64.ofNat f.reason.length]) bufLen []
  if f.reason.length > 0 then encodeBytes f.reason bufLen out else some out

/-- The server's confirmation of the handshake. -/
def frameEncodeHandshakeDone (bufLen : Nat) : Option Bytes :=
  encodeVarints [0x1E] bufLen []

/-- A keep-alive or its echo. -/
def frameEncodeHeartbeat (timestampUs : UInt64) (bufLen : Nat) : Option Bytes :=
  encodeVarints [0x20, timestampUs] bufLen []

/-- A change of a stream's priority. -/
def frameEncodeStreamPriority (streamId : UInt64) (priority : UInt8) (bufLen : Nat) :
    Option Bytes := do
  let out ← encodeVarints [0x21, streamId] bufLen []
  encodeBytes [priority] bufLen out

/-- An unreliable message. -/
def frameEncodeDatagram (data : Bytes) (bufLen : Nat) : Option Bytes := do
  let out ← encodeVarints [0x22, UInt64.ofNat data.length] bufLen []
  if data.length > 0 then encodeBytes data bufLen out else some out

/-- Take one octet from the front. -/
def decodeOctet : Bytes → Option (UInt8 × Bytes)
  | [] => none
  | octet :: rest => some (octet, rest)

/-- Take a number of octets from the front. -/
def decodeBytes (count : Nat) (buf : Bytes) : Option (Bytes × Bytes) :=
  if count > buf.length then none else some (buf.take count, buf.drop count)

/-- Take a fixed number of octets from the front. -/
def decodeArray (count : Nat) (buf : Bytes) : Option (Vector UInt8 count × Bytes) :=
  if fits : count ≤ buf.length then
    some (⟨(buf.take count).toArray, take_toArray_size fits⟩, buf.drop count)
  else none

/-- Take a value, refusing one above a limit. -/
def decodeAtMost (limit : UInt64) (buf : Bytes) : Option (UInt64 × Bytes) := do
  let (value, rest) ← varintDecode buf
  if value > limit then none else some (value, rest)

/-- Take a field that is there only sometimes, zero standing for its absence. -/
def decodeWhen (present : Bool) (reader : Bytes → Option (UInt64 × Bytes)) (buf : Bytes) :
    Option (UInt64 × Bytes) :=
  if present then reader buf else some (0, buf)

/-- Take octets preceded by their length, refusing more than a limit. -/
def decodeSized (limit : Nat) (buf : Bytes) : Option (Bytes × Bytes) := do
  let (length, rest) ← varintDecode buf
  if length.toNat > limit then none else decodeBytes length.toNat rest

/-- The further ranges of an acknowledgement, exactly as many as announced. -/
def decodeAckRanges : (count : Nat) → Bytes →
    Option ({ ranges : List AckRange // ranges.length = count } × Bytes)
  | 0, buf => some (⟨[], rfl⟩, buf)
  | count + 1, buf => do
    let (gap, rest) ← varintDecode buf
    let (ackRange, rest) ← varintDecode rest
    let (ranges, rest) ← decodeAckRanges count rest
    some (⟨⟨gap, ackRange⟩ :: ranges.val, by simp [ranges.property]⟩, rest)

/-- The body of an acknowledgement, with or without congestion counters. -/
def decodeAck (hasEcn : Bool) (buf : Bytes) : Option (FrameAck × Bytes) := do
  let (largestAcked, rest) ← varintDecode buf
  let (ackDelay, rest) ← varintDecode rest
  let (rangeCount, rest) ← varintDecode rest
  if small : rangeCount.toNat ≤ ackMaxRanges then
    let (firstAckRange, rest) ← varintDecode rest
    let (ranges, rest) ← decodeAckRanges rangeCount.toNat rest
    let (ect0Count, rest) ← decodeWhen hasEcn varintDecode rest
    let (ect1Count, rest) ← decodeWhen hasEcn varintDecode rest
    let (ecnCeCount, rest) ← decodeWhen hasEcn varintDecode rest
    some ({ largestAcked, ackDelay, firstAckRange, ranges := ranges.val, hasEcn, ect0Count,
            ect1Count, ecnCeCount, bounded := by rw [ranges.property]; exact small }, rest)
  else none

/-- Length of a stream frame's data: announced, or everything that remains. -/
def decodeStreamLength (hasLength : Bool) (buf : Bytes) : Option (UInt64 × Bytes) :=
  if hasLength then do
    let (length, rest) ← varintDecode buf
    if length.toNat > maxStreamFrameData then none else some (length, rest)
  else if buf.length > maxStreamFrameData then none
  else some (UInt64.ofNat buf.length, buf)

/-- The body of a stream frame after its type octet. -/
def decodeStream (typeByte : UInt8) (buf : Bytes) : Option (FrameStream × Bytes) := do
  let hasOffset := typeByte &&& 0x04 != 0
  let hasLength := typeByte &&& 0x02 != 0
  let fin := typeByte &&& 0x01 != 0
  let (streamId, rest) ← decodeAtMost maxStreamId buf
  let (offset, rest) ← decodeWhen hasOffset (decodeAtMost maxStreamOffset) rest
  let (length, rest) ← decodeStreamLength hasLength rest
  if within : length.toNat ≤ rest.length then
    some ({ streamId, offset, length, hasOffset, hasLength, fin
            data := if length > 0 then some (rest.take length.toNat) else none
            covered := by
              -- Only an empty stretch leaves the pointer null.
              by_cases positive : length > 0
              · simp [positive, within]
              · have zero : length = 0 := by grind
                simp [zero] }, rest.drop length.toNat)
  else none

/-- The body of a connection identifier offer. -/
def decodeNewConnectionId (buf : Bytes) : Option (FrameNewConnectionId × Bytes) := do
  let (seqNum, rest) ← varintDecode buf
  let (retirePriorTo, rest) ← varintDecode rest
  let (cidLen, rest) ← decodeOctet rest
  if bounded : cidLen.toNat ≤ maxCidLen then
    if cidLen.toNat + 16 > rest.length then none
    else
      let (token, rest') ← decodeArray 16 (rest.drop cidLen.toNat)
      some ({ seqNum, retirePriorTo
              cid := ⟨rest.take cidLen.toNat, ConnId.take_bounded bounded rest⟩
              statelessResetToken := token }, rest')
  else none

/-- The body of a close notice. -/
def decodeConnectionClose (isApp : Bool) (buf : Bytes) : Option (FrameConnectionClose × Bytes) := do
  let (errorCode, rest) ← varintDecode buf
  let (frameType, rest) ← decodeWhen (!isApp) varintDecode rest
  let (reason, rest) ← decodeSized maxCloseReasonLen rest
  some ({ errorCode, frameType, reason, isApp }, rest)

/-- The body of every frame whose type is a variable-length integer. -/
def decodeBody (frameType : UInt64) (buf : Bytes) : Option (Frame × Bytes) :=
  match frameType with
  | 0x01 => some (.ping, buf)
  | 0x02 => do
    let (f, rest) ← decodeAck false buf
    some (.ack f, rest)
  | 0x03 => do
    let (f, rest) ← decodeAck true buf
    some (.ack f, rest)
  | 0x04 => do
    let (streamId, rest) ← varintDecode buf
    let (errorCode, rest) ← varintDecode rest
    let (finalSize, rest) ← varintDecode rest
    some (.resetStream streamId errorCode finalSize, rest)
  | 0x05 => do
    let (streamId, rest) ← varintDecode buf
    let (errorCode, rest) ← varintDecode rest
    some (.stopSending streamId errorCode, rest)
  | 0x06 => do
    let (offset, rest) ← varintDecode buf
    let (data, rest) ← decodeSized maxCryptoFrameData rest
    some (.crypto offset data, rest)
  | 0x07 => do
    let (token, rest) ← decodeSized maxTokenLen buf
    some (.newToken token, rest)
  | 0x10 => do
    let (maxData, rest) ← varintDecode buf
    some (.maxData maxData, rest)
  | 0x11 => do
    let (streamId, rest) ← varintDecode buf
    let (maxStreamData, rest) ← varintDecode rest
    some (.maxStreamData streamId maxStreamData, rest)
  | 0x12 => do
    let (maxStreams, rest) ← varintDecode buf
    some (.maxStreams maxStreams true, rest)
  | 0x13 => do
    let (maxStreams, rest) ← varintDecode buf
    some (.maxStreams maxStreams false, rest)
  | 0x14 => do
    let (maxData, rest) ← varintDecode buf
    some (.dataBlocked maxData, rest)
  | 0x15 => do
    let (streamId, rest) ← varintDecode buf
    let (maxStreamData, rest) ← varintDecode rest
    some (.streamDataBlocked streamId maxStreamData, rest)
  | 0x16 => do
    let (maxStreams, rest) ← varintDecode buf
    some (.streamsBlocked maxStreams true, rest)
  | 0x17 => do
    let (maxStreams, rest) ← varintDecode buf
    some (.streamsBlocked maxStreams false, rest)
  | 0x18 => do
    let (f, rest) ← decodeNewConnectionId buf
    some (.newConnectionId f, rest)
  | 0x19 => do
    let (seqNum, rest) ← varintDecode buf
    some (.retireConnectionId seqNum, rest)
  | 0x1A => do
    let (data, rest) ← decodeArray 8 buf
    some (.pathChallenge data, rest)
  | 0x1B => do
    let (data, rest) ← decodeArray 8 buf
    some (.pathResponse data, rest)
  | 0x1C => do
    let (f, rest) ← decodeConnectionClose false buf
    some (.connectionClose f, rest)
  | 0x1D => do
    let (f, rest) ← decodeConnectionClose true buf
    some (.connectionClose f, rest)
  | 0x1E => some (.handshakeDone, buf)
  | 0x20 => do
    let (timestampUs, rest) ← varintDecode buf
    some (.heartbeat timestampUs, rest)
  | 0x21 => do
    let (streamId, rest) ← varintDecode buf
    let (priority, rest) ← decodeOctet rest
    some (.streamPriority streamId priority, rest)
  | 0x22 => do
    let (data, rest) ← decodeSized maxDatagramLen buf
    some (.datagram data, rest)
  | _ => none

/-- Whether an octet is one of the eight types of a stream frame. -/
def frameIsStream (typeByte : UInt8) : Bool := typeByte &&& 0xF8 == 0x08

/-- Decode one frame from the front of a buffer, returning what follows it. -/
def frameDecode (buf : Bytes) : Option (Frame × Bytes) :=
  match buf with
  | [] => none
  | first :: rest =>
    -- Padding takes all zero octets at once, and stream types are not variable-length integers.
    if first = 0 then some (.padding (buf.takeWhile (· = 0)).length, buf.dropWhile (· = 0))
    else if frameIsStream first then do
      let (f, rest) ← decodeStream first rest
      some (.stream f, rest)
    else do
      let (frameType, rest) ← varintDecode buf
      decodeBody frameType rest

end Nxp
