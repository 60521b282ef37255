import Nxp.Types

/-! WebSocket frames: a header with a length in one of three forms, a mask, and the payload. -/

namespace Nxp

/-- A frame to encode, the octets behind its pointer being as many as its length says. -/
structure WsFrame where
  opcode : UInt8
  fin : Bool
  mask : Option (Vector UInt8 4)
  payloadLen : UInt64
  payload : Option Bytes
  sized : ∀ data ∈ payload, data.length = payloadLen.toNat

/-- Octets with the repeating key of a mask applied to them. -/
def xorMask (key : Vector UInt8 4) (data : Bytes) : Bytes :=
  data.mapIdx fun i octet => octet ^^^ key.toList.getD (i % 4) 0

/-- A payload as it goes over the wire, or back. -/
def applyMask (mask : Option (Vector UInt8 4)) (data : Bytes) : Bytes :=
  match mask with
  | none => data
  | some key => xorMask key data

/-- Octets of a mask, if there is one. -/
def maskOctets (mask : Option (Vector UInt8 4)) : Bytes :=
  match mask with
  | none => []
  | some key => key.toList

/-- Octets that give the length of a payload, behind the flag that it is masked. -/
def wsLength (maskBit : UInt8) (payloadLen : UInt64) : Bytes :=
  if payloadLen ≤ 125 then [maskBit ||| payloadLen.toUInt8]
  else if payloadLen ≤ 65535 then
    [maskBit ||| 126, (payloadLen >>> 8).toUInt8, payloadLen.toUInt8]
  else (maskBit ||| 127) :: timestampBytes payloadLen

/-- Header of a frame. -/
def wsHeader (f : WsFrame) : Bytes :=
  let first := (if f.fin then 0x80 else 0) ||| (f.opcode &&& 0x0F)
  let maskBit := if f.mask.isSome then 0x80 else 0
  first :: (wsLength maskBit f.payloadLen ++ maskOctets f.mask)

/-- Octets that an encoder writes from the start of its buffer, and what it returns. -/
structure WsEncoded where
  written : Bytes
  result : UInt64

/-- Encode a frame. -/
def wsFrameEncode (f : WsFrame) (bufCap : UInt64) : WsEncoded :=
  -- The header is written whatever the size of the buffer.
  let header := wsHeader f
  let pos := UInt64.ofNat header.length
  match f.payload with
  | none => ⟨header, pos⟩
  | some data =>
    if f.payloadLen > 0 then
      if pos + f.payloadLen > bufCap then ⟨header, 0⟩
      else ⟨header ++ applyMask f.mask data, pos + f.payloadLen⟩
    else ⟨header, pos⟩

/-- What the header of a frame says, and where its payload starts. -/
structure WsHead where
  opcode : UInt8
  fin : Bool
  mask : Option (Vector UInt8 4)
  payloadLen : UInt64
  pos : Nat

/-- Length of a payload and the position behind it, once all its octets are there. -/
def wsPayloadLen (buf : Bytes) (short : UInt8) : Option (UInt64 × Nat) :=
  if short = 126 then
    if buf.length < 4 then none else some (readBigEndian ((buf.drop 2).take 2), 4)
  else if short = 127 then
    if buf.length < 10 then none else some (readBigEndian ((buf.drop 2).take 8), 10)
  else some (short.toUInt64, 2)

/-- Mask of a payload, if it has one, and the position behind it. -/
def wsMask (buf : Bytes) (masked : Bool) (pos : Nat) : Option (Option (Vector UInt8 4) × Nat) :=
  if masked then
    if buf.length < pos + 4 then none
    else some (some (Vector.ofFn fun i => buf.getD (pos + i) 0), pos + 4)
  else some (none, pos)

/-- Read the header of a frame. -/
def wsReadHead (buf : Bytes) : Option WsHead :=
  match buf with
  | first :: second :: _ => do
    let (payloadLen, pos) ← wsPayloadLen buf (second &&& 0x7F)
    let (mask, pos) ← wsMask buf (second &&& 0x80 != 0) pos
    some ⟨first &&& 0x0F, first &&& 0x80 != 0, mask, payloadLen, pos⟩
  | _ => none

/-- What a decoder found, what it returns, and the buffer with the payload unmasked in place. -/
structure WsDecoded where
  head : WsHead
  frameTotal : UInt64
  buf : Bytes

/-- How decoding ends: more octets are needed, octets outside the buffer were written, or a frame.
-/
inductive WsDecode where
  | incomplete
  | faulted
  | decoded (d : WsDecoded)

/-- Decode the frame at the start of a buffer. -/
def wsFrameDecode (buf : Bytes) : WsDecode :=
  match wsReadHead buf with
  | none => .incomplete
  | some head =>
    -- The end of the payload is computed in a word, which a length from the peer can overflow.
    let total := UInt64.ofNat head.pos + head.payloadLen
    let last := head.pos + head.payloadLen.toNat
    if UInt64.ofNat buf.length < total then .incomplete
    else
      match head.mask with
      | none => .decoded ⟨head, total, buf⟩
      | some key =>
        if buf.length < last then .faulted
        else .decoded ⟨head, total,
          buf.take head.pos ++ xorMask key ((buf.take last).drop head.pos) ++ buf.drop last⟩

/-- Octets that a decoded frame's payload points to. -/
def WsDecoded.payload (d : WsDecoded) : Bytes :=
  (d.buf.take (d.head.pos + d.head.payloadLen.toNat)).drop d.head.pos

end Nxp
