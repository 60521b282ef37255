import Nxp.Core.FlowControl
import Nxp.Core.FrameData
import Nxp.Core.StreamRate
import Nxp.Lib.Ring

/-! Stream lifecycle, circular send and receive buffers, frame generation and reassembly. -/

namespace Nxp

/-- Capacity both buffers of a stream are allocated with and keep for its lifetime. -/
def streamBufSize : UInt64 := 65536

/-- The capacity as a natural number. -/
@[simp] theorem streamBufSize_toNat : streamBufSize.toNat = 65536 := rfl

/-- Bytes accepted from the application, kept until they are acknowledged. -/
structure SendBuf where
  data : Nat → UInt8
  writeOffset : UInt64
  sentOffset : UInt64
  ackedOffset : UInt64
  fin : Bool
  finSent : Bool
  finAcked : Bool

/-- Bytes received from the peer, kept until they are read. -/
structure RecvBuf where
  data : Nat → UInt8
  readOffset : UInt64
  recvOffset : UInt64
  finReceived : Bool
  finOffset : UInt64

/-- One stream, its links into the scheduler being the identifiers of its neighbours. -/
structure Stream where
  id : UInt64
  type : StreamType
  state : StreamState
  priority : UInt8
  send : SendBuf
  recv : RecvBuf
  flow : FlowCtrl
  rateLimit : StreamRate
  onWritable : Bool
  blocked : Bool
  schedNext : Option UInt64
  schedPrev : Option UInt64
  scheduled : Bool

/-- Which moves between lifecycle states are honoured. -/
def isValidStreamStateTransition (source target : StreamState) : Bool :=
  -- Reset and closed are reachable from everywhere, themselves included.
  if target = .reset ∨ target = .closed then true
  else match source with
    | .idle => target = .open
    | .open => target = .halfClosedLocal ∨ target = .halfClosedRemote
    | .halfClosedLocal | .halfClosedRemote => target = .closed
    | .closed | .reset => false

/-- Move to a lifecycle state, ignoring a move that is not honoured. -/
def setStreamState (s : Stream) (newState : StreamState) : Stream :=
  if !isValidStreamStateTransition s.state newState then s else { s with state := newState }

/-- A new open stream with zeroed buffers. -/
def streamCreate (id : UInt64) (type : StreamType) (initialMaxSend initialMaxRecv : UInt64) :
    Stream where
  id := id
  type := type
  state := .open
  priority := 128
  send := ⟨fun _ => 0, 0, 0, 0, false, false, false⟩
  recv := ⟨fun _ => 0, 0, 0, false, 0⟩
  flow := flowInit initialMaxRecv initialMaxSend
  rateLimit := streamRateInit
  onWritable := false
  blocked := false
  schedNext := none
  schedPrev := none
  scheduled := false

/-- How many octets the next write may add. -/
def streamWriteAvail (s : Stream) : UInt64 :=
  -- Room in the buffer first, then the peer's limit.
  let buffered := s.send.writeOffset - s.send.ackedOffset
  let avail := if streamBufSize > buffered then streamBufSize - buffered else 0
  let fcAvail :=
    if s.flow.peerMaxData > s.send.writeOffset then s.flow.peerMaxData - s.send.writeOffset else 0
  if avail > fcAvail then fcAvail else avail

/-- How many of the octets offered are accepted. -/
def streamWriteCount (s : Stream) (len : UInt64) : UInt64 :=
  if len < streamWriteAvail s then len else streamWriteAvail s

/-- Accept as much of the application's data as fits, or refuse with no count. -/
def streamWrite (s : Stream) (data : Bytes) (fin : Bool) : Option UInt64 × Stream :=
  if s.state = .halfClosedLocal ∨ s.state = .closed ∨ s.state = .reset then (none, s)
  else if s.send.fin then (none, s)
  else
    let toWrite := streamWriteCount s (UInt64.ofNat data.length)
    let send :=
      if toWrite > 0 then
        { s.send with
          data := Ring.wrapCopy streamBufSize.toNat s.send.data s.send.writeOffset.toNat
            (data.take toWrite.toNat)
          writeOffset := s.send.writeOffset + toWrite }
      else s.send
    (some toWrite, { s with send := if fin then { send with fin := true } else send })

/-- Whether every octet up to the final one has been read. -/
def recvFinReached (recv : RecvBuf) : Bool :=
  recv.finReceived && recv.readOffset ≥ recv.finOffset

/-- Hand over buffered data, together with whether the end of the stream was reached. -/
def streamRead (s : Stream) (bufLen : UInt64) : Bytes × Bool × Stream :=
  if s.recv.readOffset ≥ s.recv.recvOffset then ([], recvFinReached s.recv, s)
  else
    let available := s.recv.recvOffset - s.recv.readOffset
    let toRead := if bufLen < available then bufLen else available
    let bytes := Ring.wrapRead streamBufSize.toNat s.recv.data s.recv.readOffset.toNat toRead.toNat
    let recv := { s.recv with readOffset := s.recv.readOffset + toRead }
    (bytes, recvFinReached recv, { s with recv := recv, flow := flowOnConsume s.flow })

/-- How many accepted octets have not been put on the wire since the last rewind. -/
def streamUnsent (s : Stream) : UInt64 :=
  if s.send.sentOffset ≥ s.send.writeOffset then 0 else s.send.writeOffset - s.send.sentOffset

/-- Whether a queued end of stream still has to be put on the wire. -/
def streamFinPending (s : Stream) : Bool := s.send.fin && !s.send.finSent

/-- Length of the next frame, cut at the caller's limit and at the end of the buffer. -/
def streamFillLen (s : Stream) (maxDataLen : UInt64) : UInt64 :=
  let dataLen := if streamUnsent s < maxDataLen then streamUnsent s else maxDataLen
  let first := streamBufSize - s.send.sentOffset % streamBufSize
  if dataLen ≤ first then dataLen else first

/-- Produce the next frame of the stream and advance past what it carries. -/
def streamFillFrame (s : Stream) (maxDataLen : UInt64) : Option FrameStream × Stream :=
  if streamUnsent s = 0 ∧ !streamFinPending s then (none, s)
  else
    let dataLen := streamFillLen s maxDataLen
    let bufPos := s.send.sentOffset % streamBufSize
    let fin := streamFinPending s && s.send.sentOffset + dataLen == s.send.writeOffset
    let frame : FrameStream :=
      { streamId := s.id
        offset := s.send.sentOffset
        length := dataLen
        hasOffset := s.send.sentOffset > 0
        hasLength := true
        fin := fin
        data := if dataLen > 0 then some (Ring.readAt s.send.data bufPos.toNat dataLen.toNat)
          else none
        covered := by
          -- A frame without data has the null pointer and length zero.
          by_cases positive : dataLen > 0
          · simp [positive]
          · have zero : dataLen = 0 := by grind
            simp [zero] }
    let send := if fin then { s.send with finSent := true } else s.send
    (some frame, { s with send := { send with sentOffset := s.send.sentOffset + dataLen } })

/-- Offset a received frame speaks about, zero when the field is absent. -/
def FrameStream.startOffset (f : FrameStream) : UInt64 := if f.hasOffset then f.offset else 0

/-- Offset just past a received frame, in the wrapping arithmetic of the field. -/
def FrameStream.endOffset (f : FrameStream) : UInt64 := f.startOffset + f.length

/-- Store a frame's data beyond what was read already, moving the frontier to its end. -/
def recvStore (recv : RecvBuf) (f : FrameStream) (bytes : Bytes) : RecvBuf :=
  if f.endOffset > recv.readOffset then
    let skip := if f.startOffset < recv.readOffset then recv.readOffset - f.startOffset else 0
    let copyStart := if f.startOffset < recv.readOffset then recv.readOffset else f.startOffset
    { recv with
      data := Ring.wrapCopy streamBufSize.toNat recv.data copyStart.toNat (bytes.drop skip.toNat)
      recvOffset := if f.endOffset > recv.recvOffset then f.endOffset else recv.recvOffset }
  else recv

/-- Take a frame's data, if it has any. -/
def recvData (s : Stream) (f : FrameStream) : Stream :=
  match f.data with
  | none => s
  | some bytes =>
    if f.length > 0 then
      { s with recv := recvStore s.recv f bytes, flow := flowOnRecv s.flow f.length }
    else s

/-- Take a frame's end-of-stream mark, closing the receiving direction at once. -/
def recvFin (s : Stream) (f : FrameStream) : Stream :=
  if f.fin then
    let s := { s with recv := { s.recv with finReceived := true, finOffset := f.endOffset } }
    match s.state with
    | .open => setStreamState s .halfClosedRemote
    | .halfClosedLocal => setStreamState s .closed
    | _ => s
  else s

/-- Process an incoming frame of the stream. -/
def streamOnRecv (s : Stream) (f : FrameStream) : ErrorCode × Stream :=
  if s.state = .halfClosedRemote ∨ s.state = .closed ∨ s.state = .reset then (.streamClosed, s)
  else if f.endOffset > s.flow.localMaxData then (.flowControl, s)
  else (.ok, recvFin (recvData s f) f)

/-- Release what an acknowledged frame carried. -/
def streamOnAck (s : Stream) (offset : UInt64) (len : UInt32) (fin : Bool) : Stream :=
  let endOffset := offset + len.toUInt64
  let s :=
    if endOffset > s.send.ackedOffset then
      { s with send := { s.send with ackedOffset := endOffset } }
    else s
  if fin then
    let s := { s with send := { s.send with finAcked := true } }
    match s.state with
    | .halfClosedRemote => setStreamState s .closed
    | .open => setStreamState s .halfClosedLocal
    | _ => s
  else s

/-- Rewind to what a lost frame carried so that it is sent again. -/
def streamOnLoss (s : Stream) (offset : UInt64) (_len : UInt32) (fin : Bool) : Stream :=
  let s :=
    if offset < s.send.sentOffset then
      { s with send := { s.send with sentOffset := offset } }
    else s
  if fin then { s with send := { s.send with finSent := false } } else s

end Nxp
