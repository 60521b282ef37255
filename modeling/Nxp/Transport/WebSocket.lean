import Nxp.Transport.WsFrame

/-! Packets over WebSocket frames: one frame is taken per read, and pings are answered at once. -/

namespace Nxp

/-- Size of the buffers, the largest payload and header. -/
def wsBufSize : Nat := 65550

/-- Opcode of a frame of data. -/
def wsOpBinary : UInt8 := 0x2

/-- Opcode of a frame that closes. -/
def wsOpClose : UInt8 := 0x8

/-- Opcode of a frame that asks for an answer. -/
def wsOpPing : UInt8 := 0x9

/-- Opcode of an answer. -/
def wsOpPong : UInt8 := 0xA

/-- A transport: octets that were read, never more than the buffer holds, those that wait in the
socket, and those that went out as replies. -/
structure WsTransport where
  connected : Bool
  recvBuf : Bytes
  bounded : recvBuf.length ≤ wsBufSize
  socket : Bytes
  replies : List Bytes

/-- A transport after the handshake. -/
def wsStart : WsTransport := ⟨true, [], Nat.zero_le _, [], []⟩

/-- Octets a payload points to once so many from the end of the buffer were moved to its start. -/
def WsDecoded.movedPayload (d : WsDecoded) (moved : Nat) : Bytes :=
  let buf := d.buf.drop (d.buf.length - moved) ++ d.buf.drop moved
  (buf.take (d.head.pos + d.head.payloadLen.toNat)).drop d.head.pos

/-- Read from the socket once, and take a frame off the buffer if one is complete; nothing is
returned when octets outside the buffer are touched. -/
def wsRecv (ws : WsTransport) (cap : Nat) : Option (Int × Bytes × WsTransport) :=
  if !ws.connected then some (-1, [], ws)
  else
    let space := wsBufSize - ws.recvBuf.length
    let fresh := ws.socket.take space
    if fresh = [] then some (if space = 0 then 0 else -1, [], ws)
    else
      let buf := ws.recvBuf ++ fresh
      have bounded : buf.length ≤ wsBufSize := by
        have := ws.bounded
        simp only [buf, fresh, space, List.length_append, List.length_take]
        omega
      let ws : WsTransport := { ws with
        recvBuf := buf, bounded := bounded, socket := ws.socket.drop space }
      match wsFrameDecode buf with
      | .incomplete => some (0, [], ws)
      | .faulted => none
      | .decoded d =>
        if d.frameTotal = 0 then some (0, [], ws)
        else
          let consumed := d.frameTotal.toNat
          -- The rest of the buffer moves to its start before the payload is used for a reply.
          let moved := buf.length - consumed
          let view := d.movedPayload moved
          if sized : view.length = d.head.payloadLen.toNat then
            let payload := d.payload.take cap
            let ws : WsTransport := { ws with
              recvBuf := buf.drop consumed, bounded := Nat.le_trans (by simp) bounded }
            if d.head.opcode = wsOpPing then
              let pong : WsFrame :=
                ⟨wsOpPong, true, none, d.head.payloadLen, some view, by rintro _ ⟨⟩; exact sized⟩
              let encoded := wsFrameEncode pong 128
              let replies := if encoded.result > 0 then [encoded.written] else []
              some (0, payload, { ws with replies := ws.replies ++ replies })
            else if d.head.opcode = wsOpClose then
              some (-1, payload, { ws with connected := false })
            else if d.head.opcode = wsOpPong then some (0, payload, ws)
            else some (payload.length, payload, ws)
          else none

/-- Receive until no data is reported, for at most so many calls. -/
def wsDrain (cap : Nat) : Nat → WsTransport → Option (List Bytes × WsTransport)
  | 0, _ => none
  | calls + 1, ws => do
    let (n, data, ws) ← wsRecv ws cap
    if n ≤ 0 then some ([], ws)
    else (wsDrain cap calls ws).map fun (messages, ws) => (data :: messages, ws)

/-- A chunk arrives and everything is received that is reported, the messages of before coming
first. -/
def wsDeliver (cap : Nat) (s : WsTransport × List Bytes) (chunk : Bytes) :
    Option (WsTransport × List Bytes) :=
  let socket := s.1.socket ++ chunk
  (wsDrain cap (socket.length + 1) { s.1 with socket := socket }).map
    fun (messages, ws) => (ws, s.2 ++ messages)

end Nxp
