import Nxp.Types

/-! Packets over a byte stream, each behind its length in two octets. -/

namespace Nxp

/-- Size of the receive buffer. -/
def tcpRecvBufSize : Nat := 65536

/-- Receiving half of a transport: octets that were read, never more than the buffer holds, and
those that wait in the socket. -/
structure TcpTransport where
  recvBuf : Bytes
  bounded : recvBuf.length ≤ tcpRecvBufSize
  socket : Bytes

/-- Nothing received yet. -/
def tcpStart : TcpTransport := ⟨[], Nat.zero_le _, []⟩

/-- Octets that stand for a message on the stream. -/
def tcpFrame (data : Bytes) : Bytes :=
  let len := UInt64.ofNat data.length
  [(len >>> 8).toUInt8, len.toUInt8] ++ data

/-- Send a message through a socket that accepts so many octets, and what gets on the stream. -/
def tcpSend (data : Bytes) (accepted : Nat) : Int × Bytes :=
  if data.length > 65535 then (-1, [])
  else
    let sent := min accepted (tcpFrame data).length
    (if sent ≤ 2 then -1 else (sent : Int) - 2, (tcpFrame data).take sent)

/-- Read from the socket once, and take a message off the buffer if one is complete. -/
def tcpRecv (tc : TcpTransport) (cap : Nat) : Int × Bytes × TcpTransport :=
  let space := tcpRecvBufSize - tc.recvBuf.length
  let fresh := tc.socket.take space
  -- A socket without octets would block, and no octet can be read into a full buffer.
  if fresh = [] then (if space = 0 then 0 else -1, [], tc)
  else
    let buf := tc.recvBuf ++ fresh
    have bounded : buf.length ≤ tcpRecvBufSize := by
      have := tc.bounded
      simp only [buf, fresh, space, List.length_append, List.length_take]
      omega
    let rest := tc.socket.drop space
    let msgLen := (readBigEndian (buf.take 2)).toNat
    if buf.length < 2 then (0, [], ⟨buf, bounded, rest⟩)
    else if msgLen = 0 then (0, [], ⟨buf, bounded, rest⟩)
    else if buf.length < msgLen + 2 then (0, [], ⟨buf, bounded, rest⟩)
    else
      let payload := (buf.drop 2).take (min msgLen cap)
      (payload.length, payload,
        ⟨buf.drop (msgLen + 2), Nat.le_trans (by simp) bounded, rest⟩)

/-- Receive until no data is reported, for at most so many calls. -/
def tcpDrain (cap : Nat) : Nat → TcpTransport → Option (List Bytes × TcpTransport)
  | 0, _ => none
  | calls + 1, tc =>
    let (n, data, tc) := tcpRecv tc cap
    if n ≤ 0 then some ([], tc)
    else (tcpDrain cap calls tc).map fun (messages, tc) => (data :: messages, tc)

/-- A chunk arrives and everything is received that is reported, the messages of before coming
first. -/
def tcpDeliver (cap : Nat) (s : TcpTransport × List Bytes) (chunk : Bytes) :
    Option (TcpTransport × List Bytes) :=
  let socket := s.1.socket ++ chunk
  (tcpDrain cap (socket.length + 1) { s.1 with socket := socket }).map
    fun (messages, tc) => (tc, s.2 ++ messages)

end Nxp
