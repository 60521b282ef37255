import Nxp.Core.Frame
import Nxp.Core.Packet
import Nxp.Core.Scheduler
import Nxp.Crypto.HeaderProtection

/-! What a received datagram does to a connection. -/

namespace Nxp

/-- Apply the limits the peer announced, those that are zero being ignored. -/
def applyPeerParams (conn : Conn) (hs : Handshake) : Conn :=
  if hs.hasPeerParams then
    let tp := hs.peerParams
    { conn with
      connFlow :=
        if tp.initialMaxData > 0 then flowSetPeerMax conn.connFlow tp.initialMaxData
        else conn.connFlow
      peerMaxStreamsBidi :=
        if tp.maxStreamsBidi > 0 then tp.maxStreamsBidi else conn.peerMaxStreamsBidi
      peerMaxStreamsUni :=
        if tp.maxStreamsUni > 0 then tp.maxStreamsUni else conn.peerMaxStreamsUni }
  else conn

/-- Take an acknowledgement and update the counters that mirror the tracker. -/
def recvAckFrame (conn : Conn) (frame : FrameAck) (nowUs : UInt64) : Conn :=
  let (ack, conn) := ackOnAckRecv onPacketAcked onPacketLost conn.ack frame nowUs conn
  { conn with
    ack := ack
    stats := { conn.stats with
      rttSmoothedUs := ack.smoothedRtt
      rttVarUs := ack.rttVar
      rttMinUs := if ack.minRtt ≠ timeNever then ack.minRtt else conn.stats.rttMinUs
      bytesInFlight := ack.bytesInFlight } }

/-- A stream for data of the peer. -/
def openRemoteStream (env : Env) (conn : Conn) (streamId : UInt64) : Stream × Conn :=
  let s := streamCreate streamId .reliable conn.initialMaxStreamData conn.initialMaxStreamData
  let conn := storeStream env conn streamId s
  let conn := { conn with
    stats := { conn.stats with streamsOpened := conn.stats.streamsOpened + 1 } }
  (s, if conn.onNewStream then conn.observe (.newStream streamId) else conn)

/-- Take stream data, opening the stream when the peer may open it. -/
def recvStreamFrame (env : Env) (conn : Conn) (frame : FrameStream) : ErrorCode × Conn :=
  match conn.stream frame.streamId with
  | some s =>
    let (code, s) := streamOnRecv s frame
    (code, conn.setStream frame.streamId s)
  | none =>
    if streamIdIsLocal frame.streamId conn.isServer then (.invalidFrame, conn)
    else if !env.allocStream frame.streamId then (.outOfMemory, conn)
    else
      let (s, conn) := openRemoteStream env conn frame.streamId
      let (code, s) := streamOnRecv s frame
      (code, conn.modifyStream frame.streamId fun _ => s)

/-- Take a new limit for a stream, which may then have something to send again. -/
def recvMaxStreamData (conn : Conn) (streamId maxStreamData : UInt64) : Conn :=
  match conn.stream streamId with
  | none => conn
  | some s =>
    let s := { s with flow := flowSetPeerMax s.flow maxStreamData }
    let conn := conn.setStream streamId s
    if streamUnsent s > 0 then schedAdd conn streamId else conn

/-- Take the notice that the server is done, in an application packet. -/
def recvHandshakeDone (conn : Conn) : Conn :=
  match conn.handshake with
  | none => conn
  | some hs =>
    match handshakeOnHandshakeDone hs with
    | (.ok, hs) => applyPeerParams (setConnState { conn with handshake := some hs } .established) hs
    | (_, hs) => { conn with handshake := some hs }

/-- Take the answer to a path challenge, moving to the new path when it is right. -/
def recvPathResponse (conn : Conn) (data : Vector UInt8 8) : Conn :=
  match migrationOnPathResponse conn.migration data with
  | (false, ms) => { conn with migration := ms }
  | (true, ms) =>
    let conn := { conn with migration := ms, peerAddr := ms.currentPath.addr }
    match migrationGetUnusedCid ms with
    | none => conn
    | some entry =>
      { conn with dcid := entry.cid, migration := migrationUseCid ms entry.seqNum }

/-- Keep a session ticket, on the client's side and while it fits. -/
def recvNewToken (conn : Conn) (token : Bytes) : Conn :=
  match conn.handshake with
  | none => conn
  | some hs =>
    if conn.isServer ∨ token.length > 256 then conn
    else { conn with handshake := some { hs with sessionTicket := token, hasSessionTicket := true } }

/-- Take one frame of an application packet. -/
def processFrame (env : Env) (conn : Conn) (frame : Frame) (nowUs : UInt64) : ErrorCode × Conn :=
  match frame with
  | .ack f => (.ok, recvAckFrame conn f nowUs)
  | .stream f => recvStreamFrame env conn f
  | .maxData maxData => (.ok, { conn with connFlow := flowSetPeerMax conn.connFlow maxData })
  | .maxStreamData streamId maxStreamData => (.ok, recvMaxStreamData conn streamId maxStreamData)
  | .maxStreams maxStreams true => (.ok, { conn with peerMaxStreamsBidi := maxStreams.toUInt32 })
  | .maxStreams maxStreams false => (.ok, { conn with peerMaxStreamsUni := maxStreams.toUInt32 })
  | .connectionClose _ => (.ok, setConnState conn .draining)
  | .handshakeDone => (.ok, recvHandshakeDone conn)
  | .pathChallenge data =>
    (.ok, { conn with migration := migrationOnPathChallenge conn.migration data })
  | .pathResponse data => (.ok, recvPathResponse conn data)
  | .newConnectionId f =>
    let ms := migrationOnNewConnectionId conn.migration f.cid f.seqNum f.retirePriorTo
      f.statelessResetToken
    (.ok, { conn with migration := ms })
  | .newToken token => (.ok, recvNewToken conn token)
  | .heartbeat timestampUs =>
    (.ok, { conn with heartbeat := heartbeatOnRecv conn.heartbeat timestampUs nowUs })
  | _ => (.ok, conn)

/-- Take the frames of a payload in turn, stopping at the first that is refused. -/
def processLoop (env : Env) (nowUs : UInt64) : Nat → Conn → Bytes → ErrorCode × Conn
  | 0, conn, _ => (.ok, conn)
  | fuel + 1, conn, payload =>
    if payload.isEmpty then (.ok, conn)
    else
      match frameDecode payload with
      | none => (.invalidFrame, conn)
      | some (frame, rest) =>
        match processFrame env conn frame nowUs with
        | (.ok, conn) => processLoop env nowUs fuel conn rest
        | (code, conn) => (code, conn)

/-- Take a payload; each frame has at least one octet, so the length bounds their number. -/
def processFrames (env : Env) (conn : Conn) (payload : Bytes) (nowUs : UInt64) :
    ErrorCode × Conn :=
  processLoop env nowUs payload.length conn payload

/-- Learn the peer's identifier from the header of a handshake packet. -/
def learnDcid (conn : Conn) (hdr : PktLongHeader) : Conn :=
  if conn.isServer then
    if hdr.type = .initial ∧ conn.dcid.len = 0 then { conn with dcid := hdr.scid } else conn
  else if hdr.type = .initial ∨ hdr.type = .handshake then { conn with dcid := hdr.scid }
  else conn

/-- Level and keys of a handshake packet. -/
def longKeys (hs : Handshake) : PacketType → Option (CryptoLevel × CryptoState)
  | .initial => some (.initial, hs.initialKeys)
  | .handshake => some (.handshake, hs.handshakeKeys)
  | _ => none

/-- Open the payload of a handshake packet. -/
def openLong (evp : Evp) (keys : CryptoState) (data : Bytes) (hdr : PktLongHeader) :
    Option Bytes := do
  let (pnLen, pkt) ← hpUnprotect evp keys.algo keys.recv.hpKey data hdr.pktNumOffset
  let truncPn := readBigEndian ((pkt.drop hdr.pktNumOffset).take pnLen)
  let fullPn := pktDecodePktNum 0 truncPn pnLen
  let hdrLen := hdr.pktNumOffset + pnLen
  aeadDecrypt evp keys.algo keys.recv.key (cryptoMakeNonce keys.recv.iv fullPn)
    (pkt.take hdrLen) (pkt.drop hdrLen)

/-- Install the application keys as soon as they exist, unless some are installed already. -/
def installKeys (conn : Conn) (hs : Handshake) : Conn :=
  if hs.appKeys.available ∧ !conn.crypto.available then { conn with crypto := hs.appKeys } else conn

/-- Take handshake bytes and, when they complete the handshake, enter the established state. -/
def recvCryptoFrame (evp : Evp) (conn : Conn) (hs : Handshake) (level : CryptoLevel)
    (data : Bytes) : ErrorCode × Conn :=
  match handshakeRecvCrypto evp hs level data with
  | (.ok, hs) =>
    let conn := installKeys { conn with handshake := some hs } hs
    if handshakeIsComplete hs then (.ok, applyPeerParams (setConnState conn .established) hs)
    else (.ok, conn)
  | (code, hs) => (code, { conn with handshake := some hs })

/-- Take the notice that the server is done, in a handshake packet. -/
def recvLongHandshakeDone (conn : Conn) (hs : Handshake) : ErrorCode × Conn :=
  match handshakeOnHandshakeDone hs with
  | (.ok, hs) =>
    let conn := { conn with handshake := some hs, crypto := hs.appKeys }
    (.ok, applyPeerParams (setConnState conn .established) hs)
  | (code, hs) => (code, { conn with handshake := some hs })

/-- Take one frame of a handshake packet, those about anything else being ignored. -/
def processLongFrame (evp : Evp) (conn : Conn) (level : CryptoLevel) (frame : Frame) :
    ErrorCode × Conn :=
  match conn.handshake, frame with
  | some hs, .crypto _ data => recvCryptoFrame evp conn hs level data
  | some hs, .handshakeDone => recvLongHandshakeDone conn hs
  | _, _ => (.ok, conn)

/-- Take the frames of a handshake packet in turn. -/
def processLongLoop (evp : Evp) (level : CryptoLevel) : Nat → Conn → Bytes → ErrorCode × Conn
  | 0, conn, _ => (.ok, conn)
  | fuel + 1, conn, payload =>
    if payload.isEmpty then (.ok, conn)
    else
      match frameDecode payload with
      | none => (.invalidFrame, conn)
      | some (frame, rest) =>
        match processLongFrame evp conn level frame with
        | (.ok, conn) => processLongLoop evp level fuel conn rest
        | (code, conn) => (code, conn)

/-- Take a packet with a long header. -/
def recvHandshakePacket (evp : Evp) (conn : Conn) (data : Bytes) : ErrorCode × Conn :=
  match conn.handshake with
  | none => (.invalidPacket, conn)
  | some hs =>
    if data.length > packetBufSize then (.invalidPacket, conn)
    else
      match pktDecodeLongHeader data with
      | none => (.invalidPacket, conn)
      | some hdr =>
        let conn := learnDcid conn hdr
        match longKeys hs hdr.type with
        | none => (.invalidPacket, conn)
        | some (level, keys) =>
          if !keys.available then (.cryptoFail, conn)
          else
            match openLong evp keys data hdr with
            | none => (.cryptoFail, conn)
            | some payload => processLongLoop evp level payload.length conn payload

/-- Remove header protection when there are keys for it. -/
def unprotectShort (evp : Evp) (conn : Conn) (data : Bytes) : Option Bytes :=
  if conn.crypto.available then
    (hpUnprotect evp conn.crypto.algo conn.crypto.recv.hpKey data (1 + conn.scid.len)).map (·.2)
  else some data

/-- The call that opens an application packet. -/
def openCall (conn : Conn) (pkt : Bytes) (hdrLen : Nat) (fullPn : UInt64) : OpenCall where
  algo := conn.crypto.algo
  key := conn.crypto.recv.key
  nonce := cryptoMakeNonce conn.crypto.recv.iv fullPn
  aad := pkt.take hdrLen
  sealed := pkt.drop hdrLen

/-- Make a call of the cipher. -/
def OpenCall.run (evp : Evp) (call : OpenCall) : Option Bytes :=
  aeadDecrypt evp call.algo call.key call.nonce call.aad call.sealed

/-- The payload of an application packet, taken as it stands when there are no keys. -/
def openShort (evp : Evp) (conn : Conn) (pkt : Bytes) (hdrLen : Nat) (fullPn : UInt64) :
    Option (Bytes × Option OpenCall) :=
  if conn.crypto.available then
    let call := openCall conn pkt hdrLen fullPn
    (call.run evp).map fun payload => (payload, some call)
  else some (pkt.drop hdrLen, none)

/-- Take a packet with a short header; its number is recorded before it is opened. -/
def recvShortPacket (evp : Evp) (env : Env) (conn : Conn) (data : Bytes) (nowUs : UInt64) :
    ErrorCode × Conn :=
  if data.length > packetBufSize then (.invalidPacket, conn)
  else
    match unprotectShort evp conn data with
    | none => (.cryptoFail, conn)
    | some pkt =>
      match pktDecodeShortHeader pkt conn.scid.len conn.scid_len_le with
      | none => (.invalidPacket, conn)
      | some hdr =>
        let fullPn := pktDecodePktNum conn.ack.largestRecvPn hdr.pktNum hdr.pktNumLen
        let conn := { conn with ack := ackOnPktRecv conn.ack fullPn nowUs true }
        match openShort evp conn pkt hdr.headerLen fullPn with
        | none => (.cryptoFail, conn)
        | some (payload, opened) =>
          processFrames env (conn.observe (.processed payload opened)) payload nowUs

/-- Note that a datagram came in. -/
def noteRecv (conn : Conn) (len : Nat) (nowUs : UInt64) : Conn :=
  { conn with
    lastActivityUs := nowUs
    stats := { conn.stats with
      bytesRecv := conn.stats.bytesRecv + UInt64.ofNat len
      packetsRecv := conn.stats.packetsRecv + 1 } }

/-- Take a datagram. -/
def connRecv (evp : Evp) (env : Env) (conn : Conn) (data : Bytes) (nowUs : UInt64) :
    ErrorCode × Conn :=
  match data with
  | [] => (.invalidArgument, conn)
  | first :: _ =>
    if conn.state = .closed ∨ conn.state = .draining then (.connectionClosed, conn)
    else
      let conn := noteRecv conn data.length nowUs
      if pktIsLongHeader first then recvHandshakePacket evp conn data
      else recvShortPacket evp env conn data nowUs

end Nxp
