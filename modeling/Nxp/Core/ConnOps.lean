import Nxp.Core.ConnRecv
import Nxp.Core.ConnSend

/-! Timers, stream operations and the handshake's start, and a connection as one machine. -/

namespace Nxp

/-- The earlier of two deadlines. -/
def earlier (a b : UInt64) : UInt64 := if b < a then b else a

/-- When the connection wants to be woken. -/
def connTimeout (conn : Conn) (nowUs : UInt64) : UInt64 :=
  if conn.state = .closed then timeNever
  else
    let timeout := earlier timeNever (ackLossTimeout conn.ack)
    let timeout :=
      if conn.lastActivityUs > 0 then earlier timeout (conn.lastActivityUs + conn.idleTimeoutUs)
      else timeout
    let timeout := if conn.ack.ackNeeded then earlier timeout conn.ack.ackDelayTimer else timeout
    let timeout :=
      if conn.pacer.enabled ∧ pacerNextSendTime conn.pacer bbrMaxDatagramSize > 0 then
        earlier timeout (nowUs + pacerNextSendTime conn.pacer bbrMaxDatagramSize)
      else timeout
    earlier timeout (heartbeatNextTimeout conn.heartbeat)

/-- Let the loss timer fire when it is due. -/
def lossTimer (conn : Conn) (nowUs : UInt64) : Conn :=
  let lossTime := ackLossTimeout conn.ack
  if lossTime ≠ timeNever ∧ nowUs ≥ lossTime then
    let (ack, conn) := ackOnLossTimeout onPacketLost conn.ack nowUs conn
    let conn := { conn with ack := ack }
    if ack.ptoCount > 0 then { conn with sendPing := true } else conn
  else conn

/-- Let every timer fire that is due, an idle connection being closed at once. -/
def connOnTimeout (conn : Conn) (nowUs : UInt64) : Conn :=
  if conn.lastActivityUs > 0 ∧ nowUs ≥ conn.lastActivityUs + conn.idleTimeoutUs then
    setConnState conn .closed
  else
    let conn := lossTimer conn nowUs
    let conn := { conn with heartbeat := heartbeatCheck conn.heartbeat nowUs }
    if heartbeatIsDead conn.heartbeat then setConnState conn .closed else conn

/-- Whether the peer lets one more stream be opened. -/
def streamsLeft (conn : Conn) (unidirectional : Bool) : Bool :=
  if unidirectional then conn.openUniCount < conn.peerMaxStreamsUni
  else conn.openBidiCount < conn.peerMaxStreamsBidi

/-- Count an opened stream. -/
def countOpened (conn : Conn) (unidirectional : Bool) : Conn :=
  let conn := { conn with
    stats := { conn.stats with streamsOpened := conn.stats.streamsOpened + 1 } }
  if unidirectional then
    { conn with nextUniId := conn.nextUniId + 1, openUniCount := conn.openUniCount + 1 }
  else { conn with nextBidiId := conn.nextBidiId + 1, openBidiCount := conn.openBidiCount + 1 }

/-- Identifier of the next stream this side opens. -/
def nextStreamId (conn : Conn) (type : StreamType) (unidirectional : Bool) : UInt64 :=
  makeStreamId (if unidirectional then conn.nextUniId else conn.nextBidiId) type unidirectional
    conn.isServer

/-- Open a stream under this side's own stream limit in both directions. -/
def connOpenStream (env : Env) (conn : Conn) (type : StreamType) (unidirectional : Bool) :
    Except ErrorCode UInt64 × Conn :=
  if !streamsLeft conn unidirectional then (.error .streamLimit, conn)
  else
    let id := nextStreamId conn type unidirectional
    if !env.allocStream id then (.error .outOfMemory, conn)
    else
      let s := streamCreate id type conn.initialMaxStreamData conn.initialMaxStreamData
      (.ok id, countOpened (storeStream env conn id s) unidirectional)

/-- Accept data for a stream; an end of stream without data does not put it in the ring. -/
def connStreamSend (conn : Conn) (streamId : UInt64) (data : Bytes) (fin : Bool) :
    Option UInt64 × Conn :=
  if conn.state ≠ .established then (none, conn)
  else
    match conn.stream streamId with
    | none => (none, conn)
    | some s =>
      match streamWrite s data fin with
      | (none, s) => (none, conn.setStream streamId s)
      | (some written, s) =>
        let conn := conn.setStream streamId s
        (some written, if written > 0 then schedAdd conn streamId else conn)

/-- Hand over what a stream received. -/
def connStreamRecv (conn : Conn) (streamId bufLen : UInt64) : Option (Bytes × Bool) × Conn :=
  match conn.stream streamId with
  | none => (none, conn)
  | some s =>
    let (bytes, fin, s) := streamRead s bufLen
    (some (bytes, fin), conn.setStream streamId s)

/-- Ask for the connection to be closed. -/
def connInitiateClose (conn : Conn) (errorCode : UInt64) : ErrorCode × Conn :=
  if conn.state = .closed ∨ conn.state = .draining then (.connectionClosed, conn)
  else (.ok, { conn with sendConnClose := true, closeErrorCode := errorCode })

/-- Limits this side announces. -/
def localTransportParams (conn : Conn) : TransportParams where
  initialMaxData := conn.connFlow.localMaxData
  initialMaxStreamData := conn.initialMaxStreamData
  maxStreamsBidi := conn.localMaxStreamsBidi
  maxStreamsUni := conn.localMaxStreamsUni
  idleTimeoutUs := conn.idleTimeoutUs
  maxEarlyData := 0
  activeCidLimit := 0

/-- Start the handshake in the role of this side, the client also taking the server's identifier. -/
def openHandshake (evp : Evp) (conn : Conn) (hs : Handshake) (peerCid : ConnId) :
    (ErrorCode × Handshake) × Conn :=
  if conn.isServer then
    (handshakeStartServer evp hs peerCid, setConnState conn .handshakeInitial)
  else
    (handshakeStartClient evp hs peerCid,
      setConnState { conn with dcid := peerCid } .handshakeInitial)

/-- Start the handshake; the move back to idle after a failure is not an honoured one. -/
def connStartHandshake (evp : Evp) (env : Env) (conn : Conn) (peerCid : ConnId) :
    ErrorCode × Conn :=
  if conn.state ≠ .idle then (.invalidArgument, conn)
  else
    match env.privateKey with
    | none => (.outOfMemory, conn)
    | some privkey =>
      if !env.allocHandshake then (.outOfMemory, conn)
      else
        let hs := handshakeSetLocalParams (handshakeCreate evp conn.isServer privkey)
          (localTransportParams conn)
        match openHandshake evp conn hs peerCid with
        | ((.ok, hs), conn) => (.ok, { conn with handshake := some hs })
        | ((code, _), conn) => (code, setConnState conn .idle)

/-- Establish a connection without a handshake. -/
def connSetEstablished (conn : Conn) (dcid : ConnId) : Conn :=
  setConnState { conn with dcid := dcid } .established

/-- Limit the rate of a stream. -/
def connSetStreamRate (conn : Conn) (streamId rateBps : UInt64) : ErrorCode × Conn :=
  match conn.stream streamId with
  | none => (.streamClosed, conn)
  | some s =>
    (.ok, conn.setStream streamId { s with rateLimit := streamRateSet s.rateLimit rateBps })

/-- Have a stream's owner told when it may write again. -/
def connSetOnWritable (conn : Conn) (streamId : UInt64) (present : Bool) : ErrorCode × Conn :=
  match conn.stream streamId with
  | none => (.streamClosed, conn)
  | some s => (.ok, conn.setStream streamId { s with onWritable := present })

/-- Everything that can be done to a connection. -/
inductive ConnOp where
  | startHandshake (peerCid : ConnId)
  | setEstablished (dcid : ConnId)
  | recv (data : Bytes) (nowUs : UInt64)
  | send (maxLen : Nat) (nowUs : UInt64)
  | onTimeout (nowUs : UInt64)
  | openStream (type : StreamType) (unidirectional : Bool)
  | streamSend (streamId : UInt64) (data : Bytes) (fin : Bool)
  | streamRecv (streamId bufLen : UInt64)
  | initiateClose (errorCode : UInt64)
  | setHeartbeat (intervalUs : UInt64)
  | setAutoReconnect (enable : Bool) (maxAttempts : UInt32)
  | setStreamRate (streamId rateBps : UInt64)
  | setOnWritable (streamId : UInt64) (present : Bool)
  | setOnNewStream (present : Bool)
  | peerAddrChange (addr : Addr) (challenge : Option (Vector UInt8 8)) (nowUs : UInt64)
  | migrationTimeout (nowUs ptoUs : UInt64)
  | generateCids (draw : UInt64 → Vector UInt8 20 × Vector UInt8 16)

/-- What an operation does under given outcomes of its requests, if it returns. -/
def connStep (evp : Evp) (conn : Conn) : Env × ConnOp → Option Conn
  | (env, .startHandshake peerCid) => some (connStartHandshake evp env conn peerCid).2
  | (_, .setEstablished dcid) => some (connSetEstablished conn dcid)
  | (env, .recv data nowUs) => some (connRecv evp env conn data nowUs).2
  | (env, .send maxLen nowUs) => (connSend evp env conn maxLen nowUs).map (·.2)
  | (_, .onTimeout nowUs) => some (connOnTimeout conn nowUs)
  | (env, .openStream type unidirectional) => some (connOpenStream env conn type unidirectional).2
  | (_, .streamSend streamId data fin) => some (connStreamSend conn streamId data fin).2
  | (_, .streamRecv streamId bufLen) => some (connStreamRecv conn streamId bufLen).2
  | (_, .initiateClose errorCode) => some (connInitiateClose conn errorCode).2
  | (_, .setHeartbeat intervalUs) => some { conn with heartbeat := heartbeatInit intervalUs }
  | (_, .setAutoReconnect enable maxAttempts) =>
    some { conn with autoReconnect := enable, maxReconnectAttempts := maxAttempts }
  | (_, .setStreamRate streamId rateBps) => some (connSetStreamRate conn streamId rateBps).2
  | (_, .setOnWritable streamId present) => some (connSetOnWritable conn streamId present).2
  | (_, .setOnNewStream present) => some { conn with onNewStream := present }
  | (_, .peerAddrChange addr challenge nowUs) =>
    let ms := (migrationOnPeerAddrChange conn.migration addr challenge nowUs).2
    some { conn with migration := ms }
  | (_, .migrationTimeout nowUs ptoUs) =>
    some { conn with migration := (migrationCheckTimeout conn.migration nowUs ptoUs).2 }
  | (_, .generateCids draw) =>
    some { conn with migration := migrationGenerateCids conn.migration conn.scid draw }

end Nxp
