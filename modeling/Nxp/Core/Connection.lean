import Nxp.Congestion.Bbr
import Nxp.Core.Handshake
import Nxp.Core.Heartbeat
import Nxp.Core.Migration
import Nxp.Core.Stream
import Mathlib.Data.List.AList

/-! The state of a connection, its streams, and what acknowledgements and losses do to them. -/

namespace Nxp

/-- Streams allowed when the configuration names no number. -/
def maxStreamsDefault : UInt32 := 256

/-- Connection limit when the configuration names none. -/
def defaultMaxData : UInt64 := 1048576

/-- Stream limit when the configuration names none. -/
def defaultMaxStreamData : UInt64 := 262144

/-- Idle timeout when the configuration names none. -/
def defaultIdleTimeout : UInt64 := 30000000

/-- Counters kept for the application. -/
structure ConnStats where
  bytesSent : UInt64
  bytesRecv : UInt64
  packetsSent : UInt64
  packetsRecv : UInt64
  packetsLost : UInt64
  rttMinUs : UInt64
  rttSmoothedUs : UInt64
  rttVarUs : UInt64
  bytesInFlight : UInt64
  streamsOpened : UInt64
  deriving DecidableEq, Repr

/-- A call of the cipher that opened a payload. -/
structure OpenCall where
  algo : AeadAlgo
  key : Key
  nonce : Nonce
  aad : Bytes
  sealed : Bytes
  deriving DecidableEq, Repr

/-- What an observer of the connection sees: callbacks made, payloads processed, packets sealed. -/
inductive ConnEvent where
  | packetAcked (pkt : SentPkt)
  | packetLost (pkt : SentPkt)
  | newStream (streamId : UInt64)
  | writable (streamId : UInt64)
  | processed (payload : Bytes) (opened : Option OpenCall)
  | packetSealed (level : CryptoLevel) (keys : CryptoKeys) (pktNum : UInt64)
  deriving DecidableEq

/-- What a connection is created from. -/
structure ConnConfig where
  scid : ConnId
  peerAddr : Addr
  idleTimeoutUs : UInt64
  initialMaxData : UInt64
  initialMaxStreamData : UInt64
  maxStreamsBidi : UInt32
  maxStreamsUni : UInt32

/-- Streams by identifier. -/
abbrev StreamMap := AList fun _ : UInt64 => Stream

/-- A connection; the trace is not in the program and only records what an observer sees. -/
structure Conn where
  scid : ConnId
  dcid : ConnId
  state : ConnState
  isServer : Bool
  peerAddr : Addr
  nextPktNum : UInt64
  ack : AckState
  crypto : CryptoState
  handshake : Option Handshake
  migration : MigrationState
  cc : Option Bbr
  pacer : Pacer
  deliveryRate : DeliveryRate
  heartbeat : Heartbeat
  autoReconnect : Bool
  maxReconnectAttempts : UInt32
  streams : StreamMap
  nextBidiId : UInt64
  nextUniId : UInt64
  localMaxStreamsBidi : UInt32
  localMaxStreamsUni : UInt32
  peerMaxStreamsBidi : UInt32
  peerMaxStreamsUni : UInt32
  openBidiCount : UInt32
  openUniCount : UInt32
  connFlow : FlowCtrl
  schedHead : Option UInt64
  initialMaxStreamData : UInt64
  idleTimeoutUs : UInt64
  lastActivityUs : UInt64
  sendPing : Bool
  sendConnClose : Bool
  closeErrorCode : UInt64
  onNewStream : Bool
  stats : ConnStats
  trace : List ConnEvent

/-- Outcomes of the requests a step makes of the system, each of which may be refused, and how many
turns of the stream loop are waited for, a loop that takes more being one that never ends. -/
structure Env where
  allocStream : (streamId : UInt64) → Bool
  allocMap : (streamId : UInt64) → Bool
  allocSent : Bool
  allocHandshake : Bool
  privateKey : Option Key
  turns : Nat

/-- The configured value, or a default in place of zero. -/
def orDefault (value default : UInt64) : UInt64 := if value = 0 then default else value

/-- The configured number of streams, or a default in place of zero. -/
def streamsOrDefault (value : UInt32) : UInt32 := if value = 0 then maxStreamsDefault else value

/-- A new connection, without a congestion controller when there is no memory for one. -/
def connCreate (config : ConnConfig) (isServer allocCc : Bool) : Conn where
  scid := config.scid
  dcid := ConnId.empty
  state := .idle
  isServer := isServer
  peerAddr := config.peerAddr
  nextPktNum := 0
  ack := ackInit
  crypto := CryptoState.zero
  handshake := none
  migration := migrationInit
  cc := if allocCc then some bbrInitState else none
  pacer := pacerInit
  deliveryRate := drInit
  heartbeat := heartbeatInit 0
  autoReconnect := false
  maxReconnectAttempts := 3
  streams := ∅
  nextBidiId := 0
  nextUniId := 0
  localMaxStreamsBidi := config.maxStreamsBidi
  localMaxStreamsUni := config.maxStreamsUni
  -- The peer's limits start out as this side's own.
  peerMaxStreamsBidi := streamsOrDefault config.maxStreamsBidi
  peerMaxStreamsUni := streamsOrDefault config.maxStreamsUni
  openBidiCount := 0
  openUniCount := 0
  connFlow := flowInit (orDefault config.initialMaxData defaultMaxData)
    (orDefault config.initialMaxData defaultMaxData)
  schedHead := none
  initialMaxStreamData := orDefault config.initialMaxStreamData defaultMaxStreamData
  idleTimeoutUs := orDefault config.idleTimeoutUs defaultIdleTimeout
  lastActivityUs := 0
  sendPing := false
  sendConnClose := false
  closeErrorCode := 0
  onNewStream := false
  stats := ⟨0, 0, 0, 0, 0, 0, 0, 0, 0, 0⟩
  trace := []

/-- Which moves between states are honoured. -/
def isValidConnStateTransition (source target : ConnState) : Bool :=
  if target = .closed then true
  else match source with
    | .idle => target = .handshakeInitial ∨ target = .established
    | .handshakeInitial =>
      target = .handshakeInProgress ∨ target = .established ∨ target = .handshakeInitial
    | .handshakeInProgress => target = .established
    | .established => target = .closing ∨ target = .draining ∨ target = .established
    | .closing => target = .draining
    | .draining | .closed | .unknown _ _ => false

/-- Move to a state, ignoring a move that is not honoured. -/
def setConnState (conn : Conn) (newState : ConnState) : Conn :=
  if !isValidConnStateTransition conn.state newState then conn
  else { conn with state := newState }

namespace Conn

/-- A connection's own identifier is no longer than the protocol allows. -/
theorem scid_len_le (conn : Conn) : conn.scid.len ≤ maxCidLen := conn.scid.len_le

/-- The stream with an identifier. -/
def stream (conn : Conn) (id : UInt64) : Option Stream := conn.streams.lookup id

/-- Put a stream in the place of its identifier. -/
def setStream (conn : Conn) (id : UInt64) (s : Stream) : Conn :=
  { conn with streams := conn.streams.insert id s }

/-- Change a stream where there is one. -/
def modifyStream (conn : Conn) (id : UInt64) (f : Stream → Stream) : Conn :=
  match conn.stream id with
  | none => conn
  | some s => conn.setStream id (f s)

/-- Record something an observer sees. -/
def observe (conn : Conn) (event : ConnEvent) : Conn :=
  { conn with trace := conn.trace ++ [event] }

end Conn

/-- Put a new stream into the map, which is forgotten when the map cannot grow. -/
def storeStream (env : Env) (conn : Conn) (id : UInt64) (s : Stream) : Conn :=
  if env.allocMap id then conn.setStream id s else conn

/-- Wire number of a delivery class. -/
def streamTypeNum : StreamType → UInt64
  | .reliable => 0
  | .fast => 1
  | .media => 2
  | .file => 3

/-- Identifier of a stream: its number, its class, its direction and who opened it. -/
def makeStreamId (seq : UInt64) (type : StreamType) (unidirectional isServer : Bool) : UInt64 :=
  (seq <<< 4) ||| (streamTypeNum type <<< 2) ||| (if unidirectional then 2 else 0) |||
    (if isServer then 1 else 0)

/-- Whether this side opened a stream. -/
def streamIdIsLocal (streamId : UInt64) (isServer : Bool) : Bool :=
  (streamId &&& 1 != 0) == isServer

end Nxp
