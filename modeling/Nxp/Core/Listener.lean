import Nxp.Core.ConnOps
import Nxp.Core.RateLimit
import Nxp.Lib.Registry

/-! A server's listener: it hands datagrams to its connections and makes new ones. -/

namespace Nxp

/-- Connections allowed when the configuration names no number. -/
def listenerDefaultMaxConns : UInt32 := 4096

/-- Length of the identifiers a listener generates. -/
def listenerCidLen : Nat := 8

/-- Octets of a node's identifier that go into a generated one at most. -/
def listenerMaxNodeIdLen : Nat := 4

/-- Connections there is room for at first. -/
def listenerInitialCap : UInt32 := 64

/-- What a listener is created from. -/
structure ListenerConfig where
  nodeId : Vector UInt8 4
  nodeIdLen : UInt8
  maxConnections : UInt32
  idleTimeoutUs : UInt64
  initialMaxData : UInt64
  initialMaxStreamData : UInt64
  maxStreamsBidi : UInt32
  maxStreamsUni : UInt32
  requireRetry : Bool
  onNewConn : Bool

/-- What an observer of a listener sees: attempts to accept, connections made, callbacks. -/
inductive ListenerEvent where
  | accepting (token : Bytes) (fromAddr : Addr) (nowUs : UInt64)
  | created (handle : Nat) (token : Bytes) (fromAddr : Addr) (nowUs : UInt64)
  | newConn (handle : Nat)
  deriving DecidableEq

/-- A listener; connections are named by handles that are never used again, and the trace is not in
the program and only records what an observer sees. -/
structure Listener where
  config : ListenerConfig
  connMap : AList fun _ : UInt64 => Nat
  conns : List (Nat × Conn)
  connCap : UInt32
  sendIndex : UInt32
  totalAccepted : UInt64
  totalRejected : UInt64
  totalRetried : UInt64
  rateLimiter : Option RateLimiter
  nextHandle : Nat
  trace : List ListenerEvent

/-- Outcomes of the requests a listener makes of the system, with the octets drawn for an
identifier, whether or not drawing them succeeded; connections make requests of their own. -/
structure ListenerEnv where
  conn : (handle : Nat) → Env
  random : Vector UInt8 8
  allocConn : Bool
  allocCc : Bool
  allocArray : Bool
  allocMap : Bool
  allocBucket : Bool
  allocBuckets : Bool

/-- Hash of an identifier. -/
def cidHash (cid : ConnId) : UInt64 := fnvHash cid.data

/-- A new listener, without a rate limiter when there is no memory for one. -/
def listenerCreate (config : ListenerConfig) (allocLimiter : Bool) : Listener where
  config := { config with
    maxConnections :=
      if config.maxConnections = 0 then listenerDefaultMaxConns else config.maxConnections }
  connMap := ∅
  conns := []
  connCap := listenerInitialCap
  sendIndex := 0
  totalAccepted := 0
  totalRejected := 0
  totalRetried := 0
  rateLimiter := if allocLimiter then some rateLimiterCreate else none
  nextHandle := 0
  trace := []

namespace Listener

/-- The connection a handle names. -/
def conn (ls : Listener) (handle : Nat) : Option Conn := Registry.find ls.conns handle

/-- Put a connection in the place of the one a handle names. -/
def setConn (ls : Listener) (handle : Nat) (conn : Conn) : Listener :=
  { ls with conns := Registry.modify ls.conns handle fun _ => conn }

/-- Record what an observer sees. -/
def observe (ls : Listener) (event : ListenerEvent) : Listener :=
  { ls with trace := ls.trace ++ [event] }

/-- Handles the application was told of. -/
def announced (ls : Listener) : List Nat :=
  ls.trace.filterMap fun event =>
    match event with
    | .newConn handle => some handle
    | _ => none

end Listener

/-- Octets of the node's identifier that go into a generated one. -/
def nodeIdPrefixLen (config : ListenerConfig) : Nat :=
  min config.nodeIdLen.toNat listenerMaxNodeIdLen

/-- A new identifier: the node's octets, then random ones. -/
def listenerGenerateCid (config : ListenerConfig) (random : Vector UInt8 8) : ConnId where
  data := config.nodeId.toList.take (nodeIdPrefixLen config) ++
    random.toList.take (listenerCidLen - nodeIdPrefixLen config)
  bounded := by
    rw [List.length_append, List.length_take, List.length_take, Vector.length_toList,
      Vector.length_toList]
    unfold nodeIdPrefixLen listenerMaxNodeIdLen listenerCidLen maxCidLen
    omega

/-- Add a connection under the hash of its identifier, whether or not the map takes it. -/
def listenerAddConn (env : ListenerEnv) (ls : Listener) (handle : Nat) (conn : Conn) :
    ErrorCode × Listener :=
  if ls.conns.length ≥ ls.config.maxConnections.toNat then (.streamLimit, ls)
  else
    let full := ls.conns.length ≥ ls.connCap.toNat
    if full ∧ !env.allocArray then (.outOfMemory, ls)
    else
      (.ok, { ls with
        connCap := if full then ls.connCap * 2 else ls.connCap
        connMap :=
          if env.allocMap then ls.connMap.insert (cidHash conn.scid) handle else ls.connMap
        conns := ls.conns ++ [(handle, conn)] })

/-- The connection filed under the hash of an identifier. -/
def listenerFindConn (ls : Listener) (dcid : ConnId) : Option Nat :=
  ls.connMap.lookup (cidHash dcid)

/-- Remove a connection, and whatever the map has under the hash of its identifier. -/
def listenerRemoveConn (ls : Listener) (handle : Nat) (conn : Conn) : Listener :=
  { ls with
    connMap := ls.connMap.erase (cidHash conn.scid)
    conns := Registry.remove ls.conns handle }

/-- What a server's connection is created from. -/
def acceptConfig (config : ListenerConfig) (random : Vector UInt8 8) (fromAddr : Addr) :
    ConnConfig where
  scid := listenerGenerateCid config random
  peerAddr := fromAddr
  idleTimeoutUs := config.idleTimeoutUs
  initialMaxData := config.initialMaxData
  initialMaxStreamData := config.initialMaxStreamData
  maxStreamsBidi := config.maxStreamsBidi
  maxStreamsUni := config.maxStreamsUni

/-- A server's connection that answers to the identifier in a client's header. -/
def acceptConn (env : ListenerEnv) (config : ListenerConfig) (hdr : PktLongHeader)
    (fromAddr : Addr) : Conn :=
  { connCreate (acceptConfig config env.random fromAddr) true env.allocCc with dcid := hdr.scid }

/-- Count a datagram that came to nothing. -/
def countRejected (ls : Listener) : Listener :=
  { ls with totalRejected := ls.totalRejected + 1 }

/-- Start the handshake of a connection just added and give it the datagram it came from, or
remove it again. -/
def listenerBegin (evp : Evp) (env : ListenerEnv) (ls : Listener) (handle : Nat) (conn : Conn)
    (dcid : ConnId) (data : Bytes) (nowUs : UInt64) : ErrorCode × Listener :=
  match connStartHandshake evp (env.conn handle) conn dcid with
  | (.ok, conn) =>
    let ls := ls.setConn handle (connRecv evp (env.conn handle) conn data nowUs).2
    (.ok, if ls.config.onNewConn then ls.observe (.newConn handle) else ls)
  | (code, conn) => (code, countRejected (listenerRemoveConn ls handle conn))

/-- Add a new connection and have it begin. -/
def listenerAdmit (evp : Evp) (env : ListenerEnv) (ls : Listener) (handle : Nat) (conn : Conn)
    (dcid : ConnId) (data : Bytes) (nowUs : UInt64) : ErrorCode × Listener :=
  match listenerAddConn env ls handle conn with
  | (.ok, ls) =>
    let ls := { ls with totalAccepted := ls.totalAccepted + 1 }
    listenerBegin evp env ls handle conn dcid data nowUs
  | (code, ls) => (code, countRejected ls)

/-- Use up a handle for a connection just made. -/
def Listener.issue (ls : Listener) (token : Bytes) (fromAddr : Addr) (nowUs : UInt64) : Listener :=
  { ls with nextHandle := ls.nextHandle + 1 }.observe (.created ls.nextHandle token fromAddr nowUs)

/-- Make a connection for a client. -/
def listenerAccept (evp : Evp) (env : ListenerEnv) (ls : Listener) (hdr : PktLongHeader)
    (data : Bytes) (fromAddr : Addr) (nowUs : UInt64) : ErrorCode × Listener :=
  let ls := ls.observe (.accepting hdr.token fromAddr nowUs)
  if !env.allocConn then (.outOfMemory, countRejected ls)
  else
    listenerAdmit evp env (ls.issue hdr.token fromAddr nowUs) ls.nextHandle
      (acceptConn env ls.config hdr fromAddr) hdr.dcid data nowUs

/-- Give a datagram to a connection. -/
def listenerForward (evp : Evp) (env : ListenerEnv) (ls : Listener) (handle : Nat) (data : Bytes)
    (nowUs : UInt64) : ErrorCode × Listener :=
  match ls.conn handle with
  -- The map never names a connection that is gone.
  | none => (.internal, ls)
  | some conn =>
    let (code, conn) := connRecv evp (env.conn handle) conn data nowUs
    (code, ls.setConn handle conn)

/-- Take a datagram with a long header; a token is asked for, but what it says is not looked at. -/
def listenerRecvLong (evp : Evp) (env : ListenerEnv) (ls : Listener) (data : Bytes)
    (fromAddr : Addr) (nowUs : UInt64) : ErrorCode × Listener :=
  match pktDecodeLongHeader data with
  | none => (.invalidPacket, ls)
  | some hdr =>
    match listenerFindConn ls hdr.dcid with
    | some handle => listenerForward evp env ls handle data nowUs
    | none =>
      if hdr.type ≠ .initial then (.invalidPacket, ls)
      else if hdr.version ≠ versionCurrent then (.versionMismatch, ls)
      else if ls.config.requireRetry ∧ hdr.token.length = 0 then
        (.tokenInvalid, { ls with totalRetried := ls.totalRetried + 1 })
      else listenerAccept evp env ls hdr data fromAddr nowUs

/-- Identifier in a short header, which has the length this listener generates. -/
def shortDcid (data : Bytes) : ConnId where
  data := (data.drop 1).take listenerCidLen
  bounded := by
    rw [List.length_take]
    exact (Nat.min_le_left _ _).trans (by decide)

/-- Take a datagram with a short header. -/
def listenerRecvShort (evp : Evp) (env : ListenerEnv) (ls : Listener) (data : Bytes)
    (nowUs : UInt64) : ErrorCode × Listener :=
  if data.length < 1 + listenerCidLen then (.invalidPacket, ls)
  else
    match listenerFindConn ls (shortDcid data) with
    | none => (.invalidPacket, ls)
    | some handle => listenerForward evp env ls handle data nowUs

/-- Ask the rate limiter, if there is one. -/
def listenerCheckRate (env : ListenerEnv) (ls : Listener) (fromAddr : Addr) (nowUs : UInt64) :
    Bool × Listener :=
  match ls.rateLimiter with
  | none => (true, ls)
  | some rl =>
    let (allowed, rl) := rateLimiterCheck env.allocBucket env.allocBuckets rl fromAddr nowUs
    (allowed, { ls with rateLimiter := some rl })

/-- Take a datagram. -/
def listenerRecv (evp : Evp) (env : ListenerEnv) (ls : Listener) (data : Bytes) (fromAddr : Addr)
    (nowUs : UInt64) : ErrorCode × Listener :=
  match data with
  | [] => (.invalidArgument, ls)
  | first :: _ =>
    match listenerCheckRate env ls fromAddr nowUs with
    | (false, ls) => (.congestion, countRejected ls)
    | (true, ls) =>
      if pktIsLongHeader first then listenerRecvLong evp env ls data fromAddr nowUs
      else listenerRecvShort evp env ls data nowUs

/-- Ask connections in turn for a datagram, at most so many of them. -/
def listenerSendLoop (evp : Evp) (env : Nat → Env) (maxLen : Nat) (nowUs : UInt64) :
    Nat → Listener → Option (Option (Bytes × Addr) × Listener)
  | 0, ls => some (none, ls)
  | left + 1, ls =>
    let idx := ls.sendIndex.toNat % ls.conns.length
    let ls := { ls with sendIndex := ls.sendIndex + 1 }
    match ls.conns[idx]? with
    | none => listenerSendLoop evp env maxLen nowUs left ls
    | some (handle, conn) =>
      match connSend evp (env handle) conn maxLen nowUs with
      | none => none
      | some (.datagram bytes, conn) => some (some (bytes, conn.peerAddr), ls.setConn handle conn)
      | some (_, conn) => listenerSendLoop evp env maxLen nowUs left (ls.setConn handle conn)

/-- The next datagram to send and where to, if a connection has one. -/
def listenerSend (evp : Evp) (env : Nat → Env) (ls : Listener) (maxLen : Nat) (nowUs : UInt64) :
    Option (Option (Bytes × Addr) × Listener) :=
  listenerSendLoop evp env maxLen nowUs ls.conns.length ls

/-- Let timers fire from an index on, the last connection taking the place of one removed. -/
def listenerTimeoutLoop (nowUs : UInt64) : Nat → Nat → Listener → Listener
  | 0, _, ls => ls
  | left + 1, i, ls =>
    match ls.conns[i]? with
    | none => ls
    | some (handle, conn) =>
      let conn := connOnTimeout conn nowUs
      let ls := ls.setConn handle conn
      if conn.state = .closed then
        listenerTimeoutLoop nowUs left i (listenerRemoveConn ls handle conn)
      else listenerTimeoutLoop nowUs left (i + 1) ls

/-- Let every connection's timers fire and remove those that are closed; each turn leaves one
connection less to look at. -/
def listenerOnTimeout (ls : Listener) (nowUs : UInt64) : Listener :=
  listenerTimeoutLoop nowUs ls.conns.length 0 ls

/-- Everything that can be done to a listener, or to one of its connections. -/
inductive ListenerOp where
  | recv (data : Bytes) (fromAddr : Addr) (nowUs : UInt64)
  | send (maxLen : Nat) (nowUs : UInt64)
  | onTimeout (nowUs : UInt64)
  | removeConn (handle : Nat)
  | operate (handle : Nat) (op : ConnOp)

/-- What an operation does under given outcomes of its requests, if it returns. -/
def listenerStep (evp : Evp) (ls : Listener) : ListenerEnv × ListenerOp → Option Listener
  | (env, .recv data fromAddr nowUs) => some (listenerRecv evp env ls data fromAddr nowUs).2
  | (env, .send maxLen nowUs) =>
    (listenerSend evp env.conn ls maxLen nowUs).map (·.2)
  | (_, .onTimeout nowUs) => some (listenerOnTimeout ls nowUs)
  | (_, .removeConn handle) =>
    match ls.conn handle with
    | none => some ls
    | some conn => some (listenerRemoveConn ls handle conn)
  | (env, .operate handle op) =>
    match ls.conn handle with
    | none => some ls
    | some conn => (connStep evp conn (env.conn handle, op)).map (ls.setConn handle)

end Nxp
