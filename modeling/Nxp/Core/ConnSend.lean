import Nxp.Core.Frame
import Nxp.Core.Packet
import Nxp.Core.Scheduler
import Nxp.Crypto.HeaderProtection

/-! How a connection builds the next datagram. -/

namespace Nxp

/-- What a call to send hands back. -/
inductive SendResult where
  | nothing
  | failed
  | datagram (bytes : Bytes)
  deriving DecidableEq

/-- A packet in the making: the frames so far and what will be remembered of them. -/
structure SendBuild where
  conn : Conn
  frames : Bytes
  ackEliciting : Bool
  records : FrameRecords

namespace SendBuild

/-- Add a frame where it fits, with what having sent it changes. -/
def put (b : SendBuild) (space : Nat) (encode : Nat → Option Bytes) (eliciting : Bool)
    (sent : Conn → Conn) : SendBuild :=
  match encode (space - b.frames.length) with
  | none => b
  | some bytes =>
    { b with
      conn := sent b.conn
      frames := b.frames ++ bytes
      ackEliciting := b.ackEliciting || eliciting }

/-- Add a frame that is asked for. -/
def putWhen (b : SendBuild) (asked : Bool) (space : Nat) (encode : Nat → Option Bytes)
    (sent : Conn → Conn) : SendBuild :=
  if asked then b.put space encode true sent else b

/-- Acknowledge what was received. -/
def putAck (b : SendBuild) (space : Nat) (nowUs : UInt64) : SendBuild :=
  if b.conn.ack.ackNeeded then
    match ackBuildFrame b.conn.ack nowUs with
    | none => b
    | some f =>
      b.put space (frameEncodeAck f) false fun conn =>
        { conn with ack := { conn.ack with ackNeeded := false } }
  else b

/-- Announce that this side closes. -/
def putClose (b : SendBuild) (space : Nat) : SendBuild :=
  b.putWhen b.conn.sendConnClose space
    (frameEncodeConnectionClose ⟨b.conn.closeErrorCode, 0, [], true⟩) fun conn =>
      setConnState { conn with sendConnClose := false } .closing

/-- Probe the peer. -/
def putPing (b : SendBuild) (space : Nat) : SendBuild :=
  b.putWhen b.conn.sendPing space frameEncodePing fun conn => { conn with sendPing := false }

/-- Take the limit to advertise, if one is waiting. -/
def takeMaxData (b : SendBuild) : SendBuild :=
  { b with conn := { b.conn with connFlow := (flowGetUpdate b.conn.connFlow).2 } }

/-- Advertise a larger limit, which is taken even when the frame then does not fit. -/
def putMaxData (b : SendBuild) (space : Nat) : SendBuild :=
  if flowShouldUpdate b.conn.connFlow then
    b.takeMaxData.put space (frameEncodeMaxData (flowGetUpdate b.conn.connFlow).1) true id
  else b

/-- Answer a path challenge. -/
def putPathResponse (b : SendBuild) (space : Nat) : SendBuild :=
  b.putWhen b.conn.migration.sendPathResponse space
    (frameEncodePathResponse b.conn.migration.pendingResponseData) fun conn =>
      { conn with migration := { conn.migration with sendPathResponse := false } }

/-- Challenge a new path. -/
def putPathChallenge (b : SendBuild) (space : Nat) : SendBuild :=
  b.putWhen b.conn.migration.sendPathChallenge space
    (frameEncodePathChallenge b.conn.migration.newPath.challengeData) fun conn =>
      { conn with migration := { conn.migration with sendPathChallenge := false } }

/-- Take the identifier drawn last off those to be offered. -/
def dropNewCid (conn : Conn) : Conn :=
  { conn with migration :=
    { conn.migration with pendingNewCids := conn.migration.pendingNewCids.dropLast } }

/-- Offer identifiers, the last one drawn first, until one does not fit. -/
def putNewCids (space : Nat) : Nat → SendBuild → SendBuild
  | 0, b => b
  | count + 1, b =>
    match b.conn.migration.pendingNewCids.getLast? with
    | none => b
    | some entry =>
      match frameEncodeNewConnectionId ⟨entry.seqNum, 0, entry.cid, entry.statelessResetToken⟩
          (space - b.frames.length) with
      | none => b
      | some bytes =>
        putNewCids space count
          { b with conn := dropNewCid b.conn, frames := b.frames ++ bytes, ackEliciting := true }

/-- Give an identifier back. -/
def putRetireCid (b : SendBuild) (space : Nat) : SendBuild :=
  b.putWhen b.conn.migration.sendRetireCid space
    (frameEncodeRetireConnectionId b.conn.migration.retireSeq) fun conn =>
      { conn with migration := { conn.migration with sendRetireCid := false } }

/-- Echo a heartbeat. -/
def putEcho (b : SendBuild) (space : Nat) : SendBuild :=
  b.putWhen b.conn.heartbeat.sendEcho space
    (frameEncodeHeartbeat b.conn.heartbeat.echoTimestamp) fun conn =>
      { conn with heartbeat := { conn.heartbeat with sendEcho := false } }

/-- Send a heartbeat. -/
def putHeartbeat (b : SendBuild) (space : Nat) : SendBuild :=
  b.putWhen b.conn.heartbeat.sendHeartbeat space
    (frameEncodeHeartbeat b.conn.heartbeat.pendingTimestamp) fun conn =>
      { conn with heartbeat := { conn.heartbeat with sendHeartbeat := false } }

/-- The frames that go before any stream data. -/
def putControl (b : SendBuild) (space : Nat) (nowUs : UInt64) : SendBuild :=
  let b := (((b.putAck space nowUs).putClose space).putPing space).putMaxData space
  let b := (b.putPathResponse space).putPathChallenge space
  let b := putNewCids space b.conn.migration.pendingNewCids.length b
  ((b.putRetireCid space).putEcho space).putHeartbeat space

end SendBuild

/-- Whether the congestion controller lets data be sent. -/
def ccAllows (conn : Conn) : Bool :=
  match conn.cc with
  | none => true
  | some bbr => conn.ack.bytesInFlight < bbr.cwnd

/-- How much the connection's limit leaves. -/
def flowRemain (fc : FlowCtrl) : UInt64 :=
  if fc.peerMaxData > fc.dataSent then fc.peerMaxData - fc.dataSent else 0

/-- How much data a frame may carry, by the room in the packet and the connection's limit. -/
def frameDataLimit (conn : Conn) (avail : Nat) : UInt64 :=
  -- Twenty octets are set aside for the head of the frame.
  let maxData := UInt64.ofNat (if avail > 20 then avail - 20 else 0)
  let remain := flowRemain conn.connFlow
  if maxData > remain then remain else maxData

/-- Refresh the rate limit of a stream that has one. -/
def refreshRate (s : Stream) (nowUs : UInt64) : Stream :=
  if s.rateLimit.enabled then { s with rateLimit := streamRateUpdate s.rateLimit nowUs } else s

/-- Cut a limit to the budget of a stream that has one. -/
def rateDataLimit (s : Stream) (maxData : UInt64) : UInt64 :=
  if s.rateLimit.enabled ∧ maxData > streamRateBudget s.rateLimit then streamRateBudget s.rateLimit
  else maxData

/-- Charge a stream for a frame it sent. -/
def chargeStream (s : Stream) (length : UInt64) : Stream :=
  { s with
    flow := flowOnSend s.flow length
    rateLimit :=
      if s.rateLimit.enabled then streamRateOnSend s.rateLimit length.toUInt32 else s.rateLimit }

/-- Put a frame of a stream into the packet and keep the stream in the ring while it has more. -/
def SendBuild.putStream (b : SendBuild) (id : UInt64) (s : Stream) (f : FrameStream)
    (bytes : Bytes) : SendBuild :=
  let s := chargeStream s f.length
  let conn := { b.conn with connFlow := flowOnSend b.conn.connFlow f.length }.setStream id s
  { conn := if streamUnsent s > 0 ∨ streamFinPending s then schedAdd conn id else conn
    frames := b.frames ++ bytes
    ackEliciting := true
    records := b.records.push ⟨f.streamId, f.offset, f.length.toUInt32, f.fin⟩ }

/-- Let a stream add a frame, and say whether the loop goes on. -/
def fillTurn (space : Nat) (nowUs : UInt64) (b : SendBuild) (id : UInt64) (s : Stream) :
    Bool × SendBuild :=
  let maxData := frameDataLimit b.conn (space - b.frames.length)
  let s := refreshRate s nowUs
  if s.rateLimit.enabled ∧ streamRateBudget s.rateLimit = 0 then
    (true, { b with conn := b.conn.setStream id { s with blocked := true } })
  else
    match streamFillFrame s (rateDataLimit s maxData) with
    | (none, s) => (true, { b with conn := b.conn.setStream id s })
    | (some f, s) =>
      match frameEncodeStream f (space - b.frames.length) with
      | none =>
        -- The frame does not fit, so the stream is wound back to where it was.
        let s := streamOnLoss s f.offset f.length.toUInt32 f.fin
        (false, { b with conn := b.conn.setStream id s })
      | some bytes => (true, b.putStream id s f bytes)

/-- One turn of the stream loop, and whether it goes on. -/
def streamTurn (space : Nat) (nowUs : UInt64) (b : SendBuild) : Bool × SendBuild :=
  match schedNext b.conn with
  | (none, conn) => (false, { b with conn := conn })
  | (some id, conn) =>
    match conn.stream id with
    | none => (false, { b with conn := conn })
    | some s =>
      if streamUnsent s > 0 ∧ !flowCanSend conn.connFlow 1 then (false, { b with conn := conn })
      else fillTurn space nowUs { b with conn := conn } id s

/-- Add stream frames in turn; there is no result when the turns run out. -/
def streamLoop (space : Nat) (nowUs : UInt64) : (turns : Nat) → SendBuild → Option SendBuild
  | 0, _ => none
  | turns + 1, b =>
    if b.frames.length < space ∧ b.records.hasRoom then
      match streamTurn space nowUs b with
      | (false, b) => some b
      | (true, b) => streamLoop space nowUs turns b
    else some b

/-- Build the frames of an application packet. -/
def buildFrames (turns : Nat) (conn : Conn) (space : Nat) (nowUs : UInt64) : Option SendBuild :=
  let b := SendBuild.putControl ⟨conn, [], false, FrameRecords.empty⟩ space nowUs
  if ccAllows b.conn then streamLoop space nowUs turns b else some b

/-- Seal frames behind their header and protect the header, a packet too short for that going out
as it is. -/
def sealPacket (evp : Evp) (keys : CryptoState) (hdr : Bytes) (pnLen : Nat) (pktNum : UInt64)
    (frames : Bytes) : Option Bytes :=
  (aeadEncrypt evp keys.algo keys.send.key (cryptoMakeNonce keys.send.iv pktNum) hdr frames).map
    fun sealed =>
      (hpProtect evp keys.algo keys.send.hpKey (hdr ++ sealed) (hdr.length - pnLen) pnLen).2

/-- The notice that the handshake is done, padded for the sample of header protection. -/
def handshakeDoneFrames (pnLen : Nat) : Bytes :=
  let frame := (frameEncodeHandshakeDone 8).getD []
  frame ++ List.replicate (4 - pnLen + 1 - frame.length) 0

/-- Send the notice that the handshake is done, as an application packet of its own. -/
def sendHandshakeDonePacket (evp : Evp) (conn : Conn) (hs : Handshake) (maxLen : Nat) :
    SendResult × Conn :=
  if !hs.appKeys.available then (.nothing, conn)
  else
    let pnLen := 1
    if maxLen < 1 + conn.dcid.len + pnLen + 4 + aeadTagLen then (.nothing, conn)
    else
      match pktEncodeShortHeader conn.dcid false false conn.nextPktNum pnLen maxLen with
      | none => (.failed, conn)
      | some hdr =>
        match sealPacket evp hs.appKeys hdr pnLen conn.nextPktNum (handshakeDoneFrames pnLen) with
        | none => (.failed, conn)
        | some bytes =>
          let conn := conn.observe (.packetSealed .application hs.appKeys.send conn.nextPktNum)
          (.datagram bytes,
            { conn with
              nextPktNum := conn.nextPktNum + 1
              handshake := some { hs with sendHandshakeDone := false } })

/-- Keys, type and next number of a handshake packet. -/
def longSpace (hs : Handshake) : CryptoLevel → CryptoLevel × CryptoState × PacketType × UInt64
  | .initial => (.initial, hs.initialKeys, .initial, hs.initialPn)
  | _ => (.handshake, hs.handshakeKeys, .handshake, hs.handshakePn)

/-- Count a packet at its level. -/
def countLong (hs : Handshake) : CryptoLevel → Handshake
  | .initial => { hs with initialPn := hs.initialPn + 1 }
  | _ => { hs with handshakePn := hs.handshakePn + 1 }

/-- Send queued handshake bytes under a long header. -/
def sendCryptoPacket (evp : Evp) (conn : Conn) (hs : Handshake) (level : CryptoLevel)
    (maxLen : Nat) : SendResult × Conn :=
  let (level, keys, type, pktNum) := longSpace hs level
  if !keys.available then (.nothing, conn)
  else
    let (offset, data, hs) := handshakeFillCrypto hs 512
    let conn := { conn with handshake := some hs }
    if data.isEmpty then (.nothing, conn)
    else
      match frameEncodeCrypto (UInt64.ofNat offset) data 1024 with
      | none => (.nothing, conn)
      | some frames =>
        let pnLen := 1
        let payloadLen := UInt64.ofNat (frames.length + aeadTagLen + pnLen)
        match pktEncodeLongHeader type versionCurrent conn.dcid conn.scid [] payloadLen pktNum
            pnLen maxLen with
        | none => (.nothing, conn)
        | some hdr =>
          match sealPacket evp keys hdr pnLen pktNum frames with
          | none => (.failed, conn)
          | some bytes =>
            let conn := conn.observe (.packetSealed level keys.send pktNum)
            (.datagram bytes, { conn with handshake := some (countLong hs level) })

/-- Send what the handshake has to send. -/
def sendHandshakePacket (evp : Evp) (conn : Conn) (hs : Handshake) (maxLen : Nat) :
    SendResult × Conn :=
  let level := handshakeSendLevel hs
  if hs.sendHandshakeDone ∧ level = .application then sendHandshakeDonePacket evp conn hs maxLen
  else sendCryptoPacket evp conn hs level maxLen

/-- Whether the connection has something to send that pacing does not hold back. -/
def hasControlFrames (conn : Conn) : Bool :=
  conn.ack.ackNeeded || conn.sendConnClose || conn.sendPing || flowShouldUpdate conn.connFlow ||
    migrationHasPending conn.migration || heartbeatHasPending conn.heartbeat

/-- Tell the controller and the pacer about a sent packet. -/
def ccOnSent (conn : Conn) (total : Nat) : Conn :=
  match conn.cc with
  | none => conn
  | some bbr =>
    let conn := { conn with
      cc := some (bbrOnSent bbr conn.ack.bytesInFlight)
      pacer := pacerOnSend conn.pacer (UInt32.ofNat total) }
    -- Asking the ring whether it is empty moves it on.
    match schedNext conn with
    | (none, conn) => { conn with deliveryRate := drSetAppLimited conn.deliveryRate }
    | (some _, conn) => conn

/-- Remember a sent packet and move on to the next number. -/
def accountSent (env : Env) (b : SendBuild) (total : Nat) (nowUs : UInt64) : Conn :=
  let conn := b.conn
  let (drState, deliveryRate) := drOnPacketSent conn.deliveryRate nowUs
  let pkt : SentPkt :=
    { pktNum := conn.nextPktNum
      sentTime := nowUs
      sentBytes := UInt32.ofNat total
      ackEliciting := b.ackEliciting
      inFlight := b.ackEliciting
      declaredLost := false
      frames := b.records
      drState := drState }
  let conn := ccOnSent
    { conn with
      deliveryRate := deliveryRate
      ack := ackOnPktSent conn.ack pkt env.allocSent } total
  { conn with
    stats := { conn.stats with bytesSent := conn.stats.bytesSent + UInt64.ofNat total }
    nextPktNum := conn.nextPktNum + 1 }

/-- Put a packet together from its header and frames, sealed when there are keys. -/
def closePacket (evp : Evp) (conn : Conn) (hdr : Bytes) (pnLen : Nat) (frames : Bytes) :
    Option (Bytes × Conn) :=
  if conn.crypto.available then
    (sealPacket evp conn.crypto hdr pnLen conn.nextPktNum frames).map fun bytes =>
      (bytes, conn.observe (.packetSealed .application conn.crypto.send conn.nextPktNum))
  else some (hdr ++ frames, conn)

/-- How many octets of a datagram are not frames. -/
def shortOverhead (conn : Conn) : Nat :=
  1 + conn.dcid.len + pktNumLen conn.nextPktNum conn.ack.largestRecvPn +
    (if conn.crypto.available then aeadTagLen else 0)

/-- Room for frames in a datagram. -/
def frameSpace (conn : Conn) (maxLen : Nat) : Nat :=
  Nat.min (maxLen - shortOverhead conn) packetBufSize

/-- Send an application packet. -/
def sendShortPacket (evp : Evp) (env : Env) (conn : Conn) (maxLen : Nat) (nowUs : UInt64) :
    Option (SendResult × Conn) :=
  let pnLen := pktNumLen conn.nextPktNum conn.ack.largestRecvPn
  if maxLen < shortOverhead conn + 1 then some (.nothing, conn)
  else do
    let b ← buildFrames env.turns conn (frameSpace conn maxLen) nowUs
    if b.frames.isEmpty then some (.nothing, b.conn)
    else
      match pktEncodeShortHeader b.conn.dcid false false b.conn.nextPktNum pnLen maxLen with
      | none => some (.failed, b.conn)
      | some hdr =>
        match closePacket evp b.conn hdr pnLen b.frames with
        | none => some (.failed, b.conn)
        | some (bytes, conn) =>
          some (.datagram bytes, accountSent env { b with conn := conn } bytes.length nowUs)

/-- A connection that is about to send at a time. -/
def Conn.paced (conn : Conn) (nowUs : UInt64) : Conn :=
  { conn with lastActivityUs := nowUs, pacer := pacerUpdate conn.pacer nowUs }

/-- Whether pacing holds everything back that the connection has to send. -/
def heldBack (conn : Conn) : Bool :=
  !pacerCanSend conn.pacer bbrMaxDatagramSize && !hasControlFrames conn

/-- Make the next datagram; there is no result when the call never returns. -/
def connSend (evp : Evp) (env : Env) (conn : Conn) (maxLen : Nat) (nowUs : UInt64) :
    Option (SendResult × Conn) :=
  match conn.handshake.filter handshakeHasData with
  | some hs => some (sendHandshakePacket evp { conn with lastActivityUs := nowUs } hs maxLen)
  | none =>
    if conn.state ≠ .established ∧ conn.state ≠ .closing then some (.nothing, conn)
    else if heldBack (conn.paced nowUs) then some (.nothing, conn.paced nowUs)
    else sendShortPacket evp env (conn.paced nowUs) maxLen nowUs

end Nxp
