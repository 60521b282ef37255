import Nxp.Core.Connection

/-! The ring of streams with something to send, and what becomes of streams when packets do. -/

namespace Nxp

/-- Change the stream a link names, if it names one. -/
def modifyLinked (conn : Conn) (link : Option UInt64) (f : Stream → Stream) : Conn :=
  match link with
  | none => conn
  | some id => conn.modifyStream id f

/-- Put a stream at the tail of the ring, unless it is there already. -/
def schedAdd (conn : Conn) (id : UInt64) : Conn :=
  match conn.stream id with
  | none => conn
  | some s =>
    if s.scheduled then conn
    else match conn.schedHead with
      | none =>
        { conn.modifyStream id fun s =>
            { s with schedNext := some id, schedPrev := some id, scheduled := true } with
          schedHead := some id }
      | some head =>
        let tail := (conn.stream head).bind (·.schedPrev)
        let conn := conn.modifyStream id fun s =>
          { s with schedNext := some head, schedPrev := tail, scheduled := true }
        let conn := modifyLinked conn tail fun t => { t with schedNext := some id }
        conn.modifyStream head fun h => { h with schedPrev := some id }

/-- Take a stream out of the ring. -/
def schedRemove (conn : Conn) (id : UInt64) : Conn :=
  match conn.stream id with
  | none => conn
  | some s =>
    if !s.scheduled then conn
    else
      let conn :=
        if s.schedNext = some id then { conn with schedHead := none }
        else
          let conn := modifyLinked conn s.schedPrev fun p => { p with schedNext := s.schedNext }
          let conn := modifyLinked conn s.schedNext fun n => { n with schedPrev := s.schedPrev }
          if conn.schedHead = some id then { conn with schedHead := s.schedNext } else conn
      conn.modifyStream id fun s =>
        { s with schedNext := none, schedPrev := none, scheduled := false }

/-- The next stream in turn, which leaves the ring when it has nothing to send. -/
def schedNext (conn : Conn) : Option UInt64 × Conn :=
  match conn.schedHead with
  | none => (none, conn)
  | some id =>
    match conn.stream id with
    | none => (none, conn)
    | some s =>
      let conn := { conn with schedHead := s.schedNext }
      if streamUnsent s = 0 ∧ !streamFinPending s then (some id, schedRemove conn id)
      else (some id, conn)

/-- An acknowledged stretch is released, and a blocked stream's owner is told it may write. -/
def ackRecord (conn : Conn) (rec : StreamFrameRecord) : Conn :=
  match conn.stream rec.streamId with
  | none => conn
  | some s =>
    let s := streamOnAck s rec.offset rec.len rec.fin
    if s.blocked && s.onWritable then
      (conn.setStream rec.streamId { s with blocked := false }).observe (.writable rec.streamId)
    else conn.setStream rec.streamId s

/-- What the controller is told about an acknowledged packet. -/
def ccAckInfo (ack : AckState) (pkt : SentPkt) (dr : DeliveryRate) (nowUs : UInt64) : CcAckInfo where
  pktNum := pkt.pktNum
  ackedBytes := pkt.sentBytes
  sentTime := pkt.sentTime
  nowUs := nowUs
  rttUs := ack.latestRtt
  minRttUs := ack.minRtt
  bytesInFlight := ack.bytesInFlight
  deliveryRateBps := dr.rateSampleBps
  roundCount := dr.roundCount
  isAppLimited := dr.rateIsAppLimited
  roundStart := dr.roundStart

/-- Sample the delivery rate, tell the controller and set the pacer. -/
def ccOnAck (ack : AckState) (pkt : SentPkt) (conn : Conn) : Conn :=
  match conn.cc with
  | none => conn
  | some bbr =>
    let nowUs := pkt.sentTime + ack.latestRtt
    let dr := drOnPacketAcked conn.deliveryRate pkt.drState pkt.sentBytes nowUs
    let bbr := bbrOnAck bbr (ccAckInfo ack pkt dr nowUs)
    { conn with
      deliveryRate := dr
      cc := some bbr
      pacer := pacerSetRate conn.pacer bbr.pacingRate }

/-- Count an acknowledged packet. -/
def noteAcked (conn : Conn) (pkt : SentPkt) : Conn :=
  { conn with stats := { conn.stats with packetsSent := conn.stats.packetsSent + 1 } }.observe
    (.packetAcked pkt)

/-- A packet was acknowledged. -/
def onPacketAcked (ack : AckState) (pkt : SentPkt) (conn : Conn) : Conn :=
  ccOnAck ack pkt (pkt.frames.records.foldl ackRecord (noteAcked conn pkt))

/-- A lost stretch is sent again when its stream's turn comes. -/
def lossRecord (conn : Conn) (rec : StreamFrameRecord) : Conn :=
  match conn.stream rec.streamId with
  | none => conn
  | some s =>
    schedAdd (conn.setStream rec.streamId (streamOnLoss s rec.offset rec.len rec.fin)) rec.streamId

/-- Tell the controller about a lost packet. -/
def ccOnLoss (ack : AckState) (pkt : SentPkt) (conn : Conn) : Conn :=
  { conn with cc := conn.cc.map fun bbr => bbrOnLoss bbr pkt.sentBytes ack.bytesInFlight }

/-- Count a lost packet. -/
def noteLost (conn : Conn) (pkt : SentPkt) : Conn :=
  { conn with stats := { conn.stats with packetsLost := conn.stats.packetsLost + 1 } }.observe
    (.packetLost pkt)

/-- A packet was given up as lost. -/
def onPacketLost (ack : AckState) (pkt : SentPkt) (conn : Conn) : Conn :=
  ccOnLoss ack pkt (pkt.frames.records.foldl lossRecord (noteLost conn pkt))

end Nxp
