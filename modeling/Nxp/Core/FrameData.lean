import Nxp.Types

/-! Parsed frames, each with the fields its wire layout carries. -/

namespace Nxp

/-- How many extra ranges an acknowledgement may list. -/
def ackMaxRanges : Nat := 64

/-- One further range of an acknowledgement, both fields being counts less one. -/
structure AckRange where
  gap : UInt64
  ackRange : UInt64
  deriving DecidableEq, Repr, Inhabited

/-- Acknowledged packet numbers, from the largest down. -/
structure FrameAck where
  largestAcked : UInt64
  ackDelay : UInt64
  firstAckRange : UInt64
  ranges : List AckRange
  bounded : ranges.length ≤ ackMaxRanges
  hasEcn : Bool
  ect0Count : UInt64
  ect1Count : UInt64
  ecnCeCount : UInt64
  deriving DecidableEq, Repr

/-- Stretch of a stream, with a data pointer that is null only when the stretch is empty. -/
structure FrameStream where
  streamId : UInt64
  offset : UInt64
  length : UInt64
  hasOffset : Bool
  hasLength : Bool
  fin : Bool
  data : Option Bytes
  covered : (data.getD []).length = length.toNat
  deriving DecidableEq, Repr

/-- A fresh connection identifier offered to the peer. -/
structure FrameNewConnectionId where
  seqNum : UInt64
  retirePriorTo : UInt64
  cid : ConnId
  statelessResetToken : Vector UInt8 16
  deriving DecidableEq, Repr

/-- Why a connection is closed. -/
structure FrameConnectionClose where
  errorCode : UInt64
  frameType : UInt64
  reason : Bytes
  isApp : Bool
  deriving DecidableEq, Repr

/-- Every frame a packet may hold. -/
inductive Frame where
  | padding (count : Nat)
  | ping
  | ack (f : FrameAck)
  | resetStream (streamId errorCode finalSize : UInt64)
  | stopSending (streamId errorCode : UInt64)
  | crypto (offset : UInt64) (data : Bytes)
  | newToken (token : Bytes)
  | stream (f : FrameStream)
  | maxData (maxData : UInt64)
  | maxStreamData (streamId maxStreamData : UInt64)
  | maxStreams (maxStreams : UInt64) (isBidi : Bool)
  | dataBlocked (maxData : UInt64)
  | streamDataBlocked (streamId maxStreamData : UInt64)
  | streamsBlocked (maxStreams : UInt64) (isBidi : Bool)
  | newConnectionId (f : FrameNewConnectionId)
  | retireConnectionId (seqNum : UInt64)
  | pathChallenge (data : Vector UInt8 8)
  | pathResponse (data : Vector UInt8 8)
  | connectionClose (f : FrameConnectionClose)
  | handshakeDone
  | heartbeat (timestampUs : UInt64)
  | streamPriority (streamId : UInt64) (priority : UInt8)
  | datagram (data : Bytes)
  deriving DecidableEq, Repr

end Nxp
