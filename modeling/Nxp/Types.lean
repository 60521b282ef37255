import Mathlib.Algebra.Order.Ring.Nat
import Mathlib.Data.List.Basic

/-! The protocol's shared constants, enumerations, identifiers and result codes. -/

namespace Nxp

/-- Raw octets, as they stand in a datagram or in an application's buffer. -/
abbrev Bytes := List UInt8

/-- Octets cut from a buffer that is long enough fill an array. -/
theorem take_toArray_size {size : Nat} {buf : Bytes} (room : size ≤ buf.length) :
    (buf.take size).toArray.size = size := by
  simp [room]

/-- Number spelled by octets, the most significant first. -/
def readBigEndian (bytes : Bytes) : UInt64 :=
  bytes.foldl (fun acc octet => (acc <<< 8) ||| octet.toUInt64) 0

/-- Eight octets of a time, the most significant first. -/
def timestampBytes (timeUs : UInt64) : Bytes :=
  (List.range 8).map fun i => (timeUs >>> UInt64.ofNat ((7 - i) * 8)).toUInt8

/-- The only protocol version spoken. -/
def versionCurrent : UInt32 := 0x4E585001

/-- The longest connection identifier. -/
def maxCidLen : Nat := 20

/-- Size of the buffers datagrams and payloads are built in. -/
def packetBufSize : Nat := 1536

/-- Length of the authentication tag appended by every seal. -/
def aeadTagLen : Nat := 16

/-- Result codes shared by every layer. -/
inductive ErrorCode where
  | ok
  | invalidArgument
  | outOfMemory
  | bufferTooSmall
  | wouldBlock
  | connectionClosed
  | streamClosed
  | flowControl
  | cryptoFail
  | handshakeFail
  | invalidPacket
  | invalidFrame
  | idleTimeout
  | versionMismatch
  | internal
  | platform
  | overflow
  | replayDetected
  | tokenInvalid
  | streamLimit
  | congestion
  deriving DecidableEq, Repr, Inhabited

/-- A connection identifier, never longer than its array. -/
structure ConnId where
  data : Bytes
  bounded : data.length ≤ maxCidLen
  deriving DecidableEq, Repr

namespace ConnId

/-- The identifier of length zero. -/
def empty : ConnId := ⟨[], by decide⟩

/-- How many octets the identifier has. -/
def len (cid : ConnId) : Nat := cid.data.length

/-- No identifier is longer than the protocol allows. -/
theorem len_le (cid : ConnId) : cid.len ≤ maxCidLen := cid.bounded

/-- A length that is allowed cuts an identifier of an allowed length from any octets. -/
theorem take_bounded {len : UInt8} (bounded : len.toNat ≤ maxCidLen) (buf : Bytes) :
    (buf.take len.toNat).length ≤ maxCidLen :=
  Nat.le_trans (List.length_take_le _ _) bounded

end ConnId

instance : Inhabited ConnId := ⟨ConnId.empty⟩

/-- A peer's network address, compared as a whole and never interpreted. -/
structure Addr where
  raw : Vector UInt8 28
  deriving DecidableEq, Repr, Inhabited

/-- The address of all zeros. -/
def Addr.zero : Addr := ⟨Vector.replicate 28 0⟩

/-- Delivery classes a stream may be opened with. -/
inductive StreamType where
  | reliable
  | fast
  | media
  | file
  deriving DecidableEq, Repr, Inhabited

/-- Lifecycle of a connection, a number without a state being kept as it came. -/
inductive ConnState where
  | idle
  | handshakeInitial
  | handshakeInProgress
  | established
  | closing
  | draining
  | closed
  | unknown (number : UInt8) (other : 7 ≤ number)
  deriving DecidableEq, Repr, Inhabited

/-- Lifecycle of a stream. -/
inductive StreamState where
  | idle
  | open
  | halfClosedLocal
  | halfClosedRemote
  | closed
  | reset
  deriving DecidableEq, Repr, Inhabited

/-- Levels at which handshake bytes and keys exist. -/
inductive CryptoLevel where
  | initial
  | handshake
  | application
  deriving DecidableEq, Repr, Inhabited

/-- Packet types, the first four of them under a long header. -/
inductive PacketType where
  | initial
  | handshake
  | retry
  | zeroRtt
  | short
  deriving DecidableEq, Repr, Inhabited

end Nxp
