import Nxp.Core.Connection
import Nxp.Lib.LittleEndian

/-! Handing a connection over to another server: its state as octets, and a connection from them. -/

namespace Nxp

/-- First number of an export. -/
def sessionMagic : UInt32 := 0x5350584E

/-- The only version of the format. -/
def sessionVersion : UInt32 := 1

/-- Write an octet. -/
def putU8 (v : UInt8) : Bytes := [v]

/-- Write a word of four octets. -/
def putU32 (v : UInt32) : Bytes := LittleEndian.octets 4 v.toNat

/-- Write a word of eight octets. -/
def putU64 (v : UInt64) : Bytes := LittleEndian.octets 8 v.toNat

/-- Take a number of octets. -/
def getBytes (len : Nat) (buf : Bytes) : Option (Bytes × Bytes) :=
  if len > buf.length then none else some (buf.take len, buf.drop len)

/-- Take an octet. -/
def getU8 : Bytes → Option (UInt8 × Bytes)
  | [] => none
  | v :: rest => some (v, rest)

/-- Take a word of four octets. -/
def getU32 (buf : Bytes) : Option (UInt32 × Bytes) :=
  (getBytes 4 buf).map fun (octets, rest) => (UInt32.ofNat (LittleEndian.value octets), rest)

/-- Take a word of eight octets. -/
def getU64 (buf : Bytes) : Option (UInt64 × Bytes) :=
  (getBytes 8 buf).map fun (octets, rest) => (UInt64.ofNat (LittleEndian.value octets), rest)

/-- Take an array of octets. -/
def getArray (size : Nat) (buf : Bytes) : Option (Vector UInt8 size × Bytes) :=
  if room : size ≤ buf.length then
    some (⟨(buf.take size).toArray, take_toArray_size room⟩, buf.drop size)
  else none

/-- Take a connection identifier preceded by its length. -/
def getConnId (buf : Bytes) : Option (ConnId × Bytes) := do
  let (len, buf) ← getU8 buf
  if bounded : len.toNat ≤ maxCidLen then
    if len.toNat > buf.length then none
    else some (⟨buf.take len.toNat, ConnId.take_bounded bounded buf⟩, buf.drop len.toNat)
  else none

/-- Number of a state. -/
def ConnState.toByte : ConnState → UInt8
  | .idle => 0
  | .handshakeInitial => 1
  | .handshakeInProgress => 2
  | .established => 3
  | .closing => 4
  | .draining => 5
  | .closed => 6
  | .unknown number _ => number

/-- State with a number. -/
def ConnState.ofByte (v : UInt8) : ConnState :=
  if other : 7 ≤ v then .unknown v other
  else
    match v.toNat with
    | 0 => .idle
    | 1 => .handshakeInitial
    | 2 => .handshakeInProgress
    | 3 => .established
    | 4 => .closing
    | 5 => .draining
    | _ => .closed

/-- Write a truth value. -/
def putBool (v : Bool) : Bytes := putU8 (if v then 1 else 0)

/-- Write the keys of one direction. -/
def putKeys (keys : CryptoKeys) : Bytes :=
  putU8 keys.keyLen ++ keys.key.toList ++ keys.iv.toList ++ keys.hpKey.toList

/-- Take the keys of one direction. -/
def getKeys (buf : Bytes) : Option (CryptoKeys × Bytes) := do
  let (keyLen, buf) ← getU8 buf
  let (key, buf) ← getArray 32 buf
  let (iv, buf) ← getArray 12 buf
  let (hpKey, buf) ← getArray 32 buf
  some (⟨key, iv, hpKey, keyLen⟩, buf)

/-- How many octets the export of a connection takes. -/
def sessionExportSize (conn : Conn) : Nat :=
  (4 + 4 + 4) + (1 + conn.scid.len) + (1 + conn.dcid.len) + (1 + 1) + 8 + 28 + (1 + 1) +
    (1 + 32 + 12 + 32) + (1 + 32 + 12 + 32) + 8 * 4 + 8 * 3 + 8

/-- What is exported of a connection behind the first three words. -/
def sessionBody (conn : Conn) : Bytes :=
  (putU8 (UInt8.ofNat conn.scid.len) ++ conn.scid.data) ++
  (putU8 (UInt8.ofNat conn.dcid.len) ++ conn.dcid.data) ++
  putU8 conn.state.toByte ++ putBool conn.isServer ++ putU64 conn.nextPktNum ++
  conn.peerAddr.raw.toList ++
  putU8 conn.crypto.algo.toByte ++ putBool conn.crypto.available ++
  putKeys conn.crypto.send ++ putKeys conn.crypto.recv ++
  putU64 conn.connFlow.peerMaxData ++ putU64 conn.connFlow.dataSent ++
  putU64 conn.connFlow.localMaxData ++ putU64 conn.connFlow.dataRecv ++
  putU64 conn.ack.smoothedRtt ++ putU64 conn.ack.rttVar ++ putU64 conn.ack.minRtt ++
  putU64 conn.idleTimeoutUs

/-- Export a connection into a buffer. -/
def sessionExport (conn : Conn) (bufCap : Nat) : Except ErrorCode Bytes :=
  let needed := sessionExportSize conn
  if bufCap < needed then .error .bufferTooSmall
  else
    .ok (putU32 sessionMagic ++ putU32 sessionVersion ++ putU32 (UInt32.ofNat needed) ++
      sessionBody conn)

/-- What an export says. -/
structure SessionFields where
  scid : ConnId
  dcid : ConnId
  state : UInt8
  isServer : UInt8
  nextPktNum : UInt64
  peerAddr : Addr
  algo : UInt8
  available : UInt8
  send : CryptoKeys
  recv : CryptoKeys
  peerMaxData : UInt64
  dataSent : UInt64
  localMaxData : UInt64
  dataRecv : UInt64
  smoothedRtt : UInt64
  rttVar : UInt64
  minRtt : UInt64
  idleTimeoutUs : UInt64

/-- Read what follows the first three words, what stands behind it being ignored. -/
def getSession (buf : Bytes) : Option SessionFields := do
  let (scid, buf) ← getConnId buf
  let (dcid, buf) ← getConnId buf
  let (state, buf) ← getU8 buf
  let (isServer, buf) ← getU8 buf
  let (nextPktNum, buf) ← getU64 buf
  let (raw, buf) ← getArray 28 buf
  let (algo, buf) ← getU8 buf
  let (available, buf) ← getU8 buf
  let (send, buf) ← getKeys buf
  let (recv, buf) ← getKeys buf
  let (peerMaxData, buf) ← getU64 buf
  let (dataSent, buf) ← getU64 buf
  let (localMaxData, buf) ← getU64 buf
  let (dataRecv, buf) ← getU64 buf
  let (smoothedRtt, buf) ← getU64 buf
  let (rttVar, buf) ← getU64 buf
  let (minRtt, buf) ← getU64 buf
  let (idleTimeoutUs, _) ← getU64 buf
  some { scid, dcid, state, isServer, nextPktNum, peerAddr := ⟨raw⟩, algo, available, send, recv
         peerMaxData, dataSent, localMaxData, dataRecv, smoothedRtt, rttVar, minRtt
         idleTimeoutUs }

/-- A connection from what an export says; nothing else is carried over. -/
def SessionFields.restore (fields : SessionFields) (allocCc : Bool) : Conn :=
  let conn := connCreate
    { scid := fields.scid
      peerAddr := fields.peerAddr
      idleTimeoutUs := fields.idleTimeoutUs
      initialMaxData := fields.localMaxData
      initialMaxStreamData := 0
      maxStreamsBidi := 0
      maxStreamsUni := 0 }
    (fields.isServer ≠ 0) allocCc
  { conn with
    dcid := fields.dcid
    state := ConnState.ofByte fields.state
    nextPktNum := fields.nextPktNum
    crypto :=
      { algo := AeadAlgo.ofByte fields.algo
        available := fields.available ≠ 0
        send := fields.send
        recv := fields.recv }
    connFlow := { conn.connFlow with
      peerMaxData := fields.peerMaxData
      dataSent := fields.dataSent
      localMaxData := fields.localMaxData
      dataRecv := fields.dataRecv }
    ack := { conn.ack with
      smoothedRtt := fields.smoothedRtt
      rttVar := fields.rttVar
      minRtt := fields.minRtt
      hasRtt := fields.smoothedRtt > 0 } }

/-- Read a word of the head of an export. -/
def getHeadWord (buf : Bytes) : Except ErrorCode (UInt32 × Bytes) :=
  match getU32 buf with
  | none => .error .invalidPacket
  | some read => .ok read

/-- Make a connection from what was read of an export. -/
def sessionRestore (alloc allocCc : Bool) : Option SessionFields → Except ErrorCode Conn
  | none => .error .invalidPacket
  | some fields => if !alloc then .error .outOfMemory else .ok (fields.restore allocCc)

/-- Make a connection from an export. -/
def sessionImport (alloc allocCc : Bool) (buf : Bytes) : Except ErrorCode Conn := do
  let (magic, rest) ← getHeadWord buf
  if magic ≠ sessionMagic then .error .invalidPacket
  else
    let (version, rest) ← getHeadWord rest
    if version ≠ sessionVersion then .error .versionMismatch
    else
      let (totalLen, rest) ← getHeadWord rest
      if totalLen.toNat > buf.length then .error .bufferTooSmall
      else
        sessionRestore alloc allocCc (getSession rest)

end Nxp
