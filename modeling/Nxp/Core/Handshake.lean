import Nxp.Crypto.SessionTicket
import Nxp.Util.Varint

/-! The handshake: hello messages, transport parameters and the key schedule they feed. -/

namespace Nxp

/-- Size of the buffer one handshake message is built in. -/
def hsBufSize : Nat := 512

/-- Where a handshake stands. -/
inductive HsState where
  | idle
  | waitServerHello
  | waitClientHello
  | waitHandshakeDone
  | zeroRttSent
  | complete
  deriving DecidableEq, Repr, Inhabited

/-- Limits one side announces to the other. -/
structure TransportParams where
  initialMaxData : UInt64
  initialMaxStreamData : UInt64
  maxStreamsBidi : UInt32
  maxStreamsUni : UInt32
  idleTimeoutUs : UInt64
  maxEarlyData : UInt64
  activeCidLimit : UInt32
  deriving DecidableEq, Repr, Inhabited

/-- Limits before anything was announced. -/
def TransportParams.zero : TransportParams := ⟨0, 0, 0, 0, 0, 0, 0⟩

/-- One side of a handshake. -/
structure Handshake where
  state : HsState
  isServer : Bool
  localPrivkey : Key
  localPubkey : Key
  peerPubkey : Key
  hasPeerPubkey : Bool
  sharedSecret : Key
  selectedAlgo : AeadAlgo
  transcript : Bytes
  initialKeys : CryptoState
  handshakeKeys : CryptoState
  appKeys : CryptoState
  initialPn : UInt64
  handshakePn : UInt64
  sendBuf : Bytes
  sendOffset : Nat
  sendLevel : CryptoLevel
  sendHandshakeDone : Bool
  peerParams : TransportParams
  hasPeerParams : Bool
  localParams : TransportParams
  resumptionSecret : Key
  hasResumptionSecret : Bool
  masterSecret : Key
  hasMasterSecret : Bool
  zeroRttKeys : CryptoState
  zeroRttAttempted : Bool
  sessionTicket : Bytes
  hasSessionTicket : Bool
  deriving DecidableEq, Repr

/-- One parameter: its identifier, the length of its value and the value. -/
def encodeTpVarint (paramId : UInt8) (value : UInt64) (cap : Nat) : Option Bytes := do
  let valBuf ← varintEncode value 8
  if 2 + valBuf.length > cap then none
  else some (paramId :: UInt8.ofNat valBuf.length :: valBuf)

/-- Append one parameter to those in the buffer. -/
def appendTp (cap : Nat) (out : Bytes) (param : UInt8 × UInt64) : Option Bytes :=
  (encodeTpVarint param.1 param.2 (cap - out.length)).map fun bytes => out ++ bytes

/-- The parameters to announce, in order, the last two only when they are set. -/
def tpFields (tp : TransportParams) : List (UInt8 × UInt64) :=
  [(0x01, tp.initialMaxData), (0x02, tp.initialMaxStreamData),
    (0x03, tp.maxStreamsBidi.toUInt64), (0x04, tp.maxStreamsUni.toUInt64),
    (0x05, tp.idleTimeoutUs / 1000)] ++
    (if tp.maxEarlyData > 0 then [(0x06, tp.maxEarlyData)] else []) ++
    (if tp.activeCidLimit > 0 then [(0x0A, tp.activeCidLimit.toUInt64)] else [])

/-- Encode every parameter, or nothing at all when one of them cannot be encoded. -/
def encodeTransportParams (tp : TransportParams) (cap : Nat) : Bytes :=
  ((tpFields tp).foldlM (appendTp cap) []).getD []

/-- Store one received parameter, ignoring an unknown one. -/
def setTp (tp : TransportParams) (paramId : UInt8) (val : UInt64) : TransportParams :=
  match paramId with
  | 0x01 => { tp with initialMaxData := val }
  | 0x02 => { tp with initialMaxStreamData := val }
  | 0x03 => { tp with maxStreamsBidi := val.toUInt32 }
  | 0x04 => { tp with maxStreamsUni := val.toUInt32 }
  | 0x05 => { tp with idleTimeoutUs := val * 1000 }
  | 0x06 => { tp with maxEarlyData := val }
  | 0x0A => { tp with activeCidLimit := val.toUInt32 }
  | _ => tp

/-- Read parameters until the buffer is used up, keeping those read before an error. -/
def decodeTpLoop : Nat → Bytes → TransportParams → Bool × TransportParams
  | 0, _, tp => (true, tp)
  | fuel + 1, buf, tp =>
    match buf with
    | [] => (true, tp)
    | [_] => (false, tp)
    | paramId :: paramLen :: rest =>
      if paramLen.toNat > rest.length then (false, tp)
      else
        match varintDecode (rest.take paramLen.toNat) with
        | none => (false, tp)
        | some (val, _) => decodeTpLoop fuel (rest.drop paramLen.toNat) (setTp tp paramId val)

/-- Read all parameters; each takes more than one octet, so the length bounds their number. -/
def decodeTransportParams (buf : Bytes) : Bool × TransportParams :=
  decodeTpLoop buf.length buf TransportParams.zero

/-- The client's opening message. -/
def encodeClientHello (hs : Handshake) (cap : Nat) : Bytes :=
  if cap < 36 then []
  else
    let fixed := 0x01 :: hs.localPubkey.toList ++
      [2, AeadAlgo.aes256Gcm.toByte, AeadAlgo.chacha20Poly1305.toByte]
    fixed ++ encodeTransportParams hs.localParams (cap - fixed.length)

/-- The server's answer. -/
def encodeServerHello (hs : Handshake) (cap : Nat) : Bytes :=
  if cap < 35 then []
  else
    let fixed := 0x02 :: hs.localPubkey.toList ++ [hs.selectedAlgo.toByte]
    fixed ++ encodeTransportParams hs.localParams (cap - fixed.length)

/-- Secret a side sends under, and the one it receives under. -/
def roleSecrets (isServer : Bool) (clientSecret serverSecret : Key) : Key × Key :=
  if isServer then (serverSecret, clientSecret) else (clientSecret, serverSecret)

/-- Derive the handshake and application keys from the transcript and the shared secret. -/
def deriveHandshakeAndAppKeys (evp : Evp) (hs : Handshake) : Bool × Handshake :=
  match handshakeSecrets evp hs.transcript hs.sharedSecret with
  | none => (false, hs)
  | some secrets =>
    let role := roleSecrets hs.isServer secrets.clientSecret secrets.serverSecret
    let (ok, keys) := deriveKeyPair evp role.1 role.2 hs.selectedAlgo hs.handshakeKeys
    let hs := { hs with handshakeKeys := keys }
    if !ok then (false, hs)
    else
      match appSecrets evp secrets.handshakeSecret secrets.transcriptHash with
      | none => (false, hs)
      | some app =>
        let role := roleSecrets hs.isServer app.clientSecret app.serverSecret
        let (ok, keys) := deriveKeyPair evp role.1 role.2 hs.selectedAlgo hs.appKeys
        let hs := { hs with appKeys := keys }
        if !ok then (false, hs)
        else
          let hs := { hs with masterSecret := app.masterSecret, hasMasterSecret := true }
          -- A failed resumption secret is no failure of the handshake.
          match cryptoDeriveResumptionSecret evp app.masterSecret hs.transcript with
          | none => (true, hs)
          | some secret =>
            (true, { hs with resumptionSecret := secret, hasResumptionSecret := true })

/-- A fresh handshake around a private key from the generator. -/
def handshakeCreate (evp : Evp) (isServer : Bool) (privkey : Key) : Handshake where
  state := .idle
  isServer := isServer
  localPrivkey := privkey
  localPubkey := evp.x25519Public privkey
  peerPubkey := Vector.replicate 32 0
  hasPeerPubkey := false
  sharedSecret := Vector.replicate 32 0
  selectedAlgo := .aes256Gcm
  transcript := []
  initialKeys := CryptoState.zero
  handshakeKeys := CryptoState.zero
  appKeys := CryptoState.zero
  initialPn := 0
  handshakePn := 0
  sendBuf := []
  sendOffset := 0
  sendLevel := .initial
  sendHandshakeDone := false
  peerParams := TransportParams.zero
  hasPeerParams := false
  localParams := TransportParams.zero
  resumptionSecret := Vector.replicate 32 0
  hasResumptionSecret := false
  masterSecret := Vector.replicate 32 0
  hasMasterSecret := false
  zeroRttKeys := CryptoState.zero
  zeroRttAttempted := false
  sessionTicket := []
  hasSessionTicket := false

/-- Set the limits this side will announce. -/
def handshakeSetLocalParams (hs : Handshake) (params : TransportParams) : Handshake :=
  { hs with localParams := params }

/-- Queue a hello to be sent at the initial level. -/
def queueHello (hs : Handshake) (hello : Bytes) : Handshake :=
  { hs with sendBuf := hello, sendOffset := 0, sendLevel := .initial }

/-- Queue the client's hello and start the transcript with it. -/
def openClient (hs : Handshake) (next : HsState) : ErrorCode × Handshake :=
  let hello := encodeClientHello hs hsBufSize
  if hello.isEmpty then (.internal, { hs with sendBuf := [] })
  else (.ok, { queueHello hs hello with transcript := hello, state := next })

/-- Start a client's handshake. -/
def handshakeStartClient (evp : Evp) (hs : Handshake) (serverDcid : ConnId) :
    ErrorCode × Handshake :=
  if hs.state ≠ .idle ∨ hs.isServer then (.invalidArgument, hs)
  else
    let (ok, keys) := cryptoDeriveInitialKeys evp serverDcid hs.initialKeys
    let hs := { hs with initialKeys := keys }
    if !ok then (.cryptoFail, hs) else openClient hs .waitServerHello

/-- Start a server's handshake, its initial keys being those of a client turned around. -/
def handshakeStartServer (evp : Evp) (hs : Handshake) (localScid : ConnId) :
    ErrorCode × Handshake :=
  if hs.state ≠ .idle ∨ !hs.isServer then (.invalidArgument, hs)
  else
    let (ok, keys) := cryptoDeriveInitialKeys evp localScid hs.initialKeys
    if !ok then (.cryptoFail, { hs with initialKeys := keys })
    else
      (.ok, { hs with initialKeys := { keys with send := keys.recv, recv := keys.send }
                      state := .waitClientHello })

/-- Read the peer's limits from the rest of a hello, if there is any. -/
def recvPeerParams (hs : Handshake) (rest : Bytes) : Bool × Handshake :=
  if rest.isEmpty then (true, hs)
  else
    let (ok, params) := decodeTransportParams rest
    let hs := { hs with peerParams := params }
    if ok then (true, { hs with hasPeerParams := true }) else (false, hs)

/-- Append a message to the transcript while it fits. -/
def appendTranscript (hs : Handshake) (msg : Bytes) : Option Handshake :=
  if hs.transcript.length + msg.length > hsBufSize * 2 then none
  else some { hs with transcript := hs.transcript ++ msg }

/-- Agree on a shared secret with the peer's public key. -/
def exchangeKeys (evp : Evp) (hs : Handshake) : Option Handshake :=
  (evp.x25519Derive hs.localPrivkey hs.peerPubkey).map fun secret =>
    { hs with sharedSecret := secret }

/-- The first offered cipher this side knows. -/
def selectCipher (offered : Bytes) : Option AeadAlgo :=
  (offered.find? fun id => id == AeadAlgo.aes256Gcm.toByte ||
    id == AeadAlgo.chacha20Poly1305.toByte).map AeadAlgo.ofByte

/-- Answer a client's hello, whose transcript entry is already made. -/
def answerClientHello (evp : Evp) (hs : Handshake) : ErrorCode × Handshake :=
  match exchangeKeys evp hs with
  | none => (.cryptoFail, hs)
  | some hs =>
    let hello := encodeServerHello hs hsBufSize
    if hello.isEmpty then (.internal, { hs with sendBuf := [] })
    else
      let hs := queueHello hs hello
      match appendTranscript hs hello with
      | none => (.internal, hs)
      | some hs =>
        match deriveHandshakeAndAppKeys evp hs with
        | (false, hs) => (.cryptoFail, hs)
        | (true, hs) => (.ok, { hs with sendHandshakeDone := true, state := .complete })

/-- Take a client's hello, which completes the server's side at once. -/
def processClientHello (evp : Evp) (hs : Handshake) (data : Bytes) : ErrorCode × Handshake :=
  if data.length < 36 then (.handshakeFail, hs)
  else if data.headD 0 ≠ 0x01 then (.handshakeFail, hs)
  else
    let hs := { hs with peerPubkey := toArray 32 (data.drop 1), hasPeerPubkey := true }
    let numCiphers := (data.getD 33 0).toNat
    if 34 + numCiphers > data.length then (.handshakeFail, hs)
    else
      match selectCipher ((data.drop 34).take numCiphers) with
      | none => (.handshakeFail, hs)
      | some algo =>
        let hs := { hs with selectedAlgo := algo }
        match recvPeerParams hs (data.drop (34 + numCiphers)) with
        | (false, hs) => (.handshakeFail, hs)
        | (true, hs) =>
          match appendTranscript hs data with
          | none => (.internal, hs)
          | some hs => answerClientHello evp hs

/-- Derive keys from a server's hello, whose transcript entry is already made. -/
def acceptServerHello (evp : Evp) (hs : Handshake) : ErrorCode × Handshake :=
  match exchangeKeys evp hs with
  | none => (.cryptoFail, hs)
  | some hs =>
    match deriveHandshakeAndAppKeys evp hs with
    | (false, hs) => (.cryptoFail, hs)
    | (true, hs) => (.ok, { hs with state := .waitHandshakeDone })

/-- Take a server's hello, after which the client waits to be told the handshake is done. -/
def processServerHello (evp : Evp) (hs : Handshake) (data : Bytes) : ErrorCode × Handshake :=
  if data.length < 35 then (.handshakeFail, hs)
  else if data.headD 0 ≠ 0x02 then (.handshakeFail, hs)
  else
    let hs := { hs with peerPubkey := toArray 32 (data.drop 1), hasPeerPubkey := true
                        selectedAlgo := AeadAlgo.ofByte (data.getD 33 0) }
    match recvPeerParams hs (data.drop 34) with
    | (false, hs) => (.handshakeFail, hs)
    | (true, hs) =>
      match appendTranscript hs data with
      | none => (.internal, hs)
      | some hs => acceptServerHello evp hs

/-- Take handshake bytes that came at a level. -/
def handshakeRecvCrypto (evp : Evp) (hs : Handshake) (level : CryptoLevel) (data : Bytes) :
    ErrorCode × Handshake :=
  match hs.state with
  | .waitClientHello =>
    if level ≠ .initial then (.handshakeFail, hs) else processClientHello evp hs data
  | .waitServerHello | .zeroRttSent =>
    if level ≠ .initial then (.handshakeFail, hs) else processServerHello evp hs data
  | _ => (.handshakeFail, hs)

/-- Take the notice that the server is done. -/
def handshakeOnHandshakeDone (hs : Handshake) : ErrorCode × Handshake :=
  if hs.state ≠ .waitHandshakeDone then (.handshakeFail, hs)
  else (.ok, { hs with state := .complete })

/-- Whether anything of the handshake is left to send. -/
def handshakeHasData (hs : Handshake) : Bool :=
  hs.sendOffset < hs.sendBuf.length || hs.sendHandshakeDone

/-- Level of the next handshake packet. -/
def handshakeSendLevel (hs : Handshake) : CryptoLevel :=
  if hs.sendOffset < hs.sendBuf.length then hs.sendLevel else .application

/-- Take queued bytes for one packet, with the offset they stand at. -/
def handshakeFillCrypto (hs : Handshake) (maxLen : Nat) : Nat × Bytes × Handshake :=
  let data := (hs.sendBuf.drop hs.sendOffset).take maxLen
  (hs.sendOffset, data, { hs with sendOffset := hs.sendOffset + data.length })

/-- Whether the handshake is over. -/
def handshakeIsComplete (hs : Handshake) : Bool := hs.state == .complete

end Nxp
