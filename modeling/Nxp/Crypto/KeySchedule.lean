import Nxp.Crypto.Aead

/-! Key derivation: extraction, labelled expansion and the traffic keys of each level. -/

namespace Nxp

/-- The octets of an ASCII text. -/
def asciiBytes (text : String) : Bytes := text.toList.map fun c => UInt8.ofNat c.toNat

/-- First octets of a buffer, as an array of fixed size. -/
def toArray (size : Nat) (bytes : Bytes) : Vector UInt8 size :=
  Vector.ofFn fun i => bytes.getD i.val 0

/-- Salt of the initial secret. -/
def initialSalt : Bytes := asciiBytes "NXP1-initial-salt-v1"

/-- Extract a key from input material, zeros standing for an empty salt. -/
def hkdfExtract (evp : Evp) (salt ikm : Bytes) : Option Key :=
  evp.hmacSha256 (if salt.isEmpty then List.replicate 32 0 else salt) ikm

/-- Chained blocks of an expansion, each made from the one before. -/
def hkdfBlocks (evp : Evp) (prk info : Bytes) : Nat → Bytes → UInt8 → Option Bytes
  | 0, _, _ => some []
  | blocks + 1, previous, counter => do
    let block ← evp.hmacSha256 prk (previous ++ info ++ [counter])
    let rest ← hkdfBlocks evp prk info blocks block.toList (counter + 1)
    some (block.toList ++ rest)

/-- Expand a key to as many octets as asked for. -/
def hkdfExpand (evp : Evp) (prk info : Bytes) (okmLen : Nat) : Option Bytes :=
  if okmLen > 255 * 32 then none
  else (hkdfBlocks evp prk info ((okmLen + 31) / 32) [] 1).map fun bytes => bytes.take okmLen

/-- Description of an expansion: its length, its label and its context. -/
def hkdfLabel (label : String) (context : Bytes) (outLen : Nat) : Bytes :=
  let fullLabel := asciiBytes "nxp1 " ++ asciiBytes label
  [UInt8.ofNat (outLen / 256), UInt8.ofNat (outLen % 256), UInt8.ofNat fullLabel.length] ++
    fullLabel ++ UInt8.ofNat context.length :: context

/-- Expand a secret under a label. -/
def hkdfExpandLabel (evp : Evp) (secret : Key) (label : String) (context : Bytes) (outLen : Nat) :
    Option (Vector UInt8 outLen) :=
  if 5 + (asciiBytes label).length > 255 ∨ context.length > 255 ∨ outLen > 65535 then none
  else (hkdfExpand evp secret.toList (hkdfLabel label context outLen) outLen).map (toArray outLen)

/-- Derive the three keys of one direction, keeping those derived before a failure. -/
def cryptoDeriveTrafficKeys (evp : Evp) (secret : Key) (out : CryptoKeys) : Bool × CryptoKeys :=
  match hkdfExpandLabel evp secret "key" [] 32 with
  | none => (false, out)
  | some key =>
    let out := { out with key := key }
    match hkdfExpandLabel evp secret "iv" [] 12 with
    | none => (false, out)
    | some iv =>
      let out := { out with iv := iv }
      match hkdfExpandLabel evp secret "hp" [] 32 with
      | none => (false, out)
      | some hpKey => (true, { out with hpKey := hpKey, keyLen := 32 })

/-- Derive both directions of a level and mark it available. -/
def deriveKeyPair (evp : Evp) (sendSecret recvSecret : Key) (algo : AeadAlgo)
    (state : CryptoState) : Bool × CryptoState :=
  let state := { state with algo := algo }
  match cryptoDeriveTrafficKeys evp sendSecret state.send with
  | (false, send) => (false, { state with send := send })
  | (true, send) =>
    let state := { state with send := send }
    match cryptoDeriveTrafficKeys evp recvSecret state.recv with
    | (false, recv) => (false, { state with recv := recv })
    | (true, recv) => (true, { state with recv := recv, available := true })

/-- The client's and the server's secrets of the initial level. -/
def initialSecrets (evp : Evp) (dcid : ConnId) : Option (Key × Key) := do
  let initialSecret ← hkdfExtract evp initialSalt dcid.data
  let clientSecret ← hkdfExpandLabel evp initialSecret "client in" [] 32
  let serverSecret ← hkdfExpandLabel evp initialSecret "server in" [] 32
  some (clientSecret, serverSecret)

/-- Derive the initial keys from a connection identifier, as the client sees them. -/
def cryptoDeriveInitialKeys (evp : Evp) (dcid : ConnId) (state : CryptoState) :
    Bool × CryptoState :=
  match initialSecrets evp dcid with
  | none => (false, state)
  | some (clientSecret, serverSecret) =>
    deriveKeyPair evp clientSecret serverSecret .aes256Gcm state

/-- Secrets of the handshake level, bound to the transcript and the shared secret. -/
structure HandshakeSecrets where
  transcriptHash : Key
  handshakeSecret : Key
  clientSecret : Key
  serverSecret : Key

/-- Derive the handshake-level secrets. -/
def handshakeSecrets (evp : Evp) (transcript : Bytes) (sharedSecret : Key) :
    Option HandshakeSecrets := do
  let transcriptHash ← evp.sha256 transcript
  let handshakeSecret ← hkdfExtract evp (List.replicate 32 0) sharedSecret.toList
  let clientSecret ← hkdfExpandLabel evp handshakeSecret "c hs traffic" transcriptHash.toList 32
  let serverSecret ← hkdfExpandLabel evp handshakeSecret "s hs traffic" transcriptHash.toList 32
  some ⟨transcriptHash, handshakeSecret, clientSecret, serverSecret⟩

/-- Secrets of the application level. -/
structure AppSecrets where
  masterSecret : Key
  clientSecret : Key
  serverSecret : Key

/-- Derive the application-level secrets. -/
def appSecrets (evp : Evp) (handshakeSecret transcriptHash : Key) : Option AppSecrets := do
  let derived ← hkdfExpandLabel evp handshakeSecret "derived" [] 32
  let masterSecret ← hkdfExtract evp derived.toList (List.replicate 32 0)
  let clientSecret ← hkdfExpandLabel evp masterSecret "c ap traffic" transcriptHash.toList 32
  let serverSecret ← hkdfExpandLabel evp masterSecret "s ap traffic" transcriptHash.toList 32
  some ⟨masterSecret, clientSecret, serverSecret⟩

/-- Derive the secret later sessions resume from. -/
def cryptoDeriveResumptionSecret (evp : Evp) (masterSecret : Key) (transcript : Bytes) :
    Option Key := do
  let transcriptHash ← evp.sha256 transcript
  hkdfExpandLabel evp masterSecret "resumption" transcriptHash.toList 32

end Nxp
