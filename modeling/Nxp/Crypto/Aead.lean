import Nxp.Types

/-! Packet payload protection over the primitives of the cryptographic library. -/

namespace Nxp

/-- Key, hash and shared-secret material, all of one size. -/
abbrev Key := Vector UInt8 32

/-- Initialisation vectors and nonces. -/
abbrev Nonce := Vector UInt8 12

/-- Authentication tags. -/
abbrev Tag := Vector UInt8 16

/-- Ciphers as they are named on the wire, any other octet being kept as it came. -/
inductive AeadAlgo where
  | aes256Gcm
  | chacha20Poly1305
  | unknown (id : UInt8) (other : 2 ≤ id)
  deriving DecidableEq, Repr, Inhabited

/-- Cipher named by an octet. -/
def AeadAlgo.ofByte (id : UInt8) : AeadAlgo :=
  if zero : id = 0 then .aes256Gcm
  else if one : id = 1 then .chacha20Poly1305
  else .unknown id (UInt8.le_iff_toNat_le.mpr (by
    have notZero : id.toNat ≠ 0 := fun same => zero (UInt8.toNat_inj.mp same)
    have notOne : id.toNat ≠ 1 := fun same => one (UInt8.toNat_inj.mp same)
    have two : UInt8.toNat 2 = 2 := rfl
    omega))

/-- Octet that names a cipher. -/
def AeadAlgo.toByte : AeadAlgo → UInt8
  | .aes256Gcm => 0
  | .chacha20Poly1305 => 1
  | .unknown id _ => id

/-- The library primitives the code calls, each of which may fail. -/
structure Evp where
  encrypt : AeadAlgo → Key → Nonce → (aad plaintext : Bytes) → Option (Bytes × Tag)
  decrypt : AeadAlgo → Key → Nonce → (aad ciphertext : Bytes) → Tag → Option Bytes
  hpMask : AeadAlgo → Key → (sample : Vector UInt8 16) → Option (Vector UInt8 5)
  hmacSha256 : (key data : Bytes) → Option Key
  sha256 : Bytes → Option Key
  x25519Public : Key → Key
  x25519Derive : (privateKey peerPublic : Key) → Option Key

/-- Key material of one direction. -/
structure CryptoKeys where
  key : Key
  iv : Nonce
  hpKey : Key
  keyLen : UInt8
  deriving DecidableEq, Repr

/-- Keys of both directions at one level. -/
structure CryptoState where
  send : CryptoKeys
  recv : CryptoKeys
  algo : AeadAlgo
  available : Bool
  deriving DecidableEq, Repr

/-- Key material before it is derived. -/
def CryptoKeys.zero : CryptoKeys :=
  ⟨Vector.replicate 32 0, Vector.replicate 12 0, Vector.replicate 32 0, 0⟩

/-- A level without keys. -/
def CryptoState.zero : CryptoState :=
  ⟨CryptoKeys.zero, CryptoKeys.zero, .aes256Gcm, false⟩

/-- Whether the code has a cipher for an algorithm. -/
def getCipher : AeadAlgo → Bool
  | .aes256Gcm | .chacha20Poly1305 => true
  | .unknown _ _ => false

/-- Seal a payload, appending its tag. -/
def aeadEncrypt (evp : Evp) (algo : AeadAlgo) (key : Key) (nonce : Nonce)
    (aad plaintext : Bytes) : Option Bytes :=
  if getCipher algo then
    (evp.encrypt algo key nonce aad plaintext).map fun (ciphertext, tag) =>
      ciphertext ++ tag.toList
  else none

/-- The last octets of a sealed payload are its tag. -/
def splitTag (sealed : Bytes) : Option (Bytes × Tag) :=
  if long : aeadTagLen ≤ sealed.length then
    some (sealed.take (sealed.length - aeadTagLen),
      ⟨(sealed.drop (sealed.length - aeadTagLen)).toArray, by
        -- Exactly the length of a tag remains behind the payload.
        rw [List.size_toArray, List.length_drop]
        unfold aeadTagLen at *
        omega⟩)
  else none

/-- Open a sealed payload, which fails unless its tag verifies. -/
def aeadDecrypt (evp : Evp) (algo : AeadAlgo) (key : Key) (nonce : Nonce)
    (aad sealed : Bytes) : Option Bytes := do
  let (ciphertext, tag) ← splitTag sealed
  if getCipher algo then evp.decrypt algo key nonce aad ciphertext tag else none

/-- Combine a packet number into the low octets of an initialisation vector. -/
def cryptoMakeNonce (iv : Nonce) (pktNum : UInt64) : Nonce :=
  -- The last octet takes the low eight bits, and the first four octets are left alone.
  Vector.ofFn fun i =>
    if i.val < 4 then iv[i]
    else iv[i] ^^^ (pktNum >>> UInt64.ofNat (8 * (11 - i.val))).toUInt8

/-- A sealed payload splits into the ciphertext and the tag it was made of. -/
theorem splitTag_append (ciphertext : Bytes) (tag : Tag) :
    splitTag (ciphertext ++ tag.toList) = some (ciphertext, tag) := by
  have size : (ciphertext ++ tag.toList).length = ciphertext.length + 16 := by simp
  unfold splitTag aeadTagLen
  rw [dif_pos (by omega)]
  simp [Vector.toList]

end Nxp
