import Nxp.Crypto.KeySchedule

/-! Tokens that prove a client owns its address, as a server makes and checks them. -/

namespace Nxp

/-- The only token version. -/
def retryTokenVersion : UInt8 := 0x01

/-- How long a token is valid, in microseconds. -/
def retryTokenMaxAgeUs : UInt64 := 10 * 1000000

/-- Length of a token's plaintext without the identifier. -/
def retryTokenFixedLen : Nat := 1 + 8 + 28 + 1

/-- Plaintext of a token. -/
def retryTokenPlaintext (clientAddr : Addr) (originalDcid : ConnId) (nowUs : UInt64) : Bytes :=
  [retryTokenVersion] ++ timestampBytes nowUs ++ clientAddr.raw.toList ++
    [UInt8.ofNat originalDcid.len] ++ originalDcid.data

/-- Make a token for a buffer of some size, from a nonce that may not be had. -/
def retryTokenCreate (evp : Evp) (serverKey : Key) (clientAddr : Addr) (originalDcid : ConnId)
    (nowUs : UInt64) (nonce : Option Nonce) (tokenCap : Nat) : Except ErrorCode Bytes :=
  let pt := retryTokenPlaintext clientAddr originalDcid nowUs
  if tokenCap < 12 + pt.length + aeadTagLen then .error .bufferTooSmall
  else
    match nonce with
    | none => .error .platform
    | some nonce =>
      match aeadEncrypt evp .aes256Gcm serverKey nonce [] pt with
      | none => .error .cryptoFail
      | some sealed => .ok (nonce.toList ++ sealed)

/-- Check the plaintext of a token, its age being compared in wrapping arithmetic. -/
def checkRetryToken (pt : Bytes) (clientAddr : Addr) (originalDcid : ConnId) (nowUs : UInt64) :
    Bool :=
  if pt.length < retryTokenFixedLen then false
  else if pt.headD 0 ≠ retryTokenVersion then false
  else if nowUs > readBigEndian ((pt.drop 1).take 8) + retryTokenMaxAgeUs then false
  else if (pt.drop 9).take 28 ≠ clientAddr.raw.toList then false
  else
    let dcidLen := (pt.getD 37 0).toNat
    if dcidLen ≠ originalDcid.len then false
    else if dcidLen > 0 ∧ retryTokenFixedLen + dcidLen > pt.length then false
    else (pt.drop retryTokenFixedLen).take dcidLen = originalDcid.data

/-- Accept a token that was made for an address and an identifier not long ago. -/
def retryTokenValidate (evp : Evp) (serverKey : Key) (clientAddr : Addr) (originalDcid : ConnId)
    (token : Bytes) (nowUs : UInt64) : ErrorCode :=
  if token.length < 12 + retryTokenFixedLen + aeadTagLen then .tokenInvalid
  else
    match aeadDecrypt evp .aes256Gcm serverKey (toArray 12 token) [] (token.drop 12) with
    | none => .tokenInvalid
    | some pt => if checkRetryToken pt clientAddr originalDcid nowUs then .ok else .tokenInvalid

end Nxp
