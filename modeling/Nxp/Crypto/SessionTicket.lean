import Nxp.Crypto.KeySchedule

/-! Session tickets as a server makes and opens them, and the early keys derived from one. -/

namespace Nxp

/-- The only ticket version. -/
def ticketVersion : UInt8 := 0x01

/-- Length of a ticket's plaintext without transport parameters. -/
def ticketFixedLen : Nat := 1 + 8 + 4 + 1 + 32 + 2

/-- The longest plaintext of a ticket. -/
def ticketMaxPlaintext : Nat := 512

/-- How long a ticket is valid, in seconds. -/
def ticketDefaultLifetime : UInt32 := 3600

/-- Plaintext of a ticket. -/
def ticketPlaintext (resumptionSecret : Key) (algo : AeadAlgo) (transportParams : Bytes)
    (nowUs : UInt64) : Bytes :=
  let lifetime := ticketDefaultLifetime
  let tpLen := transportParams.length
  [ticketVersion] ++ timestampBytes nowUs ++
    [(lifetime >>> 24).toUInt8, (lifetime >>> 16).toUInt8, (lifetime >>> 8).toUInt8,
      lifetime.toUInt8] ++
    [algo.toByte] ++ resumptionSecret.toList ++
    [UInt8.ofNat (tpLen >>> 8), UInt8.ofNat (tpLen &&& 0xFF)] ++ transportParams

/-- Make a ticket for a buffer of some size, from a nonce that may not be had. -/
def sessionTicketCreate (evp : Evp) (serverKey resumptionSecret : Key) (algo : AeadAlgo)
    (transportParams : Bytes) (nowUs : UInt64) (nonce : Option Nonce) (ticketCap : Nat) :
    Except ErrorCode Bytes :=
  if transportParams.length > 255 then .error .invalidArgument
  else if ticketFixedLen + transportParams.length > ticketMaxPlaintext then .error .bufferTooSmall
  else
    let pt := ticketPlaintext resumptionSecret algo transportParams nowUs
    if ticketCap < 12 + pt.length + aeadTagLen then .error .bufferTooSmall
    else
      match nonce with
      | none => .error .platform
      | some nonce =>
        match aeadEncrypt evp .aes256Gcm serverKey nonce [] pt with
        | none => .error .cryptoFail
        | some sealed => .ok (nonce.toList ++ sealed)

/-- What a valid ticket holds; the length of the parameters is told even if they do not fit. -/
structure TicketContents where
  resumptionSecret : Key
  algo : AeadAlgo
  tpLen : Nat
  transportParams : Bytes

/-- Read the plaintext of a ticket, whose expiry is compared in wrapping arithmetic. -/
def parseTicket (pt : Bytes) (nowUs : UInt64) (tpCap : Nat) : Option TicketContents :=
  if pt.length < ticketFixedLen then none
  else if pt.headD 0 ≠ ticketVersion then none
  else
    let creationTime := readBigEndian ((pt.drop 1).take 8)
    let lifetime := readBigEndian ((pt.drop 9).take 4)
    if nowUs > creationTime + lifetime * 1000000 then none
    else
      let tpLen := (readBigEndian ((pt.drop 46).take 2)).toNat
      if tpLen > 0 ∧ 48 + tpLen > pt.length then none
      else
        some { resumptionSecret := toArray 32 (pt.drop 14)
               algo := AeadAlgo.ofByte (pt.getD 13 0)
               tpLen := tpLen
               -- Parameters that do not fit the caller's buffer are not copied.
               transportParams := if tpLen ≤ tpCap then (pt.drop 48).take tpLen else [] }

/-- Open a ticket and check its version and its age. -/
def sessionTicketValidate (evp : Evp) (serverKey : Key) (ticket : Bytes) (nowUs : UInt64)
    (tpCap : Nat) : Except ErrorCode TicketContents :=
  if ticket.length < 12 + ticketFixedLen + aeadTagLen then .error .tokenInvalid
  else
    match aeadDecrypt evp .aes256Gcm serverKey (toArray 12 ticket) [] (ticket.drop 12) with
    | none => .error .tokenInvalid
    | some pt =>
      match parseTicket pt nowUs tpCap with
      | none => .error .tokenInvalid
      | some contents => .ok contents

end Nxp
