import Nxp.Crypto.Aead

/-! Masking of the first octet and of the packet number, keyed by a sample of the ciphertext. -/

namespace Nxp

/-- Length of the ciphertext sample a mask is made from. -/
def hpSampleLen : Nat := 16

/-- The sample that stands a fixed distance behind the start of the packet number. -/
def hpSample (packet : Bytes) (pnOffset : Nat) : Option (Vector UInt8 16) :=
  -- The sample is taken as if the packet number had its greatest length.
  if long : pnOffset + 4 + hpSampleLen ≤ packet.length then
    some ⟨((packet.drop (pnOffset + 4)).take hpSampleLen).toArray, by
      rw [List.size_toArray, List.length_take, List.length_drop]
      unfold hpSampleLen at *
      omega⟩
  else none

/-- The mask for a packet, there being none for an unknown cipher. -/
def generateHpMask (evp : Evp) (algo : AeadAlgo) (hpKey : Key) (sample : Vector UInt8 16) :
    Option (Vector UInt8 5) :=
  match algo with
  | .aes256Gcm | .chacha20Poly1305 => evp.hpMask algo hpKey sample
  | .unknown _ _ => none

/-- Mask the first octet, four of its bits under a long header and five under a short one. -/
def maskFirst (mask : Vector UInt8 5) (first : UInt8) : UInt8 :=
  if first &&& 0x80 != 0 then first ^^^ (mask[0] &&& 0x0F) else first ^^^ (mask[0] &&& 0x1F)

/-- Mask the octets of a packet number. -/
def maskPktNum (mask : Vector UInt8 5) (packet : Bytes) (pnOffset pnLen : Nat) : Bytes :=
  (List.range pnLen).foldl (fun packet i =>
    packet.modify (pnOffset + i) (· ^^^ mask.toList.getD (1 + i) 0)) packet

/-- Apply header protection, leaving the packet alone when it is too short to sample. -/
def hpProtect (evp : Evp) (algo : AeadAlgo) (hpKey : Key) (packet : Bytes) (pnOffset pnLen : Nat) :
    Bool × Bytes :=
  match hpSample packet pnOffset with
  | none => (false, packet)
  | some sample =>
    match generateHpMask evp algo hpKey sample with
    | none => (false, packet)
    | some mask => (true, maskPktNum mask (packet.modify 0 (maskFirst mask)) pnOffset pnLen)

/-- Remove header protection, returning the length of the packet number and the clear packet. -/
def hpUnprotect (evp : Evp) (algo : AeadAlgo) (hpKey : Key) (packet : Bytes) (pnOffset : Nat) :
    Option (Nat × Bytes) := do
  let sample ← hpSample packet pnOffset
  let mask ← generateHpMask evp algo hpKey sample
  let packet := packet.modify 0 (maskFirst mask)
  let pnLen := (packet.headD 0 &&& 0x03).toNat + 1
  some (pnLen, maskPktNum mask packet pnOffset pnLen)

end Nxp
