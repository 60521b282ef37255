import Nxp.Crypto.KeySchedule

/-! Key derivation succeeds whenever its primitives do, and both sides derive mirrored keys. -/

namespace Nxp

/-- Every cipher has its own number. -/
theorem AeadAlgo.ofByte_toByte (algo : AeadAlgo) : AeadAlgo.ofByte algo.toByte = algo := by
  cases algo with
  | aes256Gcm => rfl
  | chacha20Poly1305 => rfl
  | unknown id other =>
    have large := UInt8.le_iff_toNat_le.mp other
    have two : UInt8.toNat 2 = 2 := rfl
    unfold AeadAlgo.ofByte AeadAlgo.toByte
    rw [dif_neg (by rintro rfl; exact absurd large (by decide)),
      dif_neg (by rintro rfl; exact absurd large (by decide))]

/-- What stands at the front of a buffer is read back. -/
theorem toArray_append {size : Nat} (front : Vector UInt8 size) (rest : Bytes) :
    toArray size (front.toList ++ rest) = front := by
  apply Vector.ext
  intro i inside
  have present : i < front.toList.length := by simpa using inside
  simp [toArray, List.getElem?_append_left present, List.getElem?_eq_getElem present]

/-- The hash and the keyed hash never fail. -/
structure Evp.Hashes (evp : Evp) : Prop where
  hash : ∀ data, (evp.sha256 data).isSome
  mac : ∀ key data, (evp.hmacSha256 key data).isSome

/-- Keys of one direction, as derived into an empty place. -/
def trafficKeys (evp : Evp) (secret : Key) : CryptoKeys :=
  (cryptoDeriveTrafficKeys evp secret CryptoKeys.zero).2

/-- Keys of one level, for the side that sends under the first secret. -/
def levelKeys (evp : Evp) (secrets : Key × Key) (algo : AeadAlgo) : CryptoState :=
  ⟨trafficKeys evp secrets.1, trafficKeys evp secrets.2, algo, true⟩

section Hashes

variable {evp : Evp} (hashes : evp.Hashes)
include hashes

theorem hkdfExtract_total (salt ikm : Bytes) : ∃ key, hkdfExtract evp salt ikm = some key :=
  Option.isSome_iff_exists.mp (hashes.mac _ _)

theorem hkdfBlocks_total (prk info : Bytes) (blocks : Nat) (previous : Bytes) (counter : UInt8) :
    ∃ bytes, hkdfBlocks evp prk info blocks previous counter = some bytes := by
  -- Each block feeds the next, so both the block before and the counter move along.
  induction blocks generalizing previous counter with
  | zero => exact ⟨[], rfl⟩
  | succ blocks ih =>
    obtain ⟨block, made⟩ := Option.isSome_iff_exists.mp
      (hashes.mac prk (previous ++ info ++ [counter]))
    obtain ⟨rest, more⟩ := ih block.toList (counter + 1)
    refine ⟨block.toList ++ rest, ?_⟩
    simp only [hkdfBlocks, made, more, Option.bind_eq_bind, Option.bind_some]

theorem hkdfExpandLabel_total (secret : Key) (label : String) (context : Bytes) (outLen : Nat)
    (shortLabel : (asciiBytes label).length ≤ 250) (shortContext : context.length ≤ 255)
    (shortOutput : outLen ≤ 255 * 32) :
    ∃ out, hkdfExpandLabel evp secret label context outLen = some out := by
  obtain ⟨bytes, made⟩ := hkdfBlocks_total hashes secret.toList
    (hkdfLabel label context outLen) ((outLen + 31) / 32) [] 1
  unfold hkdfExpandLabel hkdfExpand
  rw [if_neg (by omega), if_neg (by omega), made]
  exact ⟨_, rfl⟩

theorem cryptoDeriveTrafficKeys_total (secret : Key) (out : CryptoKeys) :
    cryptoDeriveTrafficKeys evp secret out = (true, trafficKeys evp secret) := by
  -- The three labels are expanded one after the other.
  obtain ⟨key, keyMade⟩ := hkdfExpandLabel_total hashes secret "key" [] 32
    (by decide) (by decide) (by decide)
  obtain ⟨iv, ivMade⟩ := hkdfExpandLabel_total hashes secret "iv" [] 12
    (by decide) (by decide) (by decide)
  obtain ⟨hpKey, hpMade⟩ := hkdfExpandLabel_total hashes secret "hp" [] 32
    (by decide) (by decide) (by decide)
  simp only [trafficKeys, cryptoDeriveTrafficKeys, keyMade, ivMade, hpMade]

/-- Both directions of a level are derived whatever stood in their place. -/
theorem deriveKeyPair_total (sendSecret recvSecret : Key) (algo : AeadAlgo) (state : CryptoState) :
    deriveKeyPair evp sendSecret recvSecret algo state =
      (true, levelKeys evp (sendSecret, recvSecret) algo) := by
  unfold deriveKeyPair
  simp only [cryptoDeriveTrafficKeys_total hashes, levelKeys]

/-- The initial keys are derived from any identifier. -/
theorem cryptoDeriveInitialKeys_total (dcid : ConnId) :
    ∃ secrets, ∀ state, cryptoDeriveInitialKeys evp dcid state =
      (true, levelKeys evp secrets .aes256Gcm) := by
  obtain ⟨initialSecret, extracted⟩ := hkdfExtract_total hashes initialSalt dcid.data
  obtain ⟨clientSecret, client⟩ := hkdfExpandLabel_total hashes initialSecret "client in" [] 32
    (by decide) (by decide) (by decide)
  obtain ⟨serverSecret, server⟩ := hkdfExpandLabel_total hashes initialSecret "server in" [] 32
    (by decide) (by decide) (by decide)
  refine ⟨(clientSecret, serverSecret), fun state => ?_⟩
  have secrets : initialSecrets evp dcid = some (clientSecret, serverSecret) := by
    simp only [initialSecrets, extracted, client, server, Option.bind_eq_bind, Option.bind_some]
  simp only [cryptoDeriveInitialKeys, secrets, deriveKeyPair_total hashes]

end Hashes

/-- Primitives simple enough to compute with: texts stay readable under a constant tag. -/
def plainEvp : Evp where
  encrypt _ _ _ _ plaintext := some (plaintext, Vector.replicate 16 0)
  decrypt _ _ _ _ ciphertext tag :=
    if tag = Vector.replicate 16 0 then some ciphertext else none
  hpMask _ _ _ := some (Vector.replicate 5 0)
  hmacSha256 _ data := some (toArray 32 data)
  sha256 data := some (toArray 32 data)
  x25519Public := id
  x25519Derive own other := some (Vector.zipWith (· ^^^ ·) own other)

end Nxp
