import Nxp.Crypto.HeaderProtection
import Nxp.Lib.Word
import Nxp.Util.VarintLaws

/-! That sealing wastes no nonce, and that what one side seals the other side opens. -/

namespace Nxp

/-- Two packet numbers that give the same nonce are the same. -/
theorem cryptoMakeNonce_injective (iv : Nonce) {left right : UInt64}
    (same : cryptoMakeNonce iv left = cryptoMakeNonce iv right) : left = right := by
  -- The vector masks every octet of the number the same way.
  have octet (k : Nat) (small : k < 8) :
      octetAt left (UInt64.ofNat (8 * k)) = octetAt right (UInt64.ofNat (8 * k)) := by
    have entry := congrArg (fun nonce => nonce.toArray[11 - k]?) same
    have place : 11 - (11 - k) = k := by omega
    have beyond : ¬ 11 - k < 4 := by omega
    simpa [cryptoMakeNonce, octetAt, place, beyond, show 11 - k < 12 by omega] using entry
  have at56 : octetAt left 56 = octetAt right 56 := octet 7 (by decide)
  have at48 : octetAt left 48 = octetAt right 48 := octet 6 (by decide)
  have at40 : octetAt left 40 = octetAt right 40 := octet 5 (by decide)
  have at32 : octetAt left 32 = octetAt right 32 := octet 4 (by decide)
  have at24 : octetAt left 24 = octetAt right 24 := octet 3 (by decide)
  have at16 : octetAt left 16 = octetAt right 16 := octet 2 (by decide)
  have at8 : octetAt left 8 = octetAt right 8 := octet 1 (by decide)
  have at0 : octetAt left 0 = octetAt right 0 := octet 0 (by decide)
  rw [← octets_join_eight left, ← octets_join_eight right, at56, at48, at40, at32, at24, at16, at8,
    at0]

theorem maskFirst_maskFirst (mask : Vector UInt8 5) (first : UInt8) :
    maskFirst mask (maskFirst mask first) = first := by
  -- Neither mask reaches the bit that says which of them applies.
  have long := Word.and_xor_masked (show (0x0F : UInt8) &&& 0x80 = 0 by decide) first mask[0]
  have short := Word.and_xor_masked (show (0x1F : UInt8) &&& 0x80 = 0 by decide) first mask[0]
  unfold maskFirst
  by_cases form : first &&& 0x80 != 0
  · rw [if_pos form, long, if_pos form, Word.xor_xor_cancel]
  · rw [if_neg form, short, if_neg form, Word.xor_xor_cancel]

section Masking

variable (mask : Vector UInt8 5) (packet : Bytes) (pnOffset pnLen : Nat)

/-- Masking a packet number changes its own octets and no other. -/
theorem maskPktNum_getElem? (i : Nat) :
    (maskPktNum mask packet pnOffset pnLen)[i]? =
      if pnOffset ≤ i ∧ i < pnOffset + pnLen then
        packet[i]?.map (· ^^^ mask.toList.getD (1 + (i - pnOffset)) 0)
      else packet[i]? := by
  -- The induction is on the octets masked so far.
  induction pnLen with
  | zero => simp [maskPktNum]
  | succ pnLen ih =>
    unfold maskPktNum at ih ⊢
    rw [List.range_succ, List.foldl_append, List.foldl_cons, List.foldl_nil,
      List.getElem?_modify, ih]
    by_cases last : pnOffset + pnLen = i
    · subst last
      simp
    · have same : (pnOffset ≤ i ∧ i < pnOffset + (pnLen + 1)) ↔
          (pnOffset ≤ i ∧ i < pnOffset + pnLen) := by omega
      simp [last, same]

theorem maskPktNum_length :
    (maskPktNum mask packet pnOffset pnLen).length = packet.length := by
  unfold maskPktNum
  induction pnLen with
  | zero => rfl
  | succ pnLen ih =>
    rw [List.range_succ, List.foldl_append, List.foldl_cons, List.foldl_nil, List.length_modify, ih]

end Masking

/-- The packet with its first octet and its packet number masked. -/
def hpMasked (mask : Vector UInt8 5) (packet : Bytes) (pnOffset pnLen : Nat) : Bytes :=
  maskPktNum mask (packet.modify 0 (maskFirst mask)) pnOffset pnLen

section Masked

variable {mask : Vector UInt8 5} {packet : Bytes} {pnOffset pnLen : Nat}

/-- Masking keeps the length of a packet. -/
@[simp] theorem hpMasked_length : (hpMasked mask packet pnOffset pnLen).length = packet.length := by
  unfold hpMasked
  rw [maskPktNum_length, List.length_modify]

theorem hpMasked_drop (behind : 0 < pnOffset) {start : Nat} (after : pnOffset + pnLen ≤ start) :
    (hpMasked mask packet pnOffset pnLen).drop start = packet.drop start := by
  apply List.ext_getElem?
  intro i
  rw [List.getElem?_drop, List.getElem?_drop]
  unfold hpMasked
  rw [maskPktNum_getElem?, if_neg (by omega), List.getElem?_modify]
  have other : ¬ 0 = start + i := by omega
  simp [other]

theorem hpSample_hpMasked (behind : 0 < pnOffset) (short : pnLen ≤ 4) :
    hpSample (hpMasked mask packet pnOffset pnLen) pnOffset = hpSample packet pnOffset := by
  unfold hpSample
  simp only [hpMasked_length, hpMasked_drop behind (Nat.add_le_add_left short pnOffset)]

theorem hpMasked_hpMasked (behind : 0 < pnOffset) :
    hpMasked mask (hpMasked mask packet pnOffset pnLen) pnOffset pnLen = packet := by
  apply List.ext_getElem?
  intro i
  unfold hpMasked
  rw [maskPktNum_getElem?]
  simp only [List.getElem?_modify, maskPktNum_getElem?]
  by_cases inside : pnOffset ≤ i ∧ i < pnOffset + pnLen
  · -- The number stands behind the first octet, so each octet is masked one way only.
    have other : ¬ 0 = i := by omega
    simp only [inside, other, and_self, if_true, if_false, id_map', Option.map_map]
    cases packet[i]? with
    | none => rfl
    | some octet => exact congrArg some (Word.xor_xor_cancel octet _)
  · by_cases first : 0 = i
    · cases packet[i]? <;> simp [inside, first, maskFirst_maskFirst]
    · cases packet[i]? <;> simp [inside, first]

theorem hpMasked_head (behind : 0 < pnOffset) :
    ((hpMasked mask packet pnOffset pnLen).modify 0 (maskFirst mask)).headD 0 = packet.headD 0 := by
  have first : ((hpMasked mask packet pnOffset pnLen).modify 0 (maskFirst mask))[0]? =
      packet[0]? := by
    unfold hpMasked
    rw [List.getElem?_modify, maskPktNum_getElem?, if_neg (by omega), List.getElem?_modify]
    cases packet[0]? <;> simp [maskFirst_maskFirst]
  rw [List.headD_eq_head?_getD, List.headD_eq_head?_getD, List.head?_eq_getElem?,
    List.head?_eq_getElem?, first]

end Masked

/-- What the library promises of its primitives: the cipher opens what it sealed, keeping its
length, and a known cipher has a mask for every sample. -/
structure Evp.Inverts (evp : Evp) : Prop where
  opens : ∀ {algo key nonce aad plaintext ciphertext tag},
    evp.encrypt algo key nonce aad plaintext = some (ciphertext, tag) →
      evp.decrypt algo key nonce aad ciphertext tag = some plaintext
  length : ∀ {algo key nonce aad plaintext ciphertext tag},
    evp.encrypt algo key nonce aad plaintext = some (ciphertext, tag) →
      ciphertext.length = plaintext.length
  masks : ∀ algo key sample, getCipher algo = true → (evp.hpMask algo key sample).isSome = true

section Protection

variable {evp : Evp} {algo : AeadAlgo} (hpKey : Key) {packet : Bytes} {pnOffset pnLen : Nat}

/-- A known cipher has a mask for every sample. -/
theorem generateHpMask_total (inverts : evp.Inverts) (cipher : getCipher algo = true)
    (sample : Vector UInt8 16) : ∃ mask, generateHpMask evp algo hpKey sample = some mask := by
  have total := inverts.masks algo hpKey sample cipher
  cases algo with
  | unknown id other => cases cipher
  | _ => exact Option.isSome_iff_exists.mp total

theorem hpSample_total (long : pnOffset + 4 + hpSampleLen ≤ packet.length) :
    ∃ sample, hpSample packet pnOffset = some sample := by
  unfold hpSample
  rw [dif_pos long]
  exact ⟨_, rfl⟩

theorem hpSample_short (short : ¬ pnOffset + 4 + hpSampleLen ≤ packet.length) :
    hpSample packet pnOffset = none := by
  unfold hpSample
  rw [dif_neg short]

/-- Header protection keeps the length of a packet. -/
theorem hpProtect_length :
    (hpProtect evp algo hpKey packet pnOffset pnLen).2.length = packet.length := by
  unfold hpProtect
  split
  · rfl
  · split
    · rfl
    · rw [maskPktNum_length, List.length_modify]

/-- A packet that was protected is given back, with the length of its number. -/
theorem hpUnprotect_hpProtect
    (masks : ∀ sample, ∃ mask, generateHpMask evp algo hpKey sample = some mask)
    (behind : 0 < pnOffset) (number : (packet.headD 0 &&& 0x03).toNat + 1 = pnLen)
    (long : pnOffset + 4 + hpSampleLen ≤ packet.length) :
    (hpProtect evp algo hpKey packet pnOffset pnLen).1 = true ∧
    hpUnprotect evp algo hpKey (hpProtect evp algo hpKey packet pnOffset pnLen).2 pnOffset =
      some (pnLen, packet) := by
  have short : pnLen ≤ 4 := by
    have low : (packet.headD 0 &&& 0x03).toNat ≤ 3 := by
      rw [UInt8.toNat_and]
      exact Nat.and_le_right
    omega
  obtain ⟨sample, sampled⟩ := hpSample_total long
  obtain ⟨mask, masked⟩ := masks sample
  have taken : hpProtect evp algo hpKey packet pnOffset pnLen =
      (true, hpMasked mask packet pnOffset pnLen) := by
    unfold hpProtect
    simp only [sampled, masked]
    rfl
  rw [taken]
  refine ⟨rfl, ?_⟩
  unfold hpUnprotect
  -- The receiver takes the same sample and so makes the same mask.
  rw [hpSample_hpMasked behind short, sampled]
  simp only [Option.bind_eq_bind, Option.bind_some, masked]
  rw [hpMasked_head behind, number]
  exact congrArg (fun clear => some (pnLen, clear)) (hpMasked_hpMasked behind)

/-- A packet too short to be sampled goes out as it is and cannot be read back. -/
theorem hpUnprotect_short (short : ¬ pnOffset + 4 + hpSampleLen ≤ packet.length) :
    hpUnprotect evp algo hpKey (hpProtect evp algo hpKey packet pnOffset pnLen).2 pnOffset =
      none := by
  have plain : (hpProtect evp algo hpKey packet pnOffset pnLen).2 = packet := by
    unfold hpProtect
    rw [hpSample_short short]
  rw [plain]
  unfold hpUnprotect
  rw [hpSample_short short]
  rfl

end Protection

/-- What was sealed is opened under the same key, nonce and header, and is longer by the tag. -/
theorem aeadDecrypt_aeadEncrypt {evp : Evp} (inverts : evp.Inverts) {algo : AeadAlgo} {key : Key}
    {nonce : Nonce} {aad plaintext out : Bytes}
    (sealed : aeadEncrypt evp algo key nonce aad plaintext = some out) :
    aeadDecrypt evp algo key nonce aad out = some plaintext ∧
      out.length = plaintext.length + aeadTagLen ∧ getCipher algo = true := by
  unfold aeadEncrypt at sealed
  split at sealed
  · rename_i cipher
    rw [Option.map_eq_some_iff] at sealed
    obtain ⟨⟨ciphertext, tag⟩, encrypted, rfl⟩ := sealed
    refine ⟨?_, ?_, cipher⟩
    · unfold aeadDecrypt
      rw [splitTag_append, Option.bind_eq_bind, Option.bind_some]
      exact (if_pos cipher).trans (inverts.opens encrypted)
    · rw [List.length_append, inverts.length encrypted]
      simp [aeadTagLen]
  · cases sealed

end Nxp
