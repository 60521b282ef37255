import Nxp.Core.OpenLaws
import Nxp.Crypto.RetryToken

/-! Tokens and tickets are accepted for what they were made for, and for as long as they last. -/

namespace Nxp

theorem slice_eq {front part rest : Bytes} {start size : Nat} (before : front.length = start)
    (long : part.length = size) : ((front ++ (part ++ rest)).drop start).take size = part := by
  rw [List.drop_left' before, List.take_left' long]

theorem lt_add_iff {start nowUs age : UInt64} (bounded : start.toNat + age.toNat < 2 ^ 64) :
    nowUs > start + age ↔ start.toNat + age.toNat < nowUs.toNat := by
  rw [gt_iff_lt, UInt64.lt_iff_toNat_lt, UInt64.toNat_add, Nat.mod_eq_of_lt bounded]

section Opening

variable {evp : Evp} {serverKey : Key} {nonce : Nonce} {pt out : Bytes}

theorem aeadDecrypt_front (inverts : evp.Inverts)
    (sealed : aeadEncrypt evp .aes256Gcm serverKey nonce [] pt = some out) :
    aeadDecrypt evp .aes256Gcm serverKey (toArray 12 (nonce.toList ++ out)) []
        ((nonce.toList ++ out).drop 12) = some pt ∧
      (nonce.toList ++ out).length = 12 + pt.length + aeadTagLen := by
  obtain ⟨opened, long, -⟩ := aeadDecrypt_aeadEncrypt inverts sealed
  have front : nonce.toList.length = 12 := by simp
  rw [toArray_append, List.drop_left' front, List.length_append, front, long, Nat.add_assoc]
  exact ⟨opened, rfl⟩

end Opening

section RetryToken

variable {clientAddr otherAddr : Addr} {originalDcid otherDcid : ConnId} {createdUs nowUs : UInt64}

theorem retryTokenPlaintext_length :
    (retryTokenPlaintext clientAddr originalDcid createdUs).length =
      retryTokenFixedLen + originalDcid.len := by
  simp [retryTokenPlaintext, timestampBytes_length, retryTokenFixedLen, ConnId.len]
  omega

/-- The plaintext of a token passes for the same address and identifier until it is too old. -/
theorem checkRetryToken_plaintext (bounded : createdUs.toNat + retryTokenMaxAgeUs.toNat < 2 ^ 64) :
    checkRetryToken (retryTokenPlaintext clientAddr originalDcid createdUs) otherAddr otherDcid
        nowUs = true ↔
      clientAddr.raw = otherAddr.raw ∧ originalDcid = otherDcid ∧
        nowUs.toNat ≤ createdUs.toNat + retryTokenMaxAgeUs.toNat := by
  -- Every part of the plaintext is found where the check looks for it.
  have time := timestampBytes_length createdUs
  have addr : clientAddr.raw.toList.length = 28 := by simp
  have idLen : (UInt8.ofNat originalDcid.len).toNat = originalDcid.len := by
    have short := originalDcid.bounded
    rw [UInt8.toNat_ofNat']
    exact Nat.mod_eq_of_lt (by unfold ConnId.len maxCidLen at *; omega)
  have long := @retryTokenPlaintext_length clientAddr originalDcid createdUs
  have timeAt : ((retryTokenPlaintext clientAddr originalDcid createdUs).drop 1).take 8 =
      timestampBytes createdUs := by
    simp only [retryTokenPlaintext, List.append_assoc]
    exact slice_eq rfl time
  have addrAt : ((retryTokenPlaintext clientAddr originalDcid createdUs).drop 9).take 28 =
      clientAddr.raw.toList := by
    simp only [retryTokenPlaintext]
    rw [List.append_assoc _ [_], List.append_assoc _ clientAddr.raw.toList]
    exact slice_eq (by simp [time]) addr
  have behind : ([retryTokenVersion] ++ timestampBytes createdUs ++ clientAddr.raw.toList).length =
      37 := by simp [time]
  have lenAt : (retryTokenPlaintext clientAddr originalDcid createdUs).getD 37 0 =
      UInt8.ofNat originalDcid.len := by
    simp only [retryTokenPlaintext]
    rw [List.append_assoc _ [_], List.getD_eq_getElem?_getD, List.getElem?_append_right (by omega),
      behind]
    rfl
  have idAt : (retryTokenPlaintext clientAddr originalDcid createdUs).drop retryTokenFixedLen =
      originalDcid.data :=
    List.drop_left' (by rw [List.length_append, behind]; rfl)
  unfold checkRetryToken
  rw [if_neg (by omega), timeAt, readBigEndian_timestampBytes, addrAt, lenAt, idAt, idLen,
    if_neg (by simp [retryTokenPlaintext])]
  simp only [Bool.if_false_left, Bool.and_eq_true, Bool.not_eq_true', decide_eq_false_iff_not,
    decide_eq_true_eq, lt_add_iff bounded, not_lt, ne_eq, not_not]
  constructor
  · rintro ⟨fresh, sameAddr, sameLen, -, sameId⟩
    refine ⟨Vector.toList_inj.mp sameAddr, ?_, fresh⟩
    rw [List.take_of_length_le (Nat.le_refl originalDcid.len)] at sameId
    exact ConnId.mk.injEq .. ▸ sameId
  · rintro ⟨sameAddr, rfl, fresh⟩
    refine ⟨fresh, congrArg Vector.toList sameAddr, rfl, ?_, List.take_of_length_le (Nat.le_refl _)⟩
    rw [long]
    omega

theorem retryTokenCreate_sealed {evp : Evp} {serverKey : Key} {nonce : Option Nonce}
    {tokenCap : Nat} {token : Bytes}
    (made : retryTokenCreate evp serverKey clientAddr originalDcid createdUs nonce tokenCap =
      .ok token) :
    ∃ drawn sealed, token = Vector.toList drawn ++ sealed ∧
      aeadEncrypt evp .aes256Gcm serverKey drawn []
        (retryTokenPlaintext clientAddr originalDcid createdUs) = some sealed := by
  unfold retryTokenCreate at made
  simp only at made
  split at made
  · cases made
  · split at made
    · cases made
    · split at made
      · cases made
      · rename_i sealed
        cases made
        exact ⟨_, _, rfl, sealed⟩

/-- A token is accepted exactly for the address and the identifier it was made for, until it is ten
seconds old. -/
theorem retryTokenValidate_iff {evp : Evp} (inverts : evp.Inverts) {serverKey : Key}
    {nonce : Option Nonce} {tokenCap : Nat} {token : Bytes}
    (made : retryTokenCreate evp serverKey clientAddr originalDcid createdUs nonce tokenCap =
      .ok token) (bounded : createdUs.toNat + 10 * 1000000 < 2 ^ 64) :
    retryTokenValidate evp serverKey otherAddr otherDcid token nowUs = .ok ↔
      clientAddr.raw = otherAddr.raw ∧ originalDcid = otherDcid ∧
        nowUs.toNat ≤ createdUs.toNat + 10 * 1000000 := by
  obtain ⟨drawn, out, rfl, sealed⟩ := retryTokenCreate_sealed made
  obtain ⟨opened, long⟩ := aeadDecrypt_front inverts sealed
  refine Iff.trans ?_ (checkRetryToken_plaintext bounded)
  unfold retryTokenValidate
  rw [if_neg (by rw [long, retryTokenPlaintext_length]; omega), opened]
  simp

/-- A token is good up to its last microsecond, and for no other identifier. -/
theorem retryTokenValidate_last :
    ∃ token, retryTokenCreate plainEvp (Vector.replicate 32 7) Addr.zero ⟨[1, 2], by decide⟩ 5
        (some (Vector.replicate 12 1)) 128 = .ok token ∧
      retryTokenValidate plainEvp (Vector.replicate 32 7) Addr.zero ⟨[1, 2], by decide⟩ token
        10000005 = .ok ∧
      retryTokenValidate plainEvp (Vector.replicate 32 7) Addr.zero ⟨[1, 2], by decide⟩ token
        10000006 ≠ .ok ∧
      retryTokenValidate plainEvp (Vector.replicate 32 7) Addr.zero ⟨[1, 3], by decide⟩ token 6 ≠
        .ok := by
  obtain ⟨token, made⟩ : ∃ token, retryTokenCreate plainEvp (Vector.replicate 32 7) Addr.zero
      ⟨[1, 2], by decide⟩ 5 (some (Vector.replicate 12 1)) 128 = .ok token := ⟨_, rfl⟩
  refine ⟨token, made, ?_, ?_, ?_⟩
  · exact (retryTokenValidate_iff plainEvp_inverts made (by decide)).mpr ⟨rfl, rfl, by decide⟩
  · exact fun good => absurd ((retryTokenValidate_iff plainEvp_inverts made (by decide)).mp good).2.2
      (by decide)
  · exact fun good => absurd ((retryTokenValidate_iff plainEvp_inverts made (by decide)).mp good).2.1
      (by decide)

end RetryToken

section SessionTicket

variable {resumptionSecret : Key} {algo : AeadAlgo} {transportParams : Bytes}
  {createdUs nowUs : UInt64}

theorem ticketPlaintext_length :
    (ticketPlaintext resumptionSecret algo transportParams createdUs).length =
      ticketFixedLen + transportParams.length := by
  simp [ticketPlaintext, timestampBytes_length, ticketFixedLen]
  omega

theorem readBigEndian_tpLen {tpLen : Nat} (short : tpLen ≤ 255) :
    (readBigEndian [UInt8.ofNat (tpLen >>> 8), UInt8.ofNat (tpLen &&& 0xFF)]).toNat = tpLen := by
  have high : tpLen >>> 8 = 0 := by rw [Nat.shiftRight_eq_div_pow]; omega
  have low : tpLen &&& 0xFF = tpLen := by
    rw [Nat.and_two_pow_sub_one_eq_mod tpLen 8]
    omega
  rw [high, low]
  have octet : (UInt8.ofNat tpLen).toNat = tpLen := by
    rw [UInt8.toNat_ofNat']
    omega
  have joined := toNat_shift_join (show (UInt64.toNat 0) < 2 ^ 56 by decide) (UInt8.ofNat tpLen)
  rw [octet] at joined
  exact joined.trans (by simp)

/-- The plaintext of a ticket gives back what it was made of, until it is too old. -/
theorem parseTicket_plaintext (short : transportParams.length ≤ 255) {tpCap : Nat}
    (room : transportParams.length ≤ tpCap) (bounded : createdUs.toNat + 3600 * 1000000 < 2 ^ 64) :
    parseTicket (ticketPlaintext resumptionSecret algo transportParams createdUs) nowUs tpCap =
      if createdUs.toNat + 3600 * 1000000 < nowUs.toNat then none
      else some ⟨resumptionSecret, algo, transportParams.length, transportParams⟩ := by
  -- Every part of the plaintext is found where the parser looks for it.
  have time := timestampBytes_length createdUs
  have long := @ticketPlaintext_length resumptionSecret algo transportParams createdUs
  have timeAt : ((ticketPlaintext resumptionSecret algo transportParams createdUs).drop 1).take 8 =
      timestampBytes createdUs := by
    simp only [ticketPlaintext, List.append_assoc]
    exact slice_eq rfl time
  have lifetimeAt :
      ((ticketPlaintext resumptionSecret algo transportParams createdUs).drop 9).take 4 =
        [0, 0, 14, 16] := by
    simp only [ticketPlaintext, List.append_assoc]
    rw [← List.append_assoc]
    exact slice_eq (by simp [time]) rfl
  have lifetime : readBigEndian [0, 0, 14, 16] * 1000000 = 3600000000 := by decide
  have hour : UInt64.toNat 3600000000 = 3600 * 1000000 := rfl
  have algoAt : (ticketPlaintext resumptionSecret algo transportParams createdUs).getD 13 0 =
      algo.toByte := by
    simp only [ticketPlaintext, List.append_assoc]
    rw [← List.append_assoc, ← List.append_assoc, List.getD_eq_getElem?_getD,
      List.getElem?_append_right (by simp [time])]
    simp [time]
  have secretAt :
      toArray 32 ((ticketPlaintext resumptionSecret algo transportParams createdUs).drop 14) =
        resumptionSecret := by
    simp only [ticketPlaintext, List.append_assoc]
    rw [← List.append_assoc, ← List.append_assoc, ← List.append_assoc,
      List.drop_left' (by simp [time]), toArray_append]
  have lenAt : ((ticketPlaintext resumptionSecret algo transportParams createdUs).drop 46).take 2 =
      [UInt8.ofNat (transportParams.length >>> 8), UInt8.ofNat (transportParams.length &&& 0xFF)] := by
    simp only [ticketPlaintext, List.append_assoc]
    rw [← List.append_assoc, ← List.append_assoc, ← List.append_assoc, ← List.append_assoc]
    exact slice_eq (by simp [time]) rfl
  have paramsAt : (ticketPlaintext resumptionSecret algo transportParams createdUs).drop 48 =
      transportParams :=
    List.drop_left' (by simp [time])
  unfold parseTicket
  rw [if_neg (by omega), if_neg (by simp [ticketPlaintext])]
  simp only [timeAt, readBigEndian_timestampBytes, lifetimeAt, lifetime, algoAt,
    AeadAlgo.ofByte_toByte, secretAt, lenAt, readBigEndian_tpLen short, paramsAt,
    @lt_add_iff createdUs nowUs 3600000000 bounded, hour]
  by_cases late : createdUs.toNat + 3600 * 1000000 < nowUs.toNat
  · rw [if_pos late, if_pos late]
  · rw [if_neg late, if_neg late, if_neg (by rw [long]; unfold ticketFixedLen; omega), if_pos room,
      List.take_of_length_le (Nat.le_refl _)]

theorem sessionTicketCreate_sealed {evp : Evp} {serverKey : Key} {nonce : Option Nonce}
    {ticketCap : Nat} {ticket : Bytes}
    (made : sessionTicketCreate evp serverKey resumptionSecret algo transportParams createdUs nonce
      ticketCap = .ok ticket) :
    transportParams.length ≤ 255 ∧ ∃ drawn sealed, ticket = Vector.toList drawn ++ sealed ∧
      aeadEncrypt evp .aes256Gcm serverKey drawn []
        (ticketPlaintext resumptionSecret algo transportParams createdUs) = some sealed := by
  unfold sessionTicketCreate at made
  simp only at made
  split at made
  · cases made
  · rename_i short
    split at made
    · cases made
    · split at made
      · cases made
      · split at made
        · cases made
        · split at made
          · cases made
          · rename_i sealed
            cases made
            exact ⟨not_lt.mp short, _, _, rfl, sealed⟩

/-- A ticket opens to what was put into it for an hour and is refused afterwards, and one that was
never issued under the key is refused at any time. -/
theorem sessionTicketValidate_hour {evp : Evp} (inverts : evp.Inverts) {serverKey : Key}
    {issued : Bytes → Prop}
    (genuine : ∀ nonce sealed pt, aeadDecrypt evp .aes256Gcm serverKey nonce [] sealed = some pt →
      issued (nonce.toList ++ sealed)) :
    (∀ resumptionSecret algo transportParams createdUs nonce ticketCap ticket,
      sessionTicketCreate evp serverKey resumptionSecret algo transportParams createdUs nonce
        ticketCap = .ok ticket →
      createdUs.toNat + 3600 * 1000000 < 2 ^ 64 →
      ∀ nowUs tpCap, transportParams.length ≤ tpCap →
        sessionTicketValidate evp serverKey ticket nowUs tpCap =
          if nowUs.toNat ≤ createdUs.toNat + 3600 * 1000000 then
            .ok ⟨resumptionSecret, algo, transportParams.length, transportParams⟩
          else .error .tokenInvalid) ∧
    ∀ ticket nowUs tpCap, ¬ issued ticket →
      sessionTicketValidate evp serverKey ticket nowUs tpCap = .error .tokenInvalid := by
  constructor
  · intro resumptionSecret algo transportParams createdUs nonce ticketCap ticket made bounded nowUs
      tpCap room
    obtain ⟨short, drawn, out, rfl, sealed⟩ := sessionTicketCreate_sealed made
    obtain ⟨opened, long⟩ := aeadDecrypt_front inverts sealed
    unfold sessionTicketValidate
    rw [if_neg (by rw [long, ticketPlaintext_length]; omega), opened]
    simp only [parseTicket_plaintext short room bounded]
    by_cases late : createdUs.toNat + 3600 * 1000000 < nowUs.toNat
    · rw [if_pos late, if_neg (not_le.mpr late)]
    · rw [if_neg late, if_pos (not_lt.mp late)]
  · intro ticket nowUs tpCap foreign
    unfold sessionTicketValidate
    by_cases long : ticket.length < 12 + ticketFixedLen + aeadTagLen
    · rw [if_pos long]
    · rw [if_neg long]
      -- The nonce the cipher is given and the rest are the ticket itself.
      have whole : (toArray 12 ticket).toList ++ ticket.drop 12 = ticket := by
        have front : ticket.take 12 = (toArray 12 ticket).toList := by
          apply List.ext_getElem
          · simp
            omega
          · intro i inside _
            have within : i < ticket.length := by
              rw [List.length_take] at inside
              omega
            simp [toArray, within]
        rw [← front, List.take_append_drop]
      cases opened : aeadDecrypt evp .aes256Gcm serverKey (toArray 12 ticket) [] (ticket.drop 12) with
      | none => rfl
      | some pt =>
        have made := genuine _ _ _ opened
        rw [whole] at made
        exact absurd made foreign

theorem append_of_splitTag {sealed ciphertext : Bytes} {tag : Tag}
    (split : splitTag sealed = some (ciphertext, tag)) : sealed = ciphertext ++ tag.toList := by
  unfold splitTag at split
  split at split
  · cases split
    simp [Vector.toList]
  · cases split

/-- A ticket opens in its last microsecond and not in the next, and a string of ones never does. -/
theorem sessionTicketValidate_last :
    ∃ ticket, sessionTicketCreate plainEvp (Vector.replicate 32 7) (Vector.replicate 32 9)
        .chacha20Poly1305 [1, 2, 3] 5 (some (Vector.replicate 12 1)) 128 = .ok ticket ∧
      sessionTicketValidate plainEvp (Vector.replicate 32 7) ticket 3600000005 256 =
        .ok ⟨Vector.replicate 32 9, .chacha20Poly1305, 3, [1, 2, 3]⟩ ∧
      sessionTicketValidate plainEvp (Vector.replicate 32 7) ticket 3600000006 256 =
        .error .tokenInvalid ∧
      sessionTicketValidate plainEvp (Vector.replicate 32 7) (List.replicate 76 1) 5 256 =
        .error .tokenInvalid := by
  -- What opens under the simple primitives was sealed by them.
  obtain ⟨hour, foreign⟩ := @sessionTicketValidate_hour plainEvp plainEvp_inverts
    (Vector.replicate 32 7)
    (fun ticket => ∃ nonce : Nonce, ∃ pt sealed,
      aeadEncrypt plainEvp .aes256Gcm (Vector.replicate 32 7) nonce [] pt = some sealed ∧
        ticket = nonce.toList ++ sealed) (by
      intro nonce sealed pt opened
      refine ⟨nonce, pt, sealed, ?_, rfl⟩
      unfold aeadDecrypt at opened
      cases split : splitTag sealed with
      | none => simp [split] at opened
      | some parts =>
        obtain ⟨ciphertext, tag⟩ := parts
        rw [split] at opened
        simp only [plainEvp, getCipher, Option.bind_eq_bind, Option.bind_some, if_true] at opened
        split at opened
        · rename_i zeros
          cases opened
          rw [append_of_splitTag split, zeros]
          rfl
        · cases opened)
  obtain ⟨ticket, made⟩ : ∃ ticket, sessionTicketCreate plainEvp (Vector.replicate 32 7)
      (Vector.replicate 32 9) .chacha20Poly1305 [1, 2, 3] 5 (some (Vector.replicate 12 1)) 128 =
        .ok ticket := ⟨_, rfl⟩
  refine ⟨ticket, made, ?_, ?_, ?_⟩
  · exact hour _ _ _ _ _ _ _ made (by decide) 3600000005 256 (by decide)
  · exact hour _ _ _ _ _ _ _ made (by decide) 3600000006 256 (by decide)
  · refine foreign _ _ _ ?_
    rintro ⟨nonce, pt, sealed, encrypted, same⟩
    cases encrypted
    -- The last octet of a tag is zero.
    have last := congrArg List.getLast? same
    simp at last

end SessionTicket

/-- An opening of sealed octets into a buffer. -/
structure DecryptCall where
  nonce : Nonce
  sealed : Bytes
  capacity : Nat

/-- The plaintext, which is written before its tag is checked, fits the buffer. -/
def DecryptCall.Fits (call : DecryptCall) : Prop := call.sealed.length - aeadTagLen ≤ call.capacity

/-- The opening that a token or ticket is put to if it is at least of some length. -/
def decryptCall (least capacity : Nat) (token : Bytes) : Option DecryptCall :=
  if token.length < least then none else some ⟨toArray 12 token, token.drop 12, capacity⟩

/-- The opening of a retry token. -/
def retryTokenCall : Bytes → Option DecryptCall :=
  decryptCall (12 + retryTokenFixedLen + aeadTagLen) 128

/-- The opening of a session ticket. -/
def sessionTicketCall : Bytes → Option DecryptCall :=
  decryptCall (12 + ticketFixedLen + aeadTagLen) ticketMaxPlaintext

/-- The plaintext of an opening under the server's key. -/
def DecryptCall.run (evp : Evp) (serverKey : Key) (call : DecryptCall) : Option Bytes :=
  aeadDecrypt evp .aes256Gcm serverKey call.nonce [] call.sealed

/-- The validators open what these calls have them open, once, and refuse where there is none. -/
theorem validate_calls (evp : Evp) (serverKey : Key) (clientAddr : Addr) (originalDcid : ConnId)
    (token : Bytes) (nowUs : UInt64) (tpCap : Nat) :
    retryTokenValidate evp serverKey clientAddr originalDcid token nowUs =
        ((retryTokenCall token).bind (·.run evp serverKey)).elim .tokenInvalid (fun pt =>
          if checkRetryToken pt clientAddr originalDcid nowUs then .ok else .tokenInvalid) ∧
      sessionTicketValidate evp serverKey token nowUs tpCap =
        ((sessionTicketCall token).bind (·.run evp serverKey)).elim (.error .tokenInvalid) (fun pt =>
          (parseTicket pt nowUs tpCap).elim (.error .tokenInvalid) .ok) := by
  unfold retryTokenValidate sessionTicketValidate retryTokenCall sessionTicketCall decryptCall
  constructor
  · split
    · rfl
    · simp only [Option.bind_some, DecryptCall.run]
      cases aeadDecrypt evp .aes256Gcm serverKey (toArray 12 token) [] (token.drop 12) <;> rfl
  · split
    · rfl
    · simp only [Option.bind_some, DecryptCall.run]
      cases aeadDecrypt evp .aes256Gcm serverKey (toArray 12 token) [] (token.drop 12) with
      | none => rfl
      | some pt =>
        simp only [Option.elim_some]
        cases parseTicket pt nowUs tpCap <;> rfl

theorem decryptCall_fits_iff {least capacity : Nat} (ample : least ≤ 12 + aeadTagLen + capacity)
    (token : Bytes) :
    (∀ call ∈ decryptCall least capacity token, call.Fits) ↔
      token.length ≤ 12 + aeadTagLen + capacity := by
  unfold decryptCall
  split
  · exact iff_of_true nofun (by omega)
  · simp only [Option.mem_def, Option.some.injEq, forall_eq', DecryptCall.Fits, List.length_drop]
    omega

/-- What a validator opens fits its buffer exactly when a token has at most 156 octets and a ticket
at most 540. -/
theorem decryptCall_fits (token : Bytes) :
    ((∀ call ∈ retryTokenCall token, call.Fits) ↔ token.length ≤ 156) ∧
    ((∀ call ∈ sessionTicketCall token, call.Fits) ↔ token.length ≤ 540) :=
  ⟨decryptCall_fits_iff (by decide) token, decryptCall_fits_iff (by decide) token⟩

/-- The header of a client's first packet yields a token of 157 octets, which is opened into 128. -/
theorem decryptCall_overflows :
    (pktDecodeLongHeader ([0xC0, 0x4E, 0x58, 0x50, 0x01, 0x00, 0x00, 0x40, 0x9D] ++
      List.replicate 157 0 ++ [0x01, 0x00])).map
        (fun header => (retryTokenCall header.token).map fun call =>
          (call.sealed.length - aeadTagLen, call.capacity)) = some (some (129, 128)) := by
  decide +kernel

end Nxp
