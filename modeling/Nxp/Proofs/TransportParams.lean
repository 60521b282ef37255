import Nxp.Core.HandshakeLaws

/-! Announced limits reach the peer, and what the reader of limits does with any other octets. -/

namespace Nxp

variable {paramId : UInt8} {value : Bytes}

/-- A run of octets in a buffer, unless a part of it lies outside. -/
def loadOctets (buf : Bytes) (pos count : Nat) : Option Bytes :=
  if pos + count ≤ buf.length then some ((buf.drop pos).take count) else none

/-- The reader of limits by position, each load checked: there is no result when a load misses the
buffer or the turns run out. -/
def decodeTpAt (buf : Bytes) : Nat → Nat → TransportParams → Option (Bool × TransportParams)
  | turns, pos, tp =>
    if pos < buf.length then
      match turns with
      | 0 => none
      | turns + 1 =>
        if pos + 2 > buf.length then some (false, tp)
        else do
          let paramId ← buf[pos]?
          let paramLen ← buf[pos + 1]?
          if pos + 2 + paramLen.toNat > buf.length then some (false, tp)
          else
            -- The varint reader is handed the value alone and cannot look behind it.
            let value ← loadOctets buf (pos + 2) paramLen.toNat
            match varintDecode value with
            | none => some (false, tp)
            | some (val, _) =>
              decodeTpAt buf turns (pos + 2 + paramLen.toNat) (setTp tp paramId val)
    else some (true, tp)

/-- From any position on, the reader stays inside the buffer and ends within as many turns as octets
are left. -/
theorem decodeTpAt_eq (buf : Bytes) (turns pos : Nat) (tp : TransportParams)
    (enough : buf.length ≤ pos + turns) :
    decodeTpAt buf turns pos tp = some (decodeTpLoop turns (buf.drop pos) tp) := by
  induction turns generalizing pos tp with
  | zero =>
    unfold decodeTpAt decodeTpLoop
    rw [if_neg (by omega)]
  | succ turns ih =>
    unfold decodeTpAt
    by_cases inside : pos < buf.length
    · rw [if_pos inside]
      simp only
      by_cases cut : pos + 2 > buf.length
      · -- One octet is left, which is no parameter.
        rw [if_pos cut, List.drop_eq_getElem_cons inside, List.drop_eq_nil_of_le (by omega)]
        rfl
      · have second : pos + 1 < buf.length := by omega
        rw [if_neg cut, List.drop_eq_getElem_cons inside, List.drop_eq_getElem_cons second,
          List.getElem?_eq_getElem inside, List.getElem?_eq_getElem second]
        simp only [Option.bind_eq_bind, Option.bind_some, decodeTpLoop, List.length_drop]
        by_cases long : pos + 2 + buf[pos + 1].toNat > buf.length
        · rw [if_pos long, if_pos (by omega)]
        · have loaded : loadOctets buf (pos + 2) buf[pos + 1].toNat =
              some ((buf.drop (pos + 2)).take buf[pos + 1].toNat) := if_pos (by omega)
          rw [if_neg long, if_neg (by omega), loaded, Option.bind_some]
          cases varintDecode ((buf.drop (pos + 2)).take buf[pos + 1].toNat) with
          | none => rfl
          | some read =>
            -- The next turn starts behind the value, whose length has been checked.
            simp only
            rw [ih _ _ (by omega), List.drop_drop]
    · rw [if_neg inside, List.drop_eq_nil_of_le (by omega)]
      rfl

/-- An identifier that no limit has. -/
def UnknownTp (paramId : UInt8) : Prop := paramId ∉ [0x01, 0x02, 0x03, 0x04, 0x05, 0x06, 0x0A]

theorem setTp_unknown (unknown : UnknownTp paramId) (tp : TransportParams)
    (val : UInt64) : setTp tp paramId val = tp := by
  unfold UnknownTp at unknown
  unfold setTp
  split <;> simp_all

/-- One turn on an unknown parameter goes on behind it if its value starts with a varint, and gives
up if not. -/
theorem decodeTpLoop_unknown (unknown : UnknownTp paramId)
    (short : value.length < 256) (turns : Nat) (rest : Bytes) (tp : TransportParams) :
    decodeTpLoop (turns + 1) (paramId :: UInt8.ofNat value.length :: (value ++ rest)) tp =
      if (varintDecode value).isSome then decodeTpLoop turns rest tp else (false, tp) := by
  have len : (UInt8.ofNat value.length).toNat = value.length := UInt8.toNat_ofNat_of_lt short
  simp only [decodeTpLoop, len, List.length_append]
  rw [if_neg (by omega), List.take_left' rfl, List.drop_left' rfl]
  cases varintDecode value with
  | none => rfl
  | some read => simp [setTp_unknown unknown]

theorem decodeTpLoop_skips_iff (unknown : UnknownTp paramId) (short : value.length < 256) :
    (∀ turns rest tp,
      decodeTpLoop (turns + 1) (paramId :: UInt8.ofNat value.length :: (value ++ rest)) tp =
        decodeTpLoop turns rest tp) ↔ (varintDecode value).isSome := by
  constructor
  · intro skips
    -- With nothing behind the parameter, giving up differs from going on.
    have last := skips 0 [] TransportParams.zero
    rw [decodeTpLoop_unknown unknown short] at last
    by_contra refused
    rw [if_neg refused] at last
    exact absurd (congrArg Prod.fst last) (by decide)
  · intro complete turns rest tp
    rw [decodeTpLoop_unknown unknown short, if_pos complete]

theorem derived_peerParams {evp : Evp} {hs keyed : Handshake} {ok : Bool}
    (derived : deriveHandshakeAndAppKeys evp hs = (ok, keyed)) :
    keyed.peerParams = hs.peerParams := by
  have only := deriveHandshakeAndAppKeys_only evp hs
  rw [derived] at only
  exact (congrArg Handshake.peerParams only :)

theorem acceptServerHello_peerParams (evp : Evp) (hs : Handshake) :
    (acceptServerHello evp hs).2.peerParams = hs.peerParams := by
  unfold acceptServerHello
  cases exchanged : exchangeKeys evp hs with
  | none => rfl
  | some agreed =>
    obtain ⟨secret, -, rfl⟩ := Option.map_eq_some_iff.mp exchanged
    simp only
    split <;> rename_i derived <;> exact (derived_peerParams derived :)

theorem answerClientHello_peerParams (evp : Evp) (hs : Handshake) :
    (answerClientHello evp hs).2.peerParams = hs.peerParams := by
  unfold answerClientHello
  cases exchanged : exchangeKeys evp hs with
  | none => rfl
  | some agreed =>
    obtain ⟨secret, -, rfl⟩ := Option.map_eq_some_iff.mp exchanged
    simp only
    split
    · rfl
    · split
      · rfl
      · rename_i longer appended
        have same : longer.peerParams = hs.peerParams := by rw [appendTranscript_eq appended]; rfl
        split <;> rename_i derived <;> exact (derived_peerParams derived).trans same

/-- Whatever follows the reading of a hello's limits leaves them alone. -/
theorem learnt_peerParams {hs : Handshake} {pubkey : Key} {algo : AeadAlgo}
    {tp : TransportParams} {msg : Bytes} {next : Handshake → ErrorCode × Handshake}
    (keeps : ∀ hs, (next hs).2.peerParams = hs.peerParams) :
    ((appendTranscript (learnHello hs pubkey algo (some tp)) msg).elim
      (.internal, learnHello hs pubkey algo (some tp)) next).2.peerParams = tp := by
  cases appended : appendTranscript (learnHello hs pubkey algo (some tp)) msg with
  | none => rfl
  | some longer =>
    rw [Option.elim_some, keeps, appendTranscript_eq appended]
    rfl

/-- Limits whose three wide fields fit a varint and whose idle time is in whole milliseconds are the
peer's once it has taken either hello; reading any octets ends without a load outside them; and an
unknown parameter is skipped, at whatever point of the reading, exactly if its value starts with a
complete varint. -/
theorem transport_params_carried (evp : Evp) (tp : TransportParams)
    (data : tp.initialMaxData.toNat < 2 ^ 62) (streamData : tp.initialMaxStreamData.toNat < 2 ^ 62)
    (early : tp.maxEarlyData.toNat < 2 ^ 62) (whole : tp.idleTimeoutUs % 1000 = 0) :
    (∀ hs client : Handshake, client.localParams = tp →
      (processClientHello evp hs (encodeClientHello client hsBufSize)).2.peerParams = tp) ∧
    (∀ hs server : Handshake, server.localParams = tp →
      (processServerHello evp hs (encodeServerHello server hsBufSize)).2.peerParams = tp) ∧
    (∀ buf : Bytes,
      decodeTpAt buf buf.length 0 TransportParams.zero = some (decodeTransportParams buf)) ∧
    ∀ (paramId : UInt8) (value : Bytes), UnknownTp paramId → value.length < 256 →
      ((∀ turns rest tp,
        decodeTpLoop (turns + 1) (paramId :: UInt8.ofNat value.length :: (value ++ rest)) tp =
          decodeTpLoop turns rest tp) ↔ (varintDecode value).isSome) := by
  -- Whole milliseconds survive the division that the encoder makes.
  have back : tp.idleTimeoutUs / 1000 * 1000 = tp.idleTimeoutUs := by
    apply UInt64.toNat_inj.mp
    have bounded := tp.idleTimeoutUs.toNat_lt
    have rest := congrArg UInt64.toNat whole
    rw [UInt64.toNat_mod] at rest
    rw [UInt64.toNat_mul, UInt64.toNat_div]
    simp only [show (1000 : UInt64).toNat = 1000 from rfl,
      show (0 : UInt64).toNat = 0 from rfl] at rest ⊢
    omega
  have read {cap : Nat} (room : 70 ≤ cap) : readParams tp cap = some tp := by
    rw [readParams_some data streamData early room, back]
  refine ⟨?_, ?_, ?_, ?_⟩
  · rintro hs client rfl
    rw [processClientHello_reads, read (by decide)]
    exact learnt_peerParams (answerClientHello_peerParams evp)
  · rintro hs server rfl
    -- The limits take at least one octet, so the hello is not too short.
    have long : ¬ (encodeServerHello server hsBufSize).length < 35 := by
      have written := @read serverParamsCap (by decide)
      unfold readParams at written
      split at written
      · cases written
      · rename_i nonempty
        rw [List.isEmpty_iff_length_eq_zero] at nonempty
        rw [encodeServerHello_eq]
        simp only [List.length_cons, List.length_append, Vector.length_toList, List.length_nil]
        omega
    rw [processServerHello_reads, if_neg long, read (by decide)]
    exact learnt_peerParams (acceptServerHello_peerParams evp)
  · intro buf
    rw [decodeTpAt_eq buf buf.length 0 _ (by omega)]
    rfl
  · intro paramId value unknown short
    exact decodeTpLoop_skips_iff unknown short

/-- Limits that take a varint of each length. -/
def widestParams : TransportParams :=
  ⟨63, 16383, 1073741823, 4294967295, 30000000, 4611686018427387903, 2⟩

/-- A server takes them from a client's hello, and skips a reserved parameter with a small value. -/
theorem transport_params_carried_widest :
    (processClientHello plainEvp (handshakeCreate plainEvp true (Vector.replicate 32 1))
      (encodeClientHello { handshakeCreate plainEvp false (Vector.replicate 32 2) with
        localParams := widestParams } hsBufSize)).2.peerParams = widestParams ∧
      ∀ turns rest tp,
        decodeTpLoop (turns + 1) (0x0F :: 0x01 :: ([0x05] ++ rest)) tp = decodeTpLoop turns rest tp := by
  have carried := transport_params_carried plainEvp widestParams (by decide) (by decide) (by decide)
    (by decide)
  have unknown : UnknownTp 0x0F := by unfold UnknownTp; decide
  exact ⟨carried.1 _ _ rfl, (carried.2.2.2 0x0F [0x05] unknown (by decide)).mpr (by decide)⟩

/-- An unknown parameter without a value ends the reading. -/
theorem transport_params_unskipped :
    UnknownTp 0x0F ∧ (decodeTransportParams [0x0F, 0x00]).1 = false ∧
      (decodeTransportParams [0x01, 0x01, 0x07]).1 = true ∧
      (decodeTransportParams [0x0F, 0x00, 0x01, 0x01, 0x07]).1 = false := by
  exact ⟨by unfold UnknownTp; decide, by decide, by decide, by decide⟩

end Nxp
