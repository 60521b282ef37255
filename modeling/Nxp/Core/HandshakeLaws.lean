import Nxp.Core.Handshake
import Nxp.Crypto.KeyLaws
import Nxp.Util.VarintLaws

/-! The two hello messages are read back as they were written, and keys follow from them. -/

namespace Nxp

variable (evp : Evp) (tp : TransportParams) {paramId : UInt8} {value : UInt64}
  {params : List (UInt8 × UInt64)} {out : Bytes}

variable {cap : Nat} {bytes msg : Bytes} {hs hs' : Handshake}

/-- An encoded parameter is two octets longer than its value, which is never empty. -/
theorem encodeTpVarint_spec (encoded : encodeTpVarint paramId value cap = some bytes) :
    ∃ valBuf, varintEncode value 8 = some valBuf ∧ valBuf.length ≤ 8 ∧
      bytes = paramId :: UInt8.ofNat valBuf.length :: valBuf ∧ bytes.length ≤ cap := by
  unfold encodeTpVarint at encoded
  cases written : varintEncode value 8 with
  | none => simp [written] at encoded
  | some valBuf =>
    simp only [written, Option.bind_eq_bind, Option.bind_some] at encoded
    split at encoded
    · exact absurd encoded (by simp)
    · rename_i fits
      simp only [Option.some.injEq] at encoded
      subst encoded
      refine ⟨valBuf, rfl, (varintEncode_length written).2, rfl, ?_⟩
      simp only [List.length_cons]
      omega

theorem decodeTpLoop_encode (encoded : encodeTpVarint paramId value cap = some bytes) (fuel : Nat)
    (rest : Bytes) (tp : TransportParams) :
    decodeTpLoop (fuel + 1) (bytes ++ rest) tp = decodeTpLoop fuel rest (setTp tp paramId value) := by
  obtain ⟨valBuf, written, short, rfl, -⟩ := encodeTpVarint_spec encoded
  have len : (UInt8.ofNat valBuf.length).toNat = valBuf.length :=
    UInt8.toNat_ofNat_of_lt (Nat.lt_of_le_of_lt short (by decide))
  have read : varintDecode valBuf = some (value, []) := by
    simpa using varintDecode_encode written []
  simp only [List.cons_append, decodeTpLoop, len, List.length_append]
  rw [if_neg (by omega), List.take_left' rfl, read, List.drop_left' rfl]

/-- Parameters written one after the other stay within the room and are read back one after the
other. -/
theorem decodeTpLoop_fields (written : params.foldlM (appendTp cap) out = some bytes) :
    (out.length ≤ cap → bytes.length ≤ cap) ∧ ∃ tail, bytes = out ++ tail ∧
      ∀ fuel tp, tail.length ≤ fuel →
        decodeTpLoop fuel tail tp = (true, params.foldl (fun tp p => setTp tp p.1 p.2) tp) := by
  induction params generalizing out with
  | nil =>
    simp only [List.foldlM_nil, Option.pure_def, Option.some.injEq] at written
    refine ⟨(written ▸ ·), [], by simp [written], fun fuel tp _ => ?_⟩
    -- Nothing is left to read, with or without fuel.
    cases fuel <;> rfl
  | cons param rest ih =>
    rw [List.foldlM_cons] at written
    cases first : encodeTpVarint param.1 param.2 (cap - out.length) with
    | none => simp [appendTp, first] at written
    | some piece =>
      simp only [appendTp, first, Option.map_some, Option.bind_eq_bind, Option.bind_some] at written
      obtain ⟨within, tail, rfl, reads⟩ := ih written
      obtain ⟨valBuf, -, -, shape, fits⟩ := encodeTpVarint_spec first
      refine ⟨fun room => within (by rw [List.length_append]; omega), piece ++ tail, by simp,
        fun fuel tp enough => ?_⟩
      -- A parameter takes at least two octets, so one unit of fuel is there for it.
      rw [List.length_append, shape] at enough
      simp only [List.length_cons] at enough
      cases fuel with
      | zero => omega
      | succ fuel =>
        rw [decodeTpLoop_encode first, reads fuel _ (by omega)]
        rfl

theorem tpFields_read :
    (tpFields tp).foldl (fun acc p => setTp acc p.1 p.2) TransportParams.zero =
      { tp with idleTimeoutUs := tp.idleTimeoutUs / 1000 * 1000 } := by
  -- The last two limits are announced only when they are not zero already.
  have noEarly : ¬ tp.maxEarlyData > 0 → 0 = tp.maxEarlyData := by grind
  have noLimit : ¬ tp.activeCidLimit > 0 → 0 = tp.activeCidLimit := by grind
  unfold tpFields
  by_cases early : tp.maxEarlyData > 0 <;> by_cases cids : tp.activeCidLimit > 0
  · simp [early, cids, setTp, TransportParams.zero]
  · simp [early, setTp, TransportParams.zero, ← noLimit cids]
  · simp [cids, setTp, TransportParams.zero, ← noEarly early]
  · simp [setTp, TransportParams.zero, ← noEarly early, ← noLimit cids]

/-- What a peer reads from announced limits: nothing, or all of them. -/
def readParams (tp : TransportParams) (cap : Nat) : Option TransportParams :=
  if (encodeTransportParams tp cap).isEmpty then none
  else some { tp with idleTimeoutUs := tp.idleTimeoutUs / 1000 * 1000 }

theorem encodeTpVarint_some (paramId : UInt8) {value : UInt64} {cap : Nat}
    (small : value.toNat < 2 ^ 62) (room : 10 ≤ cap) :
    ∃ bytes, encodeTpVarint paramId value cap = some bytes ∧ bytes.length ≤ 10 := by
  have bounded : value ≤ varintMax := by
    rw [UInt64.le_iff_toNat_le]
    have largest : varintMax.toNat = 2 ^ 62 - 1 := by decide
    omega
  obtain ⟨valBuf, written⟩ : ∃ valBuf, varintEncode value 8 = some valBuf := by
    unfold varintEncode
    split_ifs <;> simp_all
  have short := (varintEncode_length written).2
  refine ⟨paramId :: UInt8.ofNat valBuf.length :: valBuf, ?_, by simp only [List.length_cons]; omega⟩
  unfold encodeTpVarint
  rw [written]
  simp only [Option.bind_eq_bind, Option.bind_some]
  rw [if_neg (by omega)]

theorem appendTp_some {cap : Nat} (params : List (UInt8 × UInt64)) {out : Bytes}
    (small : ∀ param ∈ params, param.2.toNat < 2 ^ 62)
    (room : out.length + 10 * params.length ≤ cap) :
    ∃ bytes, params.foldlM (appendTp cap) out = some bytes ∧
      out.length + params.length ≤ bytes.length := by
  -- Each parameter takes at most ten octets and at least one.
  induction params generalizing out with
  | nil => exact ⟨out, rfl, Nat.le_refl _⟩
  | cons param rest ih =>
    rw [List.length_cons] at room
    obtain ⟨piece, encoded, short⟩ := @encodeTpVarint_some param.1 param.2 (cap - out.length)
      (small param List.mem_cons_self) (by omega)
    obtain ⟨valBuf, -, -, shape, -⟩ := encodeTpVarint_spec encoded
    obtain ⟨bytes, appended, longer⟩ := @ih (out ++ piece)
      (fun other member => small other (List.mem_cons_of_mem _ member))
      (by rw [List.length_append]; omega)
    refine ⟨bytes, ?_, ?_⟩
    · rw [List.foldlM_cons]
      simp only [appendTp, encoded, Option.map_some, Option.bind_eq_bind, Option.bind_some]
      exact appended
    · have written : 1 ≤ piece.length := by rw [shape]; simp
      rw [List.length_append] at longer
      rw [List.length_cons]
      omega

/-- Limits that varints can carry are all read back, the idle time in whole milliseconds. -/
theorem readParams_some {tp : TransportParams} (data : tp.initialMaxData.toNat < 2 ^ 62)
    (streamData : tp.initialMaxStreamData.toNat < 2 ^ 62) (early : tp.maxEarlyData.toNat < 2 ^ 62)
    (room : 70 ≤ cap) :
    readParams tp cap = some { tp with idleTimeoutUs := tp.idleTimeoutUs / 1000 * 1000 } := by
  have size : 5 ≤ (tpFields tp).length ∧ (tpFields tp).length ≤ 7 := by
    unfold tpFields
    split <;> split <;> simp
  have small : ∀ param ∈ tpFields tp, param.2.toNat < 2 ^ 62 := by
    have narrow (count : UInt32) : count.toUInt64.toNat < 2 ^ 62 := by
      have := count.toNat_lt
      rw [UInt32.toNat_toUInt64]
      omega
    have idle : (tp.idleTimeoutUs / 1000).toNat < 2 ^ 62 := by
      have := tp.idleTimeoutUs.toNat_lt
      rw [UInt64.toNat_div, show (1000 : UInt64).toNat = 1000 from rfl]
      omega
    intro param member
    unfold tpFields at member
    split at member <;> split at member <;>
      simp only [List.cons_append, List.nil_append, List.append_nil,
        List.mem_cons, List.not_mem_nil, or_false] at member <;>
      rcases member with rfl | rfl | rfl | rfl | rfl | rfl | rfl <;>
      first | assumption | exact narrow _
  obtain ⟨bytes, written, long⟩ := @appendTp_some cap (tpFields tp) [] small (by
    rw [List.length_nil]
    omega)
  unfold readParams encodeTransportParams
  rw [written, Option.getD_some, if_neg]
  rw [List.isEmpty_iff_length_eq_zero]
  omega

theorem decodeTransportParams_encode {tp : TransportParams}
    (written : ¬ (encodeTransportParams tp cap).isEmpty) :
    decodeTransportParams (encodeTransportParams tp cap) =
      (true, { tp with idleTimeoutUs := tp.idleTimeoutUs / 1000 * 1000 }) := by
  unfold encodeTransportParams at *
  cases encoded : (tpFields tp).foldlM (appendTp cap) [] with
  | none => simp [encoded] at written
  | some bytes =>
    obtain ⟨-, tail, shape, reads⟩ := decodeTpLoop_fields encoded
    rw [List.nil_append] at shape
    subst shape
    simp only [Option.getD_some, decodeTransportParams]
    rw [reads _ _ (Nat.le_refl _), tpFields_read]

/-- Remember the limits read from a hello, if there were any. -/
def storeParams (hs : Handshake) : Option TransportParams → Handshake
  | none => hs
  | some params => { hs with peerParams := params, hasPeerParams := true }

theorem recvPeerParams_encode (hs : Handshake) (tp : TransportParams) (cap : Nat) :
    recvPeerParams hs (encodeTransportParams tp cap) =
      (true, storeParams hs (readParams tp cap)) := by
  unfold recvPeerParams readParams
  by_cases empty : (encodeTransportParams tp cap).isEmpty
  · rw [if_pos empty, if_pos empty]
    rfl
  · rw [if_neg empty, if_neg empty, decodeTransportParams_encode empty]
    rfl

theorem encodeTransportParams_length (cap : Nat) :
    (encodeTransportParams tp cap).length ≤ cap := by
  unfold encodeTransportParams
  cases encoded : (tpFields tp).foldlM (appendTp cap) [] with
  | none => exact Nat.zero_le _
  | some bytes => exact (decodeTpLoop_fields encoded).1 (Nat.zero_le _)

/-- Room a client's hello leaves for its limits. -/
def clientParamsCap : Nat := hsBufSize - 36

/-- Room a server's hello leaves for its limits. -/
def serverParamsCap : Nat := hsBufSize - 34

/-- What a client's hello is made of. -/
theorem encodeClientHello_eq (hs : Handshake) :
    encodeClientHello hs hsBufSize = 0x01 :: (hs.localPubkey.toList ++
      ([2, 0, 1] ++ encodeTransportParams hs.localParams clientParamsCap)) := by
  simp [encodeClientHello, hsBufSize, clientParamsCap, AeadAlgo.toByte]

/-- What a server's hello is made of. -/
theorem encodeServerHello_eq (hs : Handshake) :
    encodeServerHello hs hsBufSize = 0x02 :: (hs.localPubkey.toList ++
      ([hs.selectedAlgo.toByte] ++ encodeTransportParams hs.localParams serverParamsCap)) := by
  simp [encodeServerHello, hsBufSize, serverParamsCap]

/-- A client's hello fits the buffer it is built in. -/
theorem encodeClientHello_length (hs : Handshake) :
    36 ≤ (encodeClientHello hs hsBufSize).length ∧
      (encodeClientHello hs hsBufSize).length ≤ hsBufSize := by
  have params := encodeTransportParams_length hs.localParams clientParamsCap
  rw [encodeClientHello_eq]
  simp only [List.length_cons, List.length_append, Vector.length_toList, List.length_nil]
  unfold clientParamsCap hsBufSize at *
  omega

/-- A client's hello is queued as it is built. -/
theorem openClient_eq (hs : Handshake) (next : HsState) :
    openClient hs next = (.ok, { queueHello hs (encodeClientHello hs hsBufSize) with
      transcript := encodeClientHello hs hsBufSize, state := next }) := by
  have size := encodeClientHello_length hs
  unfold openClient
  simp only
  rw [if_neg]
  rw [List.isEmpty_iff_length_eq_zero]
  omega

theorem hello_drop (kind : UInt8) (key : Key) (rest : Bytes) (n : Nat) :
    (kind :: (key.toList ++ rest)).drop (33 + n) = rest.drop n := by
  have size : key.toList.length = 32 := by simp
  rw [show 33 + n = 32 + n + 1 by omega, List.drop_succ_cons, List.drop_append,
    List.drop_eq_nil_of_le (by omega), List.nil_append, size, Nat.add_sub_cancel_left]

theorem hello_kind (hs : Handshake) :
    (encodeClientHello hs hsBufSize).headD 0 = 0x01 ∧
      (encodeServerHello hs hsBufSize).headD 0 = 0x02 := by
  rw [encodeClientHello_eq, encodeServerHello_eq]
  exact ⟨rfl, rfl⟩

/-- What a side has learnt from a hello with some key, cipher and limits. -/
def learnHello (hs : Handshake) (pubkey : Key) (algo : AeadAlgo) (read : Option TransportParams) :
    Handshake :=
  storeParams { hs with peerPubkey := pubkey, hasPeerPubkey := true, selectedAlgo := algo } read

/-- Taking a client's hello stores what it says and, if the transcript has room, answers it. -/
theorem processClientHello_reads (hs client : Handshake) :
    processClientHello evp hs (encodeClientHello client hsBufSize) =
      (appendTranscript (learnHello hs client.localPubkey .aes256Gcm
          (readParams client.localParams clientParamsCap))
        (encodeClientHello client hsBufSize)).elim
        (.internal, learnHello hs client.localPubkey .aes256Gcm
          (readParams client.localParams clientParamsCap)) (answerClientHello evp) := by
  have size := encodeClientHello_length client
  have shape := encodeClientHello_eq client
  -- Each field is read from where the encoder put it.
  have pubkey : toArray 32 ((encodeClientHello client hsBufSize).drop 1) = client.localPubkey := by
    rw [shape, List.drop_one, List.tail_cons, toArray_append]
  have count : (encodeClientHello client hsBufSize).getD 33 0 = 2 := by rw [shape]; simp
  have ciphers : ((encodeClientHello client hsBufSize).drop 34).take 2 = [0, 1] := by
    rw [shape, hello_drop _ _ _ 1]
    rfl
  have params : (encodeClientHello client hsBufSize).drop 36 =
      encodeTransportParams client.localParams clientParamsCap := by
    rw [shape, hello_drop _ _ _ 3]
    rfl
  have chosen : selectCipher [0, 1] = some .aes256Gcm := by decide
  unfold processClientHello
  rw [if_neg (by omega), if_neg (by rw [(hello_kind client).1]; decide)]
  simp only [pubkey, count]
  rw [if_neg (by change ¬ 34 + 2 > _; omega)]
  simp only [show (2 : UInt8).toNat = 2 from rfl, ciphers, chosen, params, recvPeerParams_encode]
  unfold learnHello
  split <;> rename_i appended <;> rw [appended] <;> rfl

/-- Taking a server's hello stores what it says, unless it announces no limits at all, and goes on
if the transcript has room. -/
theorem processServerHello_reads (hs server : Handshake) :
    processServerHello evp hs (encodeServerHello server hsBufSize) =
      if (encodeServerHello server hsBufSize).length < 35 then (.handshakeFail, hs)
      else
        (appendTranscript (learnHello hs server.localPubkey
            (AeadAlgo.ofByte server.selectedAlgo.toByte)
            (readParams server.localParams serverParamsCap))
          (encodeServerHello server hsBufSize)).elim
          (.internal, learnHello hs server.localPubkey
            (AeadAlgo.ofByte server.selectedAlgo.toByte)
            (readParams server.localParams serverParamsCap)) (acceptServerHello evp) := by
  have shape := encodeServerHello_eq server
  have pubkey : toArray 32 ((encodeServerHello server hsBufSize).drop 1) = server.localPubkey := by
    rw [shape, List.drop_one, List.tail_cons, toArray_append]
  have algo : (encodeServerHello server hsBufSize).getD 33 0 = server.selectedAlgo.toByte := by
    rw [shape]
    simp
  have params : (encodeServerHello server hsBufSize).drop 34 =
      encodeTransportParams server.localParams serverParamsCap := by
    rw [shape, hello_drop _ _ _ 1]
    rfl
  unfold processServerHello
  split
  · rfl
  · rw [if_neg (by rw [(hello_kind server).2]; decide)]
    simp only [pubkey, algo, params, recvPeerParams_encode]
    unfold learnHello
    split <;> rename_i appended <;> rw [appended] <;> rfl

/-- Nothing but keys and secrets differs between two stages of a handshake. -/
def KeysOnly (before after : Handshake) : Prop :=
  after = { before with
    handshakeKeys := after.handshakeKeys
    appKeys := after.appKeys
    masterSecret := after.masterSecret
    hasMasterSecret := after.hasMasterSecret
    resumptionSecret := after.resumptionSecret
    hasResumptionSecret := after.hasResumptionSecret }

/-- Between two stages of a handshake a side keeps what it brought, no packet is counted and the
transcript only grows. -/
structure Advances (before after : Handshake) : Prop where
  own : (after.initialKeys, after.localPrivkey, after.localPubkey, after.localParams) =
    (before.initialKeys, before.localPrivkey, before.localPubkey, before.localParams)
  initialPn : after.initialPn = before.initialPn
  handshakePn : after.handshakePn = before.handshakePn
  transcript : before.transcript.length ≤ after.transcript.length

namespace Advances

/-- Standing still is an advance. -/
theorem refl (hs : Handshake) : Advances hs hs := ⟨rfl, rfl, rfl, Nat.le_refl _⟩

/-- Two advances are one. -/
theorem trans {first second third : Handshake} (left : Advances first second)
    (right : Advances second third) : Advances first third :=
  ⟨right.own.trans left.own, right.initialPn.trans left.initialPn,
    right.handshakePn.trans left.handshakePn, Nat.le_trans left.transcript right.transcript⟩

theorem of_keysOnly {before after : Handshake} (only : KeysOnly before after) :
    Advances before after :=
  ⟨(congrArg (fun hs => (hs.initialKeys, hs.localPrivkey, hs.localPubkey, hs.localParams)) only :),
    (congrArg Handshake.initialPn only :), (congrArg Handshake.handshakePn only :),
    Nat.le_of_eq (congrArg (·.transcript.length) only :).symm⟩

end Advances

/-- Key derivation changes nothing but keys and secrets, whether or not it succeeds. -/
theorem deriveHandshakeAndAppKeys_only (hs : Handshake) :
    KeysOnly hs (deriveHandshakeAndAppKeys evp hs).2 := by
  unfold deriveHandshakeAndAppKeys
  -- Each exit has stored the keys derived so far.
  split
  · rfl
  · simp only
    split
    · rfl
    · split
      · rfl
      · split
        · rfl
        · split <;> rfl

/-- A message is put behind the transcript. -/
theorem appendTranscript_eq (appended : appendTranscript hs msg = some hs') :
    hs' = { hs with transcript := hs.transcript ++ msg } := by
  unfold appendTranscript at appended
  split at appended
  · cases appended
  · exact (Option.some.inj appended).symm

theorem appendTranscript_advances (appended : appendTranscript hs msg = some hs') :
    Advances hs hs' := by
  rw [appendTranscript_eq appended]
  exact ⟨rfl, rfl, rfl, by simp⟩

theorem exchangeKeys_advances {evp : Evp} (exchanged : exchangeKeys evp hs = some hs') :
    Advances hs hs' := by
  unfold exchangeKeys at exchanged
  rw [Option.map_eq_some_iff] at exchanged
  obtain ⟨secret, _, rfl⟩ := exchanged
  exact ⟨rfl, rfl, rfl, Nat.le_refl _⟩

theorem derive_advances (hs : Handshake) {finish : Handshake → Handshake}
    (still : ∀ hs, Advances hs (finish hs)) :
    Advances hs (match deriveHandshakeAndAppKeys evp hs with
      | (false, hs) => (ErrorCode.cryptoFail, hs)
      | (true, hs) => (ErrorCode.ok, finish hs)).2 := by
  have derived := Advances.of_keysOnly (deriveHandshakeAndAppKeys_only evp hs)
  split
  · rename_i keyed result
    rw [result] at derived
    exact derived
  · rename_i keyed result
    rw [result] at derived
    exact derived.trans (still keyed)

/-- Answering a hello is an advance. -/
theorem answerClientHello_advances (hs : Handshake) :
    Advances hs (answerClientHello evp hs).2 := by
  unfold answerClientHello
  cases exchanged : exchangeKeys evp hs with
  | none => exact Advances.refl hs
  | some agreed =>
    apply (exchangeKeys_advances exchanged).trans
    simp only
    split
    · exact ⟨rfl, rfl, rfl, Nat.le_refl _⟩
    · have queued : Advances agreed (queueHello agreed (encodeServerHello agreed hsBufSize)) :=
        ⟨rfl, rfl, rfl, Nat.le_refl _⟩
      apply queued.trans
      cases appended : appendTranscript (queueHello agreed (encodeServerHello agreed hsBufSize))
          (encodeServerHello agreed hsBufSize) with
      | none => exact Advances.refl _
      | some longer =>
        exact (appendTranscript_advances appended).trans
          (derive_advances evp longer fun _ => ⟨rfl, rfl, rfl, Nat.le_refl _⟩)

/-- Accepting a hello is an advance. -/
theorem acceptServerHello_advances (hs : Handshake) :
    Advances hs (acceptServerHello evp hs).2 := by
  unfold acceptServerHello
  cases exchanged : exchangeKeys evp hs with
  | none => exact Advances.refl hs
  | some agreed =>
    exact (exchangeKeys_advances exchanged).trans
      (derive_advances evp agreed fun _ => ⟨rfl, rfl, rfl, Nat.le_refl _⟩)

theorem recvPeerParams_advances (hs : Handshake) (rest : Bytes) :
    Advances hs (recvPeerParams hs rest).2 := by
  unfold recvPeerParams
  split
  · exact Advances.refl hs
  · simp only
    split <;> exact ⟨rfl, rfl, rfl, Nat.le_refl _⟩

/-- What became of a handshake message: an advance, with a longer transcript when it was the
cryptography that failed. -/
structure Takes (hs : Handshake) (result : ErrorCode × Handshake) : Prop where
  advances : Advances hs result.2
  failed : result.1 = .cryptoFail → hs.transcript.length < result.2.transcript.length

theorem Takes.refused {hs hs' : Handshake} {code : ErrorCode} (other : code ≠ .cryptoFail)
    (still : Advances hs hs') : Takes hs (code, hs') :=
  ⟨still, fun failed => absurd failed other⟩

theorem Takes.after {first : Handshake} {result : ErrorCode × Handshake}
    (earlier : Advances first hs) (taken : Takes hs result) : Takes first result :=
  ⟨earlier.trans taken.advances, fun failed =>
    Nat.lt_of_le_of_lt earlier.transcript (taken.failed failed)⟩

/-- How a hello goes on behind its fixed fields, where the limits of the peer are. -/
def helloEnd (next : Handshake → ErrorCode × Handshake) (data rest : Bytes) (hs : Handshake) :
    ErrorCode × Handshake :=
  match recvPeerParams hs rest with
  | (false, hs) => (.handshakeFail, hs)
  | (true, hs) =>
    match appendTranscript hs data with
    | none => (.internal, hs)
    | some hs => next hs

/-- A hello whose limits can be read enters the transcript before anything is computed from it. -/
theorem takes_hello (hs : Handshake) {data : Bytes} (rest : Bytes) (nonempty : 0 < data.length)
    {next : Handshake → ErrorCode × Handshake} (advance : ∀ hs, Advances hs (next hs).2) :
    Takes hs (helloEnd next data rest hs) := by
  have still := recvPeerParams_advances hs rest
  unfold helloEnd
  cases result : recvPeerParams hs rest with
  | mk ok read =>
    rw [result] at still
    cases ok with
    | false => exact Takes.refused (by decide) still
    | true =>
      apply Takes.after still
      simp only
      cases appended : appendTranscript read data with
      | none => exact Takes.refused (by decide) (Advances.refl read)
      | some longer =>
        have entered := congrArg (·.transcript.length) (appendTranscript_eq appended)
        have after := (advance longer).transcript
        -- The message is not empty, and what follows only adds to the transcript.
        refine ⟨(appendTranscript_advances appended).trans (advance longer), fun _ => ?_⟩
        simp only [List.length_append] at entered ⊢
        omega

/-- What becomes of a client's hello. -/
theorem processClientHello_takes (hs : Handshake) (data : Bytes) :
    Takes hs (processClientHello evp hs data) := by
  unfold processClientHello
  split
  · exact Takes.refused (by decide) (Advances.refl hs)
  · split
    · exact Takes.refused (by decide) (Advances.refl hs)
    · simp only
      split
      · exact Takes.refused (by decide) ⟨rfl, rfl, rfl, Nat.le_refl _⟩
      · split
        · exact Takes.refused (by decide) ⟨rfl, rfl, rfl, Nat.le_refl _⟩
        · apply Takes.after _ (takes_hello _ _ (by omega) (answerClientHello_advances evp))
          exact ⟨rfl, rfl, rfl, Nat.le_refl _⟩

/-- What becomes of a server's hello. -/
theorem processServerHello_takes (hs : Handshake) (data : Bytes) :
    Takes hs (processServerHello evp hs data) := by
  unfold processServerHello
  split
  · exact Takes.refused (by decide) (Advances.refl hs)
  · split
    · exact Takes.refused (by decide) (Advances.refl hs)
    · apply Takes.after _ (takes_hello _ _ (by omega) (acceptServerHello_advances evp))
      exact ⟨rfl, rfl, rfl, Nat.le_refl _⟩

/-- What becomes of handshake bytes. -/
theorem handshakeRecvCrypto_takes (hs : Handshake) (level : CryptoLevel)
    (data : Bytes) : Takes hs (handshakeRecvCrypto evp hs level data) := by
  unfold handshakeRecvCrypto
  split
  · split
    · exact Takes.refused (by decide) (Advances.refl hs)
    · exact processClientHello_takes evp hs data
  · split
    · exact Takes.refused (by decide) (Advances.refl hs)
    · exact processServerHello_takes evp hs data
  · split
    · exact Takes.refused (by decide) (Advances.refl hs)
    · exact processServerHello_takes evp hs data
  · exact Takes.refused (by decide) (Advances.refl hs)

/-- A handshake once it has heard the key share and the algorithm of the peer. -/
def Handshake.hearing (hs : Handshake) (key : Key) (algo : AeadAlgo) : Handshake :=
  { hs with peerPubkey := key, hasPeerPubkey := true, selectedAlgo := algo }

end Nxp
