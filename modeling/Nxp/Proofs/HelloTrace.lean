import Nxp.Core.HandshakeLaws

/-! What a handshake message that is refused leaves behind. -/

namespace Nxp

/-- What a handshake message may be read into, and what the keys are made from. -/
def Handshake.traced (hs : Handshake) :
    Bytes × AeadAlgo × Key × TransportParams × Bytes × HsState :=
  (hs.transcript, hs.selectedAlgo, hs.peerPubkey, hs.peerParams, hs.sendBuf, hs.state)

/-- Whatever message comes next, two handshakes give the same answer and get the same keys. -/
def SameKeysNext (evp : Evp) (hs other : Handshake) : Prop :=
  ∀ level data,
    (handshakeRecvCrypto evp other level data).1 = (handshakeRecvCrypto evp hs level data).1 ∧
    (handshakeRecvCrypto evp other level data).2.handshakeKeys =
      (handshakeRecvCrypto evp hs level data).2.handshakeKeys ∧
    (handshakeRecvCrypto evp other level data).2.appKeys =
      (handshakeRecvCrypto evp hs level data).2.appKeys

/-- The limits at the end of a hello are those known, and they cannot all be read or the transcript
has no room for the hello. -/
def RestRefused (hs : Handshake) (rest data : Bytes) : Prop :=
  (rest = [] ∨ (decodeTransportParams rest).2 = hs.peerParams) ∧
    (rest ≠ [] ∧ (decodeTransportParams rest).1 = false ∨
      hs.transcript.length + data.length > hsBufSize * 2)

/-- The ciphers that a client's hello offers. -/
def offeredCiphers (data : Bytes) : Bytes := (data.drop 34).take (data.getD 33 0).toNat

/-- A client's hello is too short or of another kind, or it has the public key that is known and
stops being right before anything else that is new. -/
def ClientHelloRefused (hs : Handshake) (data : Bytes) : Prop :=
  data.length < 36 ∨ data.headD 0 ≠ 0x01 ∨
    toArray 32 (data.drop 1) = hs.peerPubkey ∧
      (34 + (data.getD 33 0).toNat > data.length ∨ selectCipher (offeredCiphers data) = none ∨
        selectCipher (offeredCiphers data) = some hs.selectedAlgo ∧
          RestRefused hs (data.drop (34 + (data.getD 33 0).toNat)) data)

/-- A server's hello is too short or of another kind, or it has the public key and the cipher that
are known and stops being right before anything else that is new. -/
def ServerHelloRefused (hs : Handshake) (data : Bytes) : Prop :=
  data.length < 35 ∨ data.headD 0 ≠ 0x02 ∨
    toArray 32 (data.drop 1) = hs.peerPubkey ∧ AeadAlgo.ofByte (data.getD 33 0) = hs.selectedAlgo ∧
      RestRefused hs (data.drop 34) data

/-- A message comes at a wrong time or level, or is refused before anything new is read from it. -/
def RefusedAtOnce (hs : Handshake) (level : CryptoLevel) (data : Bytes) : Prop :=
  match hs.state with
  | .waitClientHello => level ≠ .initial ∨ ClientHelloRefused hs data
  | .waitServerHello | .zeroRttSent => level ≠ .initial ∨ ServerHelloRefused hs data
  | _ => True

/-- Mark whether the peer's key and limits are known. -/
def Handshake.flagged (hs : Handshake) (key params : Bool) : Handshake :=
  { hs with hasPeerPubkey := key, hasPeerParams := params }

section Flags

variable (evp : Evp) (hs : Handshake) (key params : Bool)

theorem deriveHandshakeAndAppKeys_flagged :
    deriveHandshakeAndAppKeys evp (hs.flagged key params) =
      ((deriveHandshakeAndAppKeys evp hs).1,
        (deriveHandshakeAndAppKeys evp hs).2.flagged key params) := by
  unfold deriveHandshakeAndAppKeys Handshake.flagged
  dsimp only
  cases handshakeSecrets evp hs.transcript hs.sharedSecret with
  | none => rfl
  | some secrets =>
    dsimp only
    split
    · rfl
    · cases appSecrets evp secrets.handshakeSecret secrets.transcriptHash with
      | none => rfl
      | some app =>
        dsimp only
        split
        · rfl
        · cases cryptoDeriveResumptionSecret evp app.masterSecret hs.transcript <;> rfl

theorem appendTranscript_flagged (msg : Bytes) :
    appendTranscript (hs.flagged key params) msg =
      (appendTranscript hs msg).map (Handshake.flagged · key params) := by
  have same : (hs.flagged key params).transcript = hs.transcript := rfl
  unfold appendTranscript
  rw [same]
  split <;> rfl

theorem exchangeKeys_flagged :
    exchangeKeys evp (hs.flagged key params) =
      (exchangeKeys evp hs).map (Handshake.flagged · key params) := by
  have same : evp.x25519Derive (hs.flagged key params).localPrivkey
      (hs.flagged key params).peerPubkey = evp.x25519Derive hs.localPrivkey hs.peerPubkey := rfl
  unfold exchangeKeys
  rw [same]
  cases evp.x25519Derive hs.localPrivkey hs.peerPubkey <;> rfl

theorem acceptServerHello_flagged :
    acceptServerHello evp (hs.flagged key params) =
      ((acceptServerHello evp hs).1, (acceptServerHello evp hs).2.flagged key params) := by
  unfold acceptServerHello
  rw [exchangeKeys_flagged]
  cases exchangeKeys evp hs with
  | none => rfl
  | some agreed =>
    rw [Option.map_some]
    dsimp only
    rw [deriveHandshakeAndAppKeys_flagged]
    cases deriveHandshakeAndAppKeys evp agreed with
    | mk ok keyed => cases ok <;> rfl

/-- Answering a client's hello does not look at the marks. -/
theorem answerClientHello_flagged :
    answerClientHello evp (hs.flagged key params) =
      ((answerClientHello evp hs).1, (answerClientHello evp hs).2.flagged key params) := by
  unfold answerClientHello
  rw [exchangeKeys_flagged]
  cases exchangeKeys evp hs with
  | none => rfl
  | some agreed =>
    rw [Option.map_some]
    dsimp only
    -- The answer is made of this side's own data and the cipher.
    have hello : encodeServerHello (agreed.flagged key params) hsBufSize =
        encodeServerHello agreed hsBufSize := rfl
    have queued (answer : Bytes) : queueHello (agreed.flagged key params) answer =
        (queueHello agreed answer).flagged key params := rfl
    rw [hello, queued, appendTranscript_flagged]
    split
    · rfl
    · cases appendTranscript (queueHello agreed (encodeServerHello agreed hsBufSize))
          (encodeServerHello agreed hsBufSize) with
      | none => rfl
      | some longer =>
        rw [Option.map_some]
        dsimp only
        rw [deriveHandshakeAndAppKeys_flagged]
        cases deriveHandshakeAndAppKeys evp longer with
        | mk ok keyed => cases ok <;> rfl

theorem recvPeerParams_flagged (rest : Bytes) :
    ∃ known, recvPeerParams (hs.flagged key params) rest =
      ((recvPeerParams hs rest).1, (recvPeerParams hs rest).2.flagged key known) := by
  unfold recvPeerParams
  by_cases empty : rest.isEmpty = true
  · exact ⟨params, by simp only [empty, if_true]⟩
  · simp only [empty, Bool.false_eq_true, if_false]
    cases (decodeTransportParams rest).1 with
    | true => exact ⟨true, rfl⟩
    | false => exact ⟨params, rfl⟩

end Flags

/-- What follows the head of a hello does not depend on the marks. -/
theorem hello_flagged {next : Handshake → ErrorCode × Handshake}
    (blind : ∀ hs key params, next (Handshake.flagged hs key params) =
      ((next hs).1, (next hs).2.flagged key params))
    (hs : Handshake) (key params : Bool) (rest data : Bytes) :
    ∃ known, helloEnd next data rest (hs.flagged key params) =
      Prod.map id (Handshake.flagged · key known) (helloEnd next data rest hs) := by
  obtain ⟨known, read⟩ := recvPeerParams_flagged hs key params rest
  refine ⟨known, ?_⟩
  unfold helloEnd
  rw [read]
  cases recvPeerParams hs rest with
  | mk ok after =>
    cases ok with
    | false => rfl
    | true =>
      dsimp only
      rw [appendTranscript_flagged]
      cases appendTranscript after data with
      | none => rfl
      | some longer => exact blind longer key known

section Blind

variable (evp : Evp) (hs : Handshake) (key params : Bool) (data : Bytes)

/-- The two flags do not steer a ClientHello. -/
theorem processClientHello_flagged :
    ∃ key' params', processClientHello evp (hs.flagged key params) data =
      Prod.map id (Handshake.flagged · key' params') (processClientHello evp hs data) := by
  unfold processClientHello
  split
  · exact ⟨key, params, rfl⟩
  · split
    · exact ⟨key, params, rfl⟩
    · dsimp only
      split
      · exact ⟨true, params, rfl⟩
      · split
        · exact ⟨true, params, rfl⟩
        · rename_i algo _
          obtain ⟨known, same⟩ := hello_flagged (answerClientHello_flagged evp)
            { hs with peerPubkey := toArray 32 (data.drop 1), hasPeerPubkey := true
                      selectedAlgo := algo } true params
            (data.drop (34 + (data.getD 33 0).toNat)) data
          exact ⟨true, known, same⟩

/-- Nor a ServerHello. -/
theorem processServerHello_flagged :
    ∃ key' params', processServerHello evp (hs.flagged key params) data =
      Prod.map id (Handshake.flagged · key' params') (processServerHello evp hs data) := by
  unfold processServerHello
  split
  · exact ⟨key, params, rfl⟩
  · split
    · exact ⟨key, params, rfl⟩
    · obtain ⟨known, same⟩ := hello_flagged (acceptServerHello_flagged evp)
        { hs with peerPubkey := toArray 32 (data.drop 1), hasPeerPubkey := true
                  selectedAlgo := AeadAlgo.ofByte (data.getD 33 0) } true params (data.drop 34) data
      exact ⟨true, known, same⟩

/-- A message is taken in the same way under any marks. -/
theorem handshakeRecvCrypto_flagged (level : CryptoLevel) :
    ∃ key' params', handshakeRecvCrypto evp (hs.flagged key params) level data =
      Prod.map id (Handshake.flagged · key' params') (handshakeRecvCrypto evp hs level data) := by
  have same : (hs.flagged key params).state = hs.state := rfl
  unfold handshakeRecvCrypto
  rw [same]
  cases hs.state with
  | waitClientHello =>
    dsimp only
    split
    · exact ⟨key, params, rfl⟩
    · exact processClientHello_flagged evp hs key params data
  | waitServerHello | zeroRttSent =>
    dsimp only
    split
    · exact ⟨key, params, rfl⟩
    · exact processServerHello_flagged evp hs key params data
  | _ => exact ⟨key, params, rfl⟩

/-- Nor the keys that the next message derives. -/
theorem sameKeysNext_flagged : SameKeysNext evp hs (hs.flagged key params) := by
  intro level data
  obtain ⟨key', params', same⟩ := handshakeRecvCrypto_flagged evp hs key params data level
  rw [same]
  exact ⟨rfl, rfl, rfl⟩

end Blind

section Trace

variable {hs : Handshake} {pubkey : Key} {algo : AeadAlgo} {rest data : Bytes}
  {next : Handshake → ErrorCode × Handshake}

/-- A hello with nothing new in it that is refused at its end sets nothing but marks. -/
theorem hello_untraced (known : pubkey = hs.peerPubkey) (same : algo = hs.selectedAlgo)
    (refused : RestRefused hs rest data) :
    ∃ key params, (helloEnd next data rest (hs.hearing pubkey algo)).2 = hs.flagged key params := by
  subst known same
  unfold helloEnd
  obtain ⟨limits, stops⟩ := refused
  by_cases empty : rest = []
  · -- Without limits it is the transcript that has no room.
    have full := stops.resolve_left fun unread => unread.1 empty
    subst empty
    refine ⟨true, hs.hasPeerParams, ?_⟩
    simp only [recvPeerParams, List.isEmpty_nil, if_true, appendTranscript, Handshake.hearing, full]
    rfl
  · have kept := limits.resolve_left empty
    have extended : rest.isEmpty = false := by simpa using empty
    cases read : (decodeTransportParams rest).1 with
    | false =>
      refine ⟨true, hs.hasPeerParams, ?_⟩
      simp only [recvPeerParams, extended, Bool.false_eq_true, if_false, read, kept]
      rfl
    | true =>
      have full := stops.resolve_left fun unread => by simp [read] at unread
      refine ⟨true, true, ?_⟩
      simp only [recvPeerParams, extended, Bool.false_eq_true, if_false, read, kept, if_true,
        appendTranscript, Handshake.hearing, full]
      rfl

/-- A message that reaches the transcript leaves a trace. -/
theorem entered_traced (nonempty : 0 < data.length) (advance : ∀ hs, Advances hs (next hs).2)
    {read : Handshake} (same : read.transcript = hs.transcript)
    (kept : (match appendTranscript read data with
      | none => (ErrorCode.internal, read)
      | some hs => next hs).2.traced = hs.traced) :
    read.traced = hs.traced ∧ hs.transcript.length + data.length > hsBufSize * 2 := by
  cases appended : appendTranscript read data with
  | none =>
    rw [appended] at kept
    refine ⟨kept, ?_⟩
    unfold appendTranscript at appended
    split at appended
    · rename_i full
      rwa [same] at full
    · cases appended
  | some longer =>
    exfalso
    rw [appended] at kept
    have grown := (advance longer).transcript
    have ends : (next longer).2.transcript = hs.transcript := congrArg Prod.fst kept
    rw [ends, appendTranscript_eq appended, List.length_append, same] at grown
    omega

/-- A hello that leaves no trace has nothing new in it and is refused at its end. -/
theorem hello_traced (nonempty : 0 < data.length) (advance : ∀ hs, Advances hs (next hs).2)
    (kept : (helloEnd next data rest (hs.hearing pubkey algo)).2.traced = hs.traced) :
    pubkey = hs.peerPubkey ∧ algo = hs.selectedAlgo ∧ RestRefused hs rest data := by
  unfold helloEnd at kept
  by_cases empty : rest = []
  · subst empty
    simp only [recvPeerParams, List.isEmpty_nil, if_true] at kept
    have before : (hs.hearing pubkey algo).transcript = hs.transcript := rfl
    obtain ⟨same, full⟩ := entered_traced nonempty advance before kept
    simp only [Handshake.traced, Handshake.hearing, Prod.mk.injEq] at same
    exact ⟨same.2.2.1, same.2.1, .inl rfl, .inr full⟩
  · have extended : rest.isEmpty = false := by simpa using empty
    cases read : (decodeTransportParams rest).1 with
    | false =>
      simp only [recvPeerParams, extended, Bool.false_eq_true, if_false, read] at kept
      simp only [Handshake.traced, Handshake.hearing, Prod.mk.injEq] at kept
      exact ⟨kept.2.2.1, kept.2.1, .inr kept.2.2.2.1, .inl ⟨empty, read⟩⟩
    | true =>
      simp only [recvPeerParams, extended, Bool.false_eq_true, if_false, read, if_true] at kept
      have before : ({ hs.hearing pubkey algo with
          peerParams := (decodeTransportParams rest).2
          hasPeerParams := true } : Handshake).transcript = hs.transcript := rfl
      obtain ⟨same, full⟩ := entered_traced nonempty advance before kept
      simp only [Handshake.traced, Handshake.hearing, Prod.mk.injEq] at same
      exact ⟨same.2.2.1, same.2.1, .inr same.2.2.2.1, .inr full⟩

end Trace

theorem traceless_of_flagged (evp : Evp) {hs other : Handshake}
    (marked : ∃ key params, other = hs.flagged key params) :
    other.traced = hs.traced ∧ SameKeysNext evp hs other := by
  obtain ⟨key, params, rfl⟩ := marked
  exact ⟨rfl, sameKeysNext_flagged evp hs key params⟩

section Refused

variable (evp : Evp) {hs : Handshake} {data : Bytes}

/-- A refused ClientHello changes the two flags at most. -/
theorem processClientHello_untraced (refused : ClientHelloRefused hs data) :
    ∃ key params, (processClientHello evp hs data).2 = hs.flagged key params := by
  unfold processClientHello
  split
  · exact ⟨_, _, rfl⟩
  · rename_i long
    split
    · exact ⟨_, _, rfl⟩
    · rename_i kind
      obtain ⟨known, stops⟩ := (refused.resolve_left long).resolve_left kind
      dsimp only
      split
      · exact ⟨true, hs.hasPeerParams, by rw [known]; rfl⟩
      · rename_i fits
        split
        · exact ⟨true, hs.hasPeerParams, by rw [known]; rfl⟩
        · rename_i algo selected
          obtain ⟨same, rest⟩ := (stops.resolve_left fits).resolve_left
            fun none => Option.some_ne_none _ (selected.symm.trans none)
          have same : algo = hs.selectedAlgo := Option.some.inj (selected.symm.trans same)
          exact hello_untraced known same rest

/-- A ClientHello without a trace was refused. -/
theorem processClientHello_traced (kept : (processClientHello evp hs data).2.traced = hs.traced) :
    ClientHelloRefused hs data := by
  by_cases long : data.length < 36
  · exact .inl long
  · by_cases kind : data.headD 0 ≠ 0x01
    · exact .inr (.inl kind)
    · refine .inr (.inr ?_)
      unfold processClientHello at kept
      rw [if_neg long, if_neg kind] at kept
      dsimp only at kept
      split at kept
      · rename_i ends
        simp only [Handshake.traced, Prod.mk.injEq] at kept
        exact ⟨kept.2.2.1, .inl ends⟩
      · split at kept
        · rename_i none
          simp only [Handshake.traced, Prod.mk.injEq] at kept
          exact ⟨kept.2.2.1, .inr (.inl none)⟩
        · rename_i algo selected
          obtain ⟨known, same, rest⟩ :=
            hello_traced (by omega) (answerClientHello_advances evp) kept
          exact ⟨known, .inr (.inr ⟨by rw [← same]; exact selected, rest⟩)⟩

/-- A refused ServerHello changes the two flags at most. -/
theorem processServerHello_untraced (refused : ServerHelloRefused hs data) :
    ∃ key params, (processServerHello evp hs data).2 = hs.flagged key params := by
  unfold processServerHello
  split
  · exact ⟨_, _, rfl⟩
  · rename_i long
    split
    · exact ⟨_, _, rfl⟩
    · rename_i kind
      obtain ⟨known, same, rest⟩ := (refused.resolve_left long).resolve_left kind
      exact hello_untraced known same rest

/-- A ServerHello without a trace was refused. -/
theorem processServerHello_traced (kept : (processServerHello evp hs data).2.traced = hs.traced) :
    ServerHelloRefused hs data := by
  by_cases long : data.length < 35
  · exact .inl long
  · by_cases kind : data.headD 0 ≠ 0x02
    · exact .inr (.inl kind)
    · refine .inr (.inr ?_)
      unfold processServerHello at kept
      rw [if_neg long, if_neg kind] at kept
      exact hello_traced (by omega) (acceptServerHello_advances evp) kept

theorem processClientHello_traceless_iff :
    (processClientHello evp hs data).2.traced = hs.traced ∧
        SameKeysNext evp hs (processClientHello evp hs data).2 ↔ ClientHelloRefused hs data :=
  ⟨fun kept => processClientHello_traced evp kept.1,
    fun refused => traceless_of_flagged evp (processClientHello_untraced evp refused)⟩

theorem processServerHello_traceless_iff :
    (processServerHello evp hs data).2.traced = hs.traced ∧
        SameKeysNext evp hs (processServerHello evp hs data).2 ↔ ServerHelloRefused hs data :=
  ⟨fun kept => processServerHello_traced evp kept.1,
    fun refused => traceless_of_flagged evp (processServerHello_untraced evp refused)⟩

end Refused

/-- A message leaves a handshake as it was, so that the next one leads to the same keys as without
it, exactly when it is refused before anything new is read from it. -/
theorem message_traceless_iff (evp : Evp) (hs : Handshake) (level : CryptoLevel) (data : Bytes) :
    (handshakeRecvCrypto evp hs level data).2.traced = hs.traced ∧
        SameKeysNext evp hs (handshakeRecvCrypto evp hs level data).2 ↔
      RefusedAtOnce hs level data := by
  -- Refused for its time or its level, a message changes nothing at all.
  have still : hs.traced = hs.traced ∧ SameKeysNext evp hs hs :=
    traceless_of_flagged evp ⟨hs.hasPeerPubkey, hs.hasPeerParams, rfl⟩
  unfold RefusedAtOnce handshakeRecvCrypto
  cases hs.state with
  | waitClientHello =>
    dsimp only
    split
    · rename_i late
      exact ⟨fun _ => .inl late, fun _ => still⟩
    · rename_i early
      rw [or_iff_right early]
      exact processClientHello_traceless_iff evp
  | waitServerHello | zeroRttSent =>
    dsimp only
    split
    · rename_i late
      exact ⟨fun _ => .inl late, fun _ => still⟩
    · rename_i early
      rw [or_iff_right early]
      exact processServerHello_traceless_iff evp
  | _ => exact ⟨fun _ => trivial, fun _ => still⟩

/-- Primitives that hash what they are given and refuse a public key of zeros. -/
def fragileEvp : Evp :=
  { plainEvp with
    hmacSha256 := fun key data => some (Vector.ofFn fun i => key.getD i.val 0 + data.getD i.val 0)
    x25519Derive := fun own other =>
      if other = Vector.replicate 32 0 then none else plainEvp.x25519Derive own other }

/-- A server that waits for a client's hello. -/
def waitingServer : Handshake :=
  (handshakeStartServer fragileEvp (handshakeCreate fragileEvp true (Vector.replicate 32 1))
    ConnId.empty).2

/-- A client's hello with a public key of one octet over and over. -/
def helloOf (octet : UInt8) : Bytes := 0x01 :: List.replicate 32 octet ++ [2, 0, 1]

/-- A hello with a public key of zeros is refused, but stays in the transcript, and a correct hello
after it leads to other keys. -/
theorem message_traced :
    waitingServer.state = .waitClientHello ∧ waitingServer.transcript = [] ∧
    (handshakeRecvCrypto fragileEvp waitingServer .initial (helloOf 0)).1 = .cryptoFail ∧
    (handshakeRecvCrypto fragileEvp waitingServer .initial (helloOf 0)).2.transcript = helloOf 0 ∧
    (handshakeRecvCrypto fragileEvp waitingServer .initial (helloOf 7)).1 = .ok ∧
    (handshakeRecvCrypto fragileEvp
      (handshakeRecvCrypto fragileEvp waitingServer .initial (helloOf 0)).2 .initial
        (helloOf 7)).1 = .ok ∧
    (handshakeRecvCrypto fragileEvp
      (handshakeRecvCrypto fragileEvp waitingServer .initial (helloOf 0)).2 .initial
        (helloOf 7)).2.appKeys ≠
      (handshakeRecvCrypto fragileEvp waitingServer .initial (helloOf 7)).2.appKeys := by
  decide +kernel

end Nxp
