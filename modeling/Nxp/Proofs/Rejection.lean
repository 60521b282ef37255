import Nxp.Core.OpenLaws
import Nxp.Core.RecvLaws

/-! What a datagram that fails its authentication leaves behind. -/

namespace Nxp

variable {evp : Evp} {conn : Conn} {data : Bytes} {nowUs : UInt64} {env : Env} {hs : Handshake}
  {len : Nat}

/-- No frame answers with a decryption failure. -/
theorem processFrame_code (env : Env) (conn : Conn) (frame : Frame) (nowUs : UInt64) :
    (processFrame env conn frame nowUs).1 ≠ .cryptoFail := by
  have data (s : Stream) (f : FrameStream) : (streamOnRecv s f).1 ≠ .cryptoFail := by
    unfold streamOnRecv
    split_ifs <;> exact nofun
  cases frame with
  | stream f =>
    show (recvStreamFrame env conn f).1 ≠ .cryptoFail
    unfold recvStreamFrame
    split
    · exact data _ f
    · split
      · exact nofun
      · split
        · exact nofun
        · exact data _ f
  | maxStreams limit isBidi => cases isBidi <;> exact nofun
  | _ => exact nofun

theorem processLoop_code (env : Env) (nowUs : UInt64) (fuel : Nat) (conn : Conn)
    (payload : Bytes) : (processLoop env nowUs fuel conn payload).1 ≠ .cryptoFail := by
  induction fuel generalizing conn payload with
  | zero =>
    intro failed
    cases failed
  | succ fuel ih =>
    unfold processLoop
    split
    · intro failed
      cases failed
    · split
      · intro failed
        cases failed
      · rename_i frame rest _
        have code := processFrame_code env conn frame nowUs
        split
        · exact ih _ _
        · rename_i result
          rw [result] at code
          exact code

/-- A short packet that fails its authentication is recorded as far as its header can be read. -/
theorem recvShortPacket_failed
    (failed : (recvShortPacket evp env conn data nowUs).1 = .cryptoFail) :
    (recvShortPacket evp env conn data nowUs).2 =
      match headerPktNum evp conn data with
      | none => conn
      | some pktNum => { conn with ack := ackOnPktRecv conn.ack pktNum nowUs true } := by
  unfold recvShortPacket at failed ⊢
  unfold headerPktNum
  split at failed
  · cases failed
  · rename_i fits
    rw [if_neg fits]
    cases removed : unprotectShort evp conn data with
    | none => rfl
    | some pkt =>
      simp only [removed] at failed
      simp only [Option.bind_eq_bind, Option.bind_some]
      cases parsed : pktDecodeShortHeader pkt conn.scid.len conn.scid.bounded with
      | none =>
        simp only [parsed] at failed
        cases failed
      | some hdr =>
        simp only [parsed] at failed
        simp only [Option.bind_some]
        split at failed
        · rfl
        · exact absurd failed (processLoop_code _ _ _ _ _)

/-- A handshake packet opens under the keys of its level. -/
def LongOpens (evp : Evp) (hs : Handshake) (data : Bytes) (hdr : PktLongHeader) : Prop :=
  ∃ level keys payload, longKeys hs hdr.type = some (level, keys) ∧ keys.available = true ∧
    openLong evp keys data hdr = some payload

/-- What became of the frames of a handshake packet: the handshake went on, with a longer transcript
when it was the cryptography that failed. -/
def LongTaken (hs : Handshake) (result : ErrorCode × Conn) : Prop :=
  ∃ hs', result.2.handshake = some hs' ∧ hs.transcript.length ≤ hs'.transcript.length ∧
    (result.1 = .cryptoFail → hs.transcript.length < hs'.transcript.length)

theorem longTaken_same {code : ErrorCode}
    (present : conn.handshake = some hs) (other : code ≠ .cryptoFail) :
    LongTaken hs (code, conn) :=
  ⟨hs, present, Nat.le_refl _, fun failed => absurd failed other⟩

/-- One frame of a handshake packet lengthens the transcript if it fails in the cryptography. -/
theorem processLongFrame_taken (evp : Evp)
    (present : conn.handshake = some hs) (level : CryptoLevel) (frame : Frame) :
    LongTaken hs (processLongFrame evp conn level frame) := by
  unfold processLongFrame
  rw [present]
  split
  · rename_i hs' offset data same
    cases same
    have takes := handshakeRecvCrypto_takes evp hs level data
    unfold recvCryptoFrame
    split
    · rename_i hs' result
      rw [result] at takes
      have installed : (installKeys { conn with handshake := some hs' } hs').handshake =
          some hs' := by
        unfold installKeys
        split <;> rfl
      split
      · refine ⟨hs', ?_, takes.advances.transcript, nofun⟩
        rw [applyPeerParams_handshake, setConnState_handshake, installed]
      · exact ⟨hs', installed, takes.advances.transcript, nofun⟩
    · rename_i code hs' _ result
      rw [result] at takes
      exact ⟨hs', rfl, takes.advances.transcript, takes.failed⟩
  · rename_i hs' same
    cases same
    -- The notice that the server is done is refused for other reasons only.
    have advances := handshakeOnHandshakeDone_advances hs
    have code : (handshakeOnHandshakeDone hs).1 ≠ .cryptoFail := by
      unfold handshakeOnHandshakeDone
      split <;> exact nofun
    unfold recvLongHandshakeDone
    split
    · rename_i hs' result
      rw [result] at advances
      refine ⟨hs', ?_, advances.transcript, nofun⟩
      rw [applyPeerParams_handshake, setConnState_handshake]
    · rename_i hs' _ result
      rw [result] at advances code
      exact ⟨hs', rfl, advances.transcript, fun failed => absurd failed code⟩
  · exact longTaken_same present (by decide)

theorem processLongLoop_taken (evp : Evp) (level : CryptoLevel) (fuel : Nat)
    (present : conn.handshake = some hs) (payload : Bytes) :
    LongTaken hs (processLongLoop evp level fuel conn payload) := by
  induction fuel generalizing conn hs payload with
  | zero => exact longTaken_same present (by decide)
  | succ fuel ih =>
    unfold processLongLoop
    split
    · exact longTaken_same present (by decide)
    · split
      · exact longTaken_same present (by decide)
      · rename_i frame rest _
        have taken := processLongFrame_taken evp present level frame
        split
        · -- The transcript after this frame is the one the next frames start from.
          rename_i next result
          rw [result] at taken
          obtain ⟨middle, reached, longer, -⟩ := taken
          obtain ⟨final, ends, grown, failed⟩ := ih reached rest
          exact ⟨final, ends, longer.trans grown, fun code => longer.trans_lt (failed code)⟩
        · rename_i result
          rw [result] at taken
          exact taken

/-- A handshake packet that fails for cryptographic reasons only had its sender's identifier learnt,
unless it was authentic, and then its message stays in the transcript. -/
theorem recvHandshakePacket_failed (failed : (recvHandshakePacket evp conn data).1 = .cryptoFail) :
    ∃ hs hdr, conn.handshake = some hs ∧ pktDecodeLongHeader data = some hdr ∧
      ((¬ LongOpens evp hs data hdr ∧ (recvHandshakePacket evp conn data).2 = learnDcid conn hdr) ∨
        (LongOpens evp hs data hdr ∧
          (recvHandshakePacket evp conn data).2.handshake ≠ conn.handshake)) := by
  unfold recvHandshakePacket at failed ⊢
  cases present : conn.handshake with
  | none =>
    simp only [present] at failed
    cases failed
  | some hs =>
    simp only [present] at failed ⊢
    split at failed
    · cases failed
    · rename_i fits
      rw [if_neg fits]
      cases parsed : pktDecodeLongHeader data with
      | none =>
        simp only [parsed] at failed
        cases failed
      | some hdr =>
        simp only [parsed] at failed ⊢
        refine ⟨hs, hdr, rfl, rfl, ?_⟩
        have learnt : (learnDcid conn hdr).handshake = some hs := by
          rw [← present, learnDcid_only]
        cases chosen : longKeys hs hdr.type with
        | none =>
          simp only [chosen] at failed
          cases failed
        | some pair =>
          obtain ⟨level, keys⟩ := pair
          simp only [chosen] at failed ⊢
          have only (opens : LongOpens evp hs data hdr) : keys.available = true ∧
              ∃ payload, openLong evp keys data hdr = some payload := by
            obtain ⟨_, _, payload, same, available, opened⟩ := opens
            rw [chosen] at same
            cases same
            exact ⟨available, payload, opened⟩
          split at failed
          · rename_i absent
            rw [if_pos absent]
            exact .inl ⟨fun opens => by simp [(only opens).1] at absent, rfl⟩
          · rename_i available
            rw [if_neg available]
            cases opened : openLong evp keys data hdr with
            | none =>
              refine .inl ⟨fun opens => ?_, rfl⟩
              obtain ⟨payload, same⟩ := (only opens).2
              rw [opened] at same
              cases same
            | some payload =>
              simp only [opened] at failed
              refine .inr ⟨⟨level, keys, payload, chosen, by simpa using available, opened⟩, ?_⟩
              obtain ⟨final, ends, -, longer⟩ := processLongLoop_taken evp level payload.length
                learnt payload
              simp only
              rw [ends]
              intro same
              have shorter := longer failed
              rw [Option.some.inj same] at shorter
              exact Nat.lt_irrefl _ shorter

/-- A header from which nothing new is learnt about where the peer is. -/
def Conn.KeepsDcid (conn : Conn) (hdr : PktLongHeader) : Prop :=
  (if conn.isServer then hdr.type = .initial ∧ conn.dcid.len = 0
    else hdr.type = .initial ∨ hdr.type = .handshake) → hdr.scid = conn.dcid

theorem learnDcid_dcid_iff (conn : Conn) (hdr : PktLongHeader) :
    (learnDcid conn hdr).dcid = conn.dcid ↔ conn.KeepsDcid hdr := by
  unfold learnDcid Conn.KeepsDcid
  split <;> split <;> simp_all

/-- A datagram leaves no mark but on the activity time: a long header brings no identifier and its
payload does not open, a short header brings no packet number that has to be recorded. -/
def Unmarking (evp : Evp) (conn : Conn) (data : Bytes) (nowUs : UInt64) : Prop :=
  ∀ first ∈ data.head?,
    if pktIsLongHeader first then
      ∀ hs hdr, conn.handshake = some hs → pktDecodeLongHeader data = some hdr →
        conn.KeepsDcid hdr ∧ ¬ LongOpens evp hs data hdr
    else ∀ pktNum, headerPktNum evp conn data = some pktNum → conn.ack.Settled pktNum nowUs

theorem noteRecv_eq_iff (conn : Conn) (len : Nat) (nowUs : UInt64) (dcid : ConnId)
    (ack : AckState) :
    { noteRecv conn len nowUs with dcid := dcid, ack := ack, stats := conn.stats } = conn ↔
      nowUs = conn.lastActivityUs ∧ dcid = conn.dcid ∧ ack = conn.ack := by
  constructor
  · intro same
    exact ⟨congrArg Conn.lastActivityUs same, congrArg Conn.dcid same, congrArg Conn.ack same⟩
  · rintro ⟨rfl, rfl, rfl⟩
    rfl

theorem shortRejected_iff
    (failed : (recvShortPacket evp env (noteRecv conn len nowUs) data nowUs).1 = .cryptoFail) :
    { (recvShortPacket evp env (noteRecv conn len nowUs) data nowUs).2 with
        stats := conn.stats } = conn ↔
      nowUs = conn.lastActivityUs ∧
        ∀ pktNum, headerPktNum evp conn data = some pktNum → conn.ack.Settled pktNum nowUs := by
  have header : headerPktNum evp (noteRecv conn len nowUs) data = headerPktNum evp conn data := rfl
  rw [recvShortPacket_failed failed, header]
  cases headerPktNum evp conn data with
  | none =>
    refine (noteRecv_eq_iff conn len nowUs conn.dcid conn.ack).trans ?_
    simp
  | some pktNum =>
    refine (noteRecv_eq_iff conn len nowUs conn.dcid
      (ackOnPktRecv conn.ack pktNum nowUs true)).trans ?_
    simp [ackOnPktRecv_eq_iff]

theorem longRejected_iff
    (failed : (recvHandshakePacket evp (noteRecv conn len nowUs) data).1 = .cryptoFail) :
    { (recvHandshakePacket evp (noteRecv conn len nowUs) data).2 with stats := conn.stats } =
        conn ↔
      nowUs = conn.lastActivityUs ∧
        ∀ hs hdr, conn.handshake = some hs → pktDecodeLongHeader data = some hdr →
          conn.KeepsDcid hdr ∧ ¬ LongOpens evp hs data hdr := by
  obtain ⟨hs, hdr, present, parsed, outcome⟩ := recvHandshakePacket_failed failed
  have present : conn.handshake = some hs := present
  have condition : (∀ hs hdr, conn.handshake = some hs → pktDecodeLongHeader data = some hdr →
      conn.KeepsDcid hdr ∧ ¬ LongOpens evp hs data hdr) ↔
      conn.KeepsDcid hdr ∧ ¬ LongOpens evp hs data hdr := by
    rw [present, parsed]
    simp
  rw [condition]
  rcases outcome with ⟨forged, result⟩ | ⟨authentic, moved⟩
  · rw [result, learnDcid_only]
    refine (noteRecv_eq_iff conn len nowUs _ conn.ack).trans ?_
    simp only [and_true, forged, not_false_eq_true]
    exact and_congr_right fun _ => learnDcid_dcid_iff (noteRecv conn len nowUs) hdr
  · -- An authentic message is in the transcript for good.
    refine iff_of_false (fun same => moved ?_) fun unmarked => unmarked.2.2 authentic
    exact (congrArg Conn.handshake same :)

/-- A datagram that fails for cryptographic reasons leaves everything but the counters as it was
exactly when it comes at the time of the last activity and leaves no other mark. -/
theorem rejected_unchanged_iff (evp : Evp) (env : Env) (conn : Conn) (data : Bytes)
    (nowUs : UInt64) (failed : (connRecv evp env conn data nowUs).1 = .cryptoFail) :
    { (connRecv evp env conn data nowUs).2 with stats := conn.stats } = conn ↔
      nowUs = conn.lastActivityUs ∧ Unmarking evp conn data nowUs := by
  unfold connRecv at failed ⊢
  cases data with
  | nil => cases failed
  | cons first rest =>
    simp only at failed ⊢
    split at failed
    · cases failed
    · rename_i live
      rw [if_neg live]
      unfold Unmarking
      simp only [List.head?_cons, Option.mem_def, Option.some.injEq, forall_eq']
      split at failed
      · rename_i long
        rw [if_pos long, if_pos long]
        exact longRejected_iff failed
      · rename_i short
        rw [if_neg short, if_neg short]
        exact shortRejected_iff failed

/-- An initial packet from nowhere: the sender calls itself 9 and the payload has no valid tag. -/
def forgedInitial : Bytes :=
  [0xC0, 0, 0, 0, 1, 0, 1, 9, 0, 0x15, 0] ++ List.replicate 20 7

/-- The forged packet redirects a client that has started its handshake. -/
theorem forgedInitial_redirects :
    connStartHandshake plainEvp plainEnv (connCreate plainConfig false true) ConnId.empty =
        (.ok, startedClient) ∧
      (connRecv plainEvp plainEnv startedClient forgedInitial 5).1 = .cryptoFail ∧
      startedClient.dcid.data = [] ∧
      (connRecv plainEvp plainEnv startedClient forgedInitial 5).2.dcid.data = [9] ∧
      startedClient.lastActivityUs = 0 ∧
      (connRecv plainEvp plainEnv startedClient forgedInitial 5).2.lastActivityUs = 5 ∧
      { (connRecv plainEvp plainEnv startedClient forgedInitial 5).2 with
        stats := startedClient.stats } ≠ startedClient := by
  refine ⟨startedClient_started, by decide +kernel, by decide +kernel, by decide +kernel,
    by decide +kernel, by decide +kernel, fun same => ?_⟩
  have moved := congrArg (fun conn => conn.dcid.data) same
  exact absurd moved (by decide +kernel)

/-- A handshake packet without a sender, at a level that has no keys yet. -/
def earlyHandshake : Bytes := [0xD0, 0, 0, 0, 1, 0, 0, 1, 0]

/-- The early packet comes at the time of the last activity and changes nothing. -/
theorem rejected_unchanged_early :
    (connRecv plainEvp plainEnv startedClient earlyHandshake 0).1 = .cryptoFail ∧
      { (connRecv plainEvp plainEnv startedClient earlyHandshake 0).2 with
        stats := startedClient.stats } = startedClient := by
  have failed : (connRecv plainEvp plainEnv startedClient earlyHandshake 0).1 = .cryptoFail := by
    decide +kernel
  refine ⟨failed, (rejected_unchanged_iff plainEvp plainEnv startedClient earlyHandshake 0
    failed).mpr ⟨by decide +kernel, ?_⟩⟩
  rintro first ⟨⟩
  rw [if_pos (by decide +kernel)]
  intro hs hdr present parsed
  have header : (pktDecodeLongHeader earlyHandshake).map (fun hdr => (hdr.scid, hdr.type)) =
      some (startedClient.dcid, .handshake) := by decide +kernel
  have keyless : startedClient.handshake.map (·.handshakeKeys.available) = some false := by
    decide +kernel
  rw [parsed, Option.map_some, Option.some.injEq, Prod.mk.injEq] at header
  rw [present, Option.map_some, Option.some.injEq] at keyless
  refine ⟨fun _ => header.1, ?_⟩
  -- Opening would need the keys of the handshake level.
  rintro ⟨level, keys, payload, chosen, available, -⟩
  rw [header.2] at chosen
  cases chosen
  rw [keyless] at available
  cases available

end Nxp
