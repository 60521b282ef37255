import Nxp.Core.Exchange
import Nxp.Core.RecvLaws
import Nxp.Core.SendLaws

/-! Which datagrams reach the frame processor without having been authenticated. -/

namespace Nxp

variable {input : Env × ConnOp} {op : ConnOp}

/-- A payload came out of a call of the cipher that succeeded. -/
def Authentic (evp : Evp) (payload : Bytes) (opened : Option OpenCall) : Prop :=
  ∃ call, opened = some call ∧ call.run evp = some payload

/-- An event is not the processing of a payload that nothing vouches for. -/
def ConnEvent.Fine (evp : Evp) (event : ConnEvent) : Prop :=
  ∀ payload opened, event = .processed payload opened → Authentic evp payload opened

/-- A datagram with a well-formed short header reaches an open connection that has no keys. -/
def PlaintextDelivery (conn : Conn) : ConnOp → Prop
  | .recv data _ =>
    conn.crypto.available = false ∧ conn.state ≠ .closed ∧ conn.state ≠ .draining ∧
      data.length ≤ packetBufSize ∧ ShortFormat conn.scid.len data
  | _ => False

instance (conn : Conn) (op : ConnOp) : Decidable (PlaintextDelivery conn op) := by
  cases op <;> unfold PlaintextDelivery <;> infer_instance

/-- The payloads that were processed. -/
def processedPayloads (trace : List ConnEvent) : List Bytes :=
  trace.filterMap fun
    | .processed payload _ => some payload
    | _ => none

theorem ConnEvent.Report.fine (evp : Evp) {event : ConnEvent} (report : event.Report) :
    event.Fine evp := by
  rintro payload opened rfl
  exact report.elim

theorem openShort_authentic {evp : Evp} {conn : Conn} {pkt payload : Bytes} {hdrLen : Nat}
    {fullPn : UInt64} {opened : Option OpenCall} (available : conn.crypto.available = true)
    (result : openShort evp conn pkt hdrLen fullPn = some (payload, opened)) :
    Authentic evp payload opened := by
  unfold openShort at result
  rw [if_pos available, Option.map_eq_some_iff] at result
  obtain ⟨_, ran, pair⟩ := result
  cases pair
  exact ⟨_, rfl, ran⟩

section Keyless

variable {conn : Conn} (keyless : conn.crypto.available = false) (evp : Evp) (env : Env)
include keyless

theorem unprotectShort_keyless (data : Bytes) :
    unprotectShort evp conn data = some data := by
  unfold unprotectShort
  rw [keyless, if_neg Bool.false_ne_true]

theorem openShort_keyless (pkt : Bytes) (hdrLen : Nat) (fullPn : UInt64) :
    openShort evp conn pkt hdrLen fullPn = some (pkt.drop hdrLen, none) := by
  unfold openShort
  rw [keyless, if_neg Bool.false_ne_true]

theorem recvShortPacket_unparsed {data : Bytes} (nowUs : UInt64)
    (unparsed : pktDecodeShortHeader data conn.scid.len conn.scid.bounded = none) :
    recvShortPacket evp env conn data nowUs = (.invalidPacket, conn) := by
  unfold recvShortPacket
  split
  · rfl
  · simp only [unprotectShort_keyless keyless, unparsed]

theorem recvShortPacket_plaintext {data : Bytes} {hdr : PktShortHeader} (nowUs : UInt64)
    (short : data.length ≤ packetBufSize)
    (parsed : pktDecodeShortHeader data conn.scid.len conn.scid.bounded = some hdr) :
    ∃ events, (recvShortPacket evp env conn data nowUs).2.trace =
      conn.trace ++ .processed (data.drop hdr.headerLen) none :: events := by
  unfold recvShortPacket processFrames
  rw [if_neg (by omega)]
  -- The payload is recorded before its frames are looked at, and these only add to the trace.
  have opened (ack : AckState) (fullPn : UInt64) : openShort evp { conn with ack := ack } data
      hdr.headerLen fullPn = some (data.drop hdr.headerLen, none) :=
    openShort_keyless (by exact keyless) evp data hdr.headerLen fullPn
  simp only [unprotectShort_keyless keyless, parsed, opened]
  obtain ⟨events, trace, -⟩ := (processLoop_emits env nowUs _ _ _).events
  rw [trace]
  exact ⟨events, by simp [Conn.observe]⟩

end Keyless

section Guarded

variable {conn : Conn} {data : Bytes} {nowUs : UInt64}
  (guarded : ¬ PlaintextDelivery conn (.recv data nowUs)) (evp : Evp) (env : Env)
include guarded

/-- Without keys, short packets that are no plaintext delivery are at most counted. -/
theorem connRecv_keyless (keyless : conn.crypto.available = false)
    (short : ∀ first ∈ data.head?, pktIsLongHeader first = false) :
    (connRecv evp env conn data nowUs).2 = conn ∨
      (connRecv evp env conn data nowUs).2 = noteRecv conn data.length nowUs := by
  unfold connRecv
  split
  · exact .inl rfl
  · rename_i first rest
    split
    · exact .inl rfl
    · rename_i live
      rw [not_or] at live
      rw [short first rfl]
      simp only [Bool.false_eq_true, if_false]
      right
      by_cases long : (first :: rest).length > packetBufSize
      · unfold recvShortPacket
        rw [if_pos long]
      · -- The header cannot parse, or this would be a plaintext delivery.
        have unparsed : pktDecodeShortHeader (first :: rest) conn.scid.len
            conn.scid.bounded = none := by
          by_contra parsed
          have format := (pktDecodeShortHeader_format _ _ conn.scid.bounded).mp
            (Option.isSome_iff_ne_none.mpr parsed)
          exact guarded ⟨keyless, live.1, live.2, by omega, format⟩
        rw [recvShortPacket_unparsed (by exact keyless) evp env nowUs (by exact unparsed)]

/-- Unless it is a plaintext delivery, a datagram lets only authentic payloads be processed. -/
theorem connRecv_fine :
    Emits (ConnEvent.Fine evp) conn (connRecv evp env conn data nowUs).2 := by
  have noted (len : Nat) : Emits (ConnEvent.Fine evp) conn (noteRecv conn len nowUs) :=
    Emits.silent rfl rfl rfl rfl
  cases keyless : conn.crypto.available with
  | true =>
    apply connRecv_emits (fun _ report => report.fine evp)
    intro next crypto pkt hdrLen fullPn payload opened result _ _ same
    cases same
    exact openShort_authentic (by rw [crypto]; exact keyless) result
  | false =>
    by_cases short : ∀ first ∈ data.head?, pktIsLongHeader first = false
    · rcases connRecv_keyless guarded evp env keyless short with same | counted
      · rw [same]
        exact Emits.refl conn
      · rw [counted]
        exact noted data.length
    · -- A long header never leads to the frame processor.
      unfold connRecv
      split
      · exact Emits.refl conn
      · rename_i first rest
        split
        · exact Emits.refl conn
        · have long : pktIsLongHeader first = true := by simpa using short
          rw [if_pos long]
          exact (noted _).trans (Emits.of_negotiates (Negotiates.recvHandshakePacket evp _ _))

end Guarded

theorem connRecv_plaintext (evp : Evp) (env : Env) {conn : Conn} {data : Bytes} {nowUs : UInt64}
    (delivery : PlaintextDelivery conn (.recv data nowUs)) :
    ∃ payload events, (connRecv evp env conn data nowUs).2.trace =
      conn.trace ++ .processed payload none :: events := by
  obtain ⟨keyless, notClosed, notDraining, short, format⟩ := delivery
  obtain ⟨hdr, parsed⟩ := Option.isSome_iff_exists.mp
    ((pktDecodeShortHeader_format _ _ conn.scid.bounded).mpr format)
  obtain ⟨first, rest, rfl, header⟩ := format.short
  unfold connRecv
  simp only
  rw [if_neg (not_or.mpr ⟨notClosed, notDraining⟩), header, if_neg Bool.false_ne_true]
  have keyless : (noteRecv conn (first :: rest).length nowUs).crypto.available = false := keyless
  obtain ⟨events, trace⟩ := recvShortPacket_plaintext keyless evp env nowUs short parsed
  exact ⟨_, events, trace⟩

/-- What the connection lets through before it has keys changes neither its streams nor its state.
-/
def KeylessInert (evp : Evp) (conn : Conn) : Env × ConnOp → Prop
  | (env, .recv data nowUs) =>
    conn.crypto.available = false → (∀ first ∈ data.head?, pktIsLongHeader first = false) →
      (connRecv evp env conn data nowUs).2.streams = conn.streams ∧
      (connRecv evp env conn data nowUs).2.state = conn.state ∧
      (connRecv evp env conn data nowUs).2.trace = conn.trace
  | _ => True

theorem keylessInert_of_guarded (evp : Evp) {conn : Conn}
    (guarded : ¬ PlaintextDelivery conn input.2) : KeylessInert evp conn input := by
  obtain ⟨env, op⟩ := input
  cases op with
  | recv data nowUs =>
    intro keyless short
    rcases connRecv_keyless guarded evp env keyless short with same | counted
    · rw [same]
      exact ⟨rfl, rfl, rfl⟩
    · rw [counted]
      exact ⟨rfl, rfl, rfl⟩
  | _ => trivial

theorem connStep_fine {evp : Evp} {conn next : Conn} {env : Env}
    (guarded : ¬ PlaintextDelivery conn op) (stepped : connStep evp conn (env, op) = some next) :
    ∃ events, next.trace = conn.trace ++ events ∧ ∀ event ∈ events, event.Fine evp := by
  by_cases here : op.Local
  · exact ((connStep_local here stepped).mono fun _ report => report.fine evp).events
  · cases op with
    | startHandshake peerCid =>
      cases stepped
      exact ⟨[], by simp [(connStartHandshake_only evp env conn peerCid).trace], by simp⟩
    | recv data nowUs =>
      cases stepped
      exact (connRecv_fine guarded evp env).events
    | send maxLen nowUs =>
      simp only [connStep, Option.map_eq_some_iff] at stepped
      obtain ⟨⟨result, _⟩, sent, rfl⟩ := stepped
      -- Sending records at most that a packet was sealed.
      obtain ⟨level, -, ⟨same, -⟩ | ⟨keys, trace, -⟩⟩ := (connSend_sent sent).counts.counted
      · exact ⟨[], by simp [same], by simp⟩
      · exact ⟨_, trace, by simp [ConnEvent.Fine]⟩
    | _ => exact absurd trivial here

theorem connStep_plaintext {evp : Evp} {conn next : Conn} {env : Env}
    (delivery : PlaintextDelivery conn op) (stepped : connStep evp conn (env, op) = some next) :
    ∃ payload events, next.trace = conn.trace ++ .processed payload none :: events := by
  cases op with
  | recv data nowUs =>
    cases stepped
    exact connRecv_plaintext evp env delivery
  | _ => exact delivery.elim

theorem connStep_extends {evp : Evp} {conn next : Conn}
    (stepped : connStep evp conn input = some next) : conn.trace <+: next.trace := by
  by_cases delivery : PlaintextDelivery conn input.2
  · obtain ⟨_, _, trace⟩ := connStep_plaintext delivery stepped
    exact ⟨_, trace.symm⟩
  · obtain ⟨_, trace, _⟩ := connStep_fine delivery stepped
    exact ⟨_, trace.symm⟩

/-- Once a handshake was started, every payload processed is authentic and short packets do nothing
before there are keys, exactly when no datagram of the run is a plaintext delivery. -/
theorem processed_authentic_iff {evp : Evp} {env : Env} {conn start final : Conn}
    {peerCid : ConnId} {inputs : List (Env × ConnOp)}
    (started : connStartHandshake evp env conn peerCid = (.ok, start))
    (reached : Machine.attempt (connStep evp) start inputs = some final) :
    ((∀ payload opened, .processed payload opened ∈ final.trace.drop conn.trace.length →
          Authentic evp payload opened) ∧
        Machine.Throughout (connStep evp) (KeylessInert evp) start inputs) ↔
      Machine.Throughout (connStep evp) (fun conn input => ¬ PlaintextDelivery conn input.2)
        start inputs := by
  have same : start.trace = conn.trace := by
    have only := connStartHandshake_only evp env conn peerCid
    rw [started] at only
    exact only.trace
  rw [← same]
  -- What was observed since the start is fine until a plaintext delivery, and never again after it.
  have settled : (∀ event ∈ final.trace.drop start.trace.length, event.Fine evp) ↔
      Machine.Throughout (connStep evp) (fun conn input => ¬ PlaintextDelivery conn input.2)
        start inputs := by
    refine Machine.attempt_iff (fun conn input => PlaintextDelivery conn input.2)
      (fun conn => start.trace.length ≤ conn.trace.length)
      (fun conn => ∀ event ∈ conn.trace.drop start.trace.length, event.Fine evp)
      ?_ ?_ ?_ ?_ le_rfl ?_ reached
    · intro before input next long stepped
      exact long.trans (connStep_extends stepped).length_le
    · intro before input next long fine guarded stepped
      obtain ⟨events, trace, sound⟩ := connStep_fine guarded stepped
      rw [trace, List.drop_append_of_le_length long]
      intro event member
      exact (List.mem_append.mp member).elim (fine event) (sound event)
    · intro before input next long delivery stepped fine
      obtain ⟨payload, events, trace⟩ := connStep_plaintext delivery stepped
      rw [trace, List.drop_append_of_le_length long] at fine
      obtain ⟨call, absent, -⟩ := fine (.processed payload none) (by simp) payload none rfl
      cases absent
    · intro before input next long rotten stepped fine
      obtain ⟨events, trace⟩ := connStep_extends stepped
      rw [← trace, List.drop_append_of_le_length long] at fine
      exact rotten fun event member => fine event (List.mem_append_left _ member)
    · simp
  rw [← settled]
  constructor
  · rintro ⟨authentic, -⟩ event member payload opened rfl
    exact authentic payload opened member
  · intro fine
    refine ⟨fun payload opened member => fine _ member payload opened rfl, ?_⟩
    exact (settled.mp fine).mono fun _ _ => keylessInert_of_guarded evp

/-- A client drops a stray octet, sends its hello and takes what the server answers. -/
def answeredRun : List (Env × ConnOp) :=
  (plainEnv, .recv [0x40] 0) :: (plainEnv, .send 1200 0) ::
    (plainLink greeting).sentB.map fun posted => (plainEnv, .recv posted.bytes 0)

/-- The stray octet does nothing, and the notice that the server confirms the handshake with is the
one payload that is processed: it is authentic. -/
theorem processed_authentic_answered :
    ∃ final, Machine.attempt (connStep plainEvp) startedClient answeredRun = some final ∧
      processedPayloads final.trace = [[0x1E, 0, 0, 0]] ∧
      (∀ payload opened, .processed payload opened ∈ final.trace.drop 0 →
        Authentic plainEvp payload opened) ∧
      Machine.Throughout (connStep plainEvp) (KeylessInert plainEvp) startedClient answeredRun := by
  have ran : (Machine.attempt (connStep plainEvp) startedClient answeredRun).map
      (fun final => processedPayloads final.trace) = some [[0x1E, 0, 0, 0]] ∧
      Machine.Throughout (connStep plainEvp) (fun conn input => ¬ PlaintextDelivery conn input.2)
        startedClient answeredRun := by decide +kernel
  obtain ⟨⟨final, reached, payloads⟩, guarded⟩ := ran.imp_left Option.map_eq_some_iff.mp
  exact ⟨final, reached, payloads,
    (processed_authentic_iff startedClient_started reached).mpr guarded⟩

/-- A short packet that anyone can write: packet number 0 and one octet for stream 1. -/
def forgedStream : Bytes := [0x40, 0x00, 0x0A, 0x01, 0x01, 0x41]

/-- The forged packet is processed before there are keys: it creates its stream, whose octet can
then be read. -/
theorem forgedStream_processed :
    connStartHandshake plainEvp plainEnv (connCreate plainConfig false true) ConnId.empty =
        (.ok, startedClient) ∧
      startedClient.crypto.available = false ∧ startedClient.stream 1 = none ∧
      .processed [0x0A, 0x01, 0x01, 0x41] none ∈
        (connRecv plainEvp plainEnv startedClient forgedStream 0).2.trace ∧
      ¬ Authentic plainEvp [0x0A, 0x01, 0x01, 0x41] none ∧
      ((connRecv plainEvp plainEnv startedClient forgedStream 0).2.stream 1).map
        (fun s => (streamRead s 10).1) = some [0x41] := by
  refine ⟨startedClient_started, by decide +kernel, by decide +kernel, by decide +kernel, ?_,
    by decide +kernel⟩
  rintro ⟨call, absent, -⟩
  cases absent

end Nxp
