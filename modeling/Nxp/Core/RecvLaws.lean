import Nxp.Core.ConnLaws

/-! What received datagrams and the remaining operations touch, and what an observer sees of them.
-/

namespace Nxp

variable (evp : Evp) {before after first second third : Conn} {allowed : ConnEvent → Prop}
  {op : ConnOp}

/-- Putting a new stream into the map changes streams only. -/
theorem storeStream_only (env : Env) (conn : Conn) (id : UInt64) (s : Stream) :
    StreamsOnly conn (storeStream env conn id s) := by
  unfold storeStream
  split
  · exact StreamsOnly.setStream conn id s
  · exact StreamsOnly.refl conn

/-- A new limit of a stream changes streams only. -/
theorem recvMaxStreamData_only (conn : Conn) (streamId maxStreamData : UInt64) :
    StreamsOnly conn (recvMaxStreamData conn streamId maxStreamData) := by
  unfold recvMaxStreamData
  split
  · exact StreamsOnly.refl conn
  · simp only
    split
    · exact (StreamsOnly.setStream conn _ _).trans (schedAdd_relinks _ _).only
    · exact StreamsOnly.setStream conn _ _

namespace Transfers

/-- A stream the peer opens is only reported on. -/
theorem openRemoteStream (env : Env) (conn : Conn) (streamId : UInt64) :
    Transfers conn (openRemoteStream env conn streamId).2 := by
  unfold Nxp.openRemoteStream
  apply (of_streamsOnly (storeStream_only env conn streamId _)).trans
  simp only
  split
  · exact report rfl rfl trivial
  · exact silent rfl rfl

/-- Stream data is a transfer. -/
theorem recvStreamFrame (env : Env) (conn : Conn) (frame : FrameStream) :
    Transfers conn (recvStreamFrame env conn frame).2 := by
  unfold Nxp.recvStreamFrame
  split
  · exact of_streamsOnly (StreamsOnly.setStream conn _ _)
  · split
    · exact refl conn
    · split
      · exact refl conn
      · exact (openRemoteStream env conn frame.streamId).trans
          (of_streamsOnly (StreamsOnly.modifyStream _ _ _))

theorem tracked (transfers : Transfers before after)
    (ack : AckState) (asked : Bool) (stats : ConnStats) :
    Transfers { before with ack := ack, sendPing := asked }
      { after with ack := ack, sendPing := asked, stats := stats } := by
  refine ⟨?_, transfers.reports⟩
  have only := transfers.only
  unfold TransferOnly at only ⊢
  rw [only]

/-- An acknowledgement is a transfer, the tracker apart. -/
theorem recvAckFrame (conn : Conn) (frame : FrameAck) (nowUs : UInt64) :
    Transfers { conn with ack := (recvAckFrame conn frame nowUs).ack }
      (recvAckFrame conn frame nowUs) := by
  -- Each callback is a transfer, so all of them are.
  have walked : Transfers conn
      (ackOnAckRecv Nxp.onPacketAcked Nxp.onPacketLost conn.ack frame nowUs conn).2 :=
    ackOnAckRecv_invariant (fun _ ctx => Transfers conn ctx)
      (fun _ pkt _ ack ctx before => before.trans (onPacketAcked ack pkt ctx))
      (fun _ _ _ _ _ before => before)
      (fun _ pkt _ ack ctx _ before => before.trans (onPacketLost ack _ ctx))
      conn.ack frame nowUs (refl conn)
  have asked := (congrArg Conn.sendPing walked.only :)
  unfold Nxp.recvAckFrame
  cases result : ackOnAckRecv Nxp.onPacketAcked Nxp.onPacketLost conn.ack frame nowUs conn with
  | mk ack ctx =>
    rw [result] at walked asked
    simp only
    rw [← asked]
    exact walked.tracked ack _ _

/-- A fired loss timer is a transfer, the tracker and the request for a ping apart. -/
theorem lossTimer (conn : Conn) (nowUs : UInt64) :
    Transfers { conn with
        ack := (lossTimer conn nowUs).ack
        sendPing := (lossTimer conn nowUs).sendPing }
      (lossTimer conn nowUs) := by
  have walked : Transfers conn (ackOnLossTimeout Nxp.onPacketLost conn.ack nowUs conn).2 :=
    ackOnLossTimeout_invariant (fun _ ctx => Transfers conn ctx)
      (fun _ _ _ _ _ before => before)
      (fun _ pkt _ ack ctx _ before => before.trans (onPacketLost ack _ ctx))
      conn.ack nowUs (refl conn)
  unfold Nxp.lossTimer
  simp only
  split
  · split <;> exact walked.tracked _ _ _
  · exact refl conn

end Transfers

/-- Only what is settled between the two ends may differ. -/
def ControlOnly (before after : Conn) : Prop :=
  after = { before with
    state := after.state
    dcid := after.dcid
    peerAddr := after.peerAddr
    handshake := after.handshake
    migration := after.migration
    heartbeat := after.heartbeat
    connFlow := after.connFlow
    peerMaxStreamsBidi := after.peerMaxStreamsBidi
    peerMaxStreamsUni := after.peerMaxStreamsUni }

/-- Whether a frame is about the transfer of data. -/
def Frame.transfers : Frame → Bool
  | .ack _ | .stream _ | .maxStreamData _ _ => true
  | _ => false

section Frames

variable (env : Env) (conn : Conn) {frame : Frame} (nowUs : UInt64)

/-- A move between states moves nothing else. -/
theorem setConnState_only (target : ConnState) :
    setConnState conn target = { conn with state := (setConnState conn target).state } := by
  unfold setConnState
  split <;> rfl

/-- The end of the handshake settles only what a handshake settles. -/
theorem recvHandshakeDone_only :
    recvHandshakeDone conn = { conn with
      state := (recvHandshakeDone conn).state
      handshake := (recvHandshakeDone conn).handshake
      connFlow := (recvHandshakeDone conn).connFlow
      peerMaxStreamsBidi := (recvHandshakeDone conn).peerMaxStreamsBidi
      peerMaxStreamsUni := (recvHandshakeDone conn).peerMaxStreamsUni } := by
  unfold recvHandshakeDone
  split
  · rfl
  · split
    · rename_i done _
      unfold applyPeerParams setConnState
      split <;> split <;> rfl
    · rfl

/-- The answer to a challenge changes paths and identifiers only. -/
theorem recvPathResponse_only (data : Vector UInt8 8) :
    recvPathResponse conn data = { conn with
      dcid := (recvPathResponse conn data).dcid
      peerAddr := (recvPathResponse conn data).peerAddr
      migration := (recvPathResponse conn data).migration } := by
  unfold recvPathResponse
  split
  · rfl
  · simp only
    split <;> rfl

/-- A ticket is kept with the handshake. -/
theorem recvNewToken_only (token : Bytes) :
    recvNewToken conn token = { conn with handshake := (recvNewToken conn token).handshake } := by
  unfold recvNewToken
  split
  · rfl
  · split <;> rfl

/-- A frame about data moves only what data moves, the tracker apart. -/
theorem processFrame_transfer (about : frame.transfers = true) :
    Transfers { conn with ack := (processFrame env conn frame nowUs).2.ack }
      (processFrame env conn frame nowUs).2 := by
  -- Only an acknowledgement is about the tracker.
  have untracked {after : Conn} (transfers : Transfers conn after) :
      Transfers { conn with ack := after.ack } after := by
    rw [(congrArg Conn.ack transfers.only :)]
    exact transfers
  cases frame with
  | ack f => exact Transfers.recvAckFrame conn f nowUs
  | stream f => exact untracked (Transfers.recvStreamFrame env conn f)
  | maxStreamData streamId limit =>
    exact untracked (Transfers.of_streamsOnly (recvMaxStreamData_only conn streamId limit))
  | _ => cases about

/-- Any other frame settles only what is settled between the two ends. -/
theorem processFrame_control (other : frame.transfers = false) :
    ControlOnly conn (processFrame env conn frame nowUs).2 := by
  cases frame with
  | ack f => cases other
  | stream f => cases other
  | maxStreamData streamId limit => cases other
  | maxStreams limit isBidi => cases isBidi <;> rfl
  | connectionClose f =>
    show ControlOnly conn (setConnState conn .draining)
    rw [setConnState_only]
    rfl
  | handshakeDone =>
    show ControlOnly conn (recvHandshakeDone conn)
    rw [recvHandshakeDone_only]
    rfl
  | pathResponse data =>
    show ControlOnly conn (recvPathResponse conn data)
    rw [recvPathResponse_only]
    rfl
  | newToken token =>
    show ControlOnly conn (recvNewToken conn token)
    rw [recvNewToken_only]
    rfl
  | _ => rfl

end Frames

/-- What every frame preserves, the frames of a payload preserve. -/
theorem processLoop_invariant (invariant : Conn → Prop) (env : Env) (nowUs : UInt64)
    (preserved : ∀ conn frame, invariant conn → invariant (processFrame env conn frame nowUs).2)
    (fuel : Nat) {conn : Conn} (start : invariant conn) (payload : Bytes) :
    invariant (processLoop env nowUs fuel conn payload).2 := by
  -- The induction is on the frames that may still come.
  induction fuel generalizing conn payload with
  | zero => exact start
  | succ fuel ih =>
    unfold processLoop
    split
    · exact start
    · split
      · exact start
      · rename_i frame rest _
        have taken := preserved conn frame start
        split
        · rename_i result
          rw [result] at taken
          exact ih taken rest
        · rename_i result
          rw [result] at taken
          exact taken

theorem processLongLoop_invariant (invariant : Conn → Prop) (evp : Evp) (level : CryptoLevel)
    (preserved : ∀ conn frame, invariant conn →
      invariant (processLongFrame evp conn level frame).2)
    (fuel : Nat) {conn : Conn} (start : invariant conn) (payload : Bytes) :
    invariant (processLongLoop evp level fuel conn payload).2 := by
  induction fuel generalizing conn payload with
  | zero => exact start
  | succ fuel ih =>
    unfold processLongLoop
    split
    · exact start
    · split
      · exact start
      · rename_i frame rest _
        have taken := preserved conn frame start
        split
        · rename_i result
          rw [result] at taken
          exact ih taken rest
        · rename_i result
          rw [result] at taken
          exact taken

/-- What learning the identifier and every frame preserve, a packet with a long header preserves. -/
theorem recvHandshakePacket_invariant (invariant : Conn → Prop) (evp : Evp) {conn : Conn}
    (start : invariant conn) (learnt : ∀ hdr, invariant (learnDcid conn hdr))
    (preserved : ∀ conn level frame, invariant conn →
      invariant (processLongFrame evp conn level frame).2) (data : Bytes) :
    invariant (recvHandshakePacket evp conn data).2 := by
  unfold recvHandshakePacket
  split
  · exact start
  · split
    · exact start
    · split
      · exact start
      · -- The identifier is learnt before anything else can fail.
        split
        · exact learnt _
        · split
          · exact learnt _
          · split
            · exact learnt _
            · exact processLongLoop_invariant invariant evp _ (fun conn => preserved conn _) _
                (learnt _) _

/-- A connection that noted a datagram and the number of its packet. -/
def Conn.recorded (conn : Conn) (len : Nat) (nowUs pktNum : UInt64) : Conn :=
  { noteRecv conn len nowUs with ack := ackOnPktRecv conn.ack pktNum nowUs true }

/-- What holds of a connection that noted a datagram, however it then opened it, and is preserved by
every frame, holds of the connection after the datagram. -/
theorem connRecv_invariant (invariant : Conn → Prop) {evp : Evp} {env : Env} {conn : Conn}
    {data : Bytes} {nowUs : UInt64} (start : invariant conn)
    (noted : invariant (noteRecv conn data.length nowUs))
    (long : invariant (recvHandshakePacket evp (noteRecv conn data.length nowUs) data).2)
    (unopened : ∀ pktNum, invariant (conn.recorded data.length nowUs pktNum))
    (opened : ∀ pktNum pkt hdrLen payload opening,
      openShort evp (conn.recorded data.length nowUs pktNum) pkt hdrLen pktNum =
        some (payload, opening) →
      invariant ((conn.recorded data.length nowUs pktNum).observe (.processed payload opening)))
    (preserved : ∀ conn frame, invariant conn → invariant (processFrame env conn frame nowUs).2) :
    invariant (connRecv evp env conn data nowUs).2 := by
  cases data with
  | nil => exact start
  | cons first rest =>
    unfold connRecv
    simp only
    split
    · exact start
    · split
      · exact long
      · unfold recvShortPacket
        split
        · exact noted
        · split
          · exact noted
          · split
            · exact noted
            · simp only
              split
              · exact unopened _
              · rename_i result
                exact processLoop_invariant invariant env nowUs preserved _ (opened _ _ _ _ _ result) _

/-- Only what a handshake settles may differ. -/
def HandshakeOnly (before after : Conn) : Prop :=
  after = { before with
    dcid := after.dcid
    state := after.state
    crypto := after.crypto
    handshake := after.handshake
    peerMaxStreamsBidi := after.peerMaxStreamsBidi
    peerMaxStreamsUni := after.peerMaxStreamsUni
    connFlow := after.connFlow }

namespace HandshakeOnly

/-- Two steps of a handshake are one. -/
theorem trans (left : HandshakeOnly first second)
    (right : HandshakeOnly second third) : HandshakeOnly first third := by
  unfold HandshakeOnly at *
  rw [right, left]

/-- A handshake is not reported on. -/
theorem trace (only : HandshakeOnly before after) :
    after.trace = before.trace := (congrArg Conn.trace only :)

/-- A move between states is part of a handshake. -/
theorem setConnState (conn : Conn) (target : ConnState) :
    HandshakeOnly conn (setConnState conn target) := by
  rw [setConnState_only]
  rfl

/-- The peer's limits are part of a handshake. -/
theorem applyPeerParams (conn : Conn) (hs : Handshake) :
    HandshakeOnly conn (applyPeerParams conn hs) := by
  unfold Nxp.applyPeerParams
  split <;> rfl

end HandshakeOnly

/-- Applying the peer's limits leaves the handshake alone. -/
theorem applyPeerParams_handshake (conn : Conn) (hs : Handshake) :
    (applyPeerParams conn hs).handshake = conn.handshake := by
  unfold applyPeerParams
  split <;> rfl

/-- A move between states leaves the handshake alone. -/
theorem setConnState_handshake (conn : Conn) (target : ConnState) :
    (setConnState conn target).handshake = conn.handshake :=
  (congrArg Conn.handshake (setConnState_only conn target) :)

/-- Completing a handshake is an advance. -/
theorem handshakeOnHandshakeDone_advances (hs : Handshake) :
    Advances hs (handshakeOnHandshakeDone hs).2 := by
  unfold handshakeOnHandshakeDone
  split <;> exact ⟨rfl, rfl, rfl, Nat.le_refl _⟩

/-- The identifier of the peer is all that is learnt from a header. -/
theorem learnDcid_only (conn : Conn) (hdr : PktLongHeader) :
    learnDcid conn hdr = { conn with dcid := (learnDcid conn hdr).dcid } := by
  unfold learnDcid
  split_ifs <;> rfl

/-- Only what a handshake settles differs, a handshake under way goes on and none is started, the
connection stays where it is or is established, and the peer's limit is only set. -/
structure Negotiates (before after : Conn) : Prop where
  only : HandshakeOnly before after
  absent : before.handshake = none → after.handshake = none
  advances : ∀ hs, before.handshake = some hs →
    ∃ later, after.handshake = some later ∧ Advances hs later
  moved : after.state = before.state ∨ after.state = .established
  granted : ∃ limits : List UInt64, after.connFlow = limits.foldl flowSetPeerMax before.connFlow

namespace Negotiates

variable {conn : Conn} {hs later : Handshake}

theorem settles (only : HandshakeOnly before after) (handshake : after.handshake = before.handshake)
    (moved : after.state = before.state ∨ after.state = .established)
    (granted : ∃ limits : List UInt64,
      after.connFlow = limits.foldl flowSetPeerMax before.connFlow) : Negotiates before after :=
  ⟨only, handshake.trans, fun hs present => ⟨hs, handshake.trans present, Advances.refl hs⟩, moved,
    granted⟩

theorem refl (conn : Conn) : Negotiates conn conn := settles rfl rfl (.inl rfl) ⟨[], rfl⟩

theorem trans (left : Negotiates first second)
    (right : Negotiates second third) : Negotiates first third := by
  refine ⟨left.only.trans right.only, fun absent => right.absent (left.absent absent), ?_, ?_, ?_⟩
  · intro hs present
    obtain ⟨between, middle, early⟩ := left.advances hs present
    obtain ⟨later, last, late⟩ := right.advances between middle
    exact ⟨later, last, early.trans late⟩
  · rcases right.moved with same | established
    · rw [same]
      exact left.moved
    · exact .inr established
  · obtain ⟨early, first⟩ := left.granted
    obtain ⟨late, last⟩ := right.granted
    exact ⟨early ++ late, by rw [last, first, List.foldl_append]⟩

/-- A connection that negotiates does not become idle. -/
theorem idle (negotiates : Negotiates before after)
    (idle : after.state = .idle) : before.state = .idle := by
  rcases negotiates.moved with same | established
  · exact same.symm.trans idle
  · rw [established] at idle
    cases idle

theorem advance (present : conn.handshake = some hs) (advances : Advances hs later) :
    Negotiates conn { conn with handshake := some later } := by
  refine ⟨rfl, fun absent => ?_, fun other same => ⟨later, rfl, ?_⟩, .inl rfl, ⟨[], rfl⟩⟩
  · rw [present] at absent
    cases absent
  · rw [present] at same
    cases same
    exact advances

theorem established (conn : Conn) (hs : Handshake) :
    Negotiates conn (applyPeerParams (setConnState conn .established) hs) := by
  refine settles ((HandshakeOnly.setConnState _ _).trans (HandshakeOnly.applyPeerParams _ _)) ?_ ?_
    ?_
  · rw [applyPeerParams_handshake, setConnState_handshake]
  · unfold applyPeerParams setConnState
    split <;> split <;> simp
  · have flow := (congrArg Conn.connFlow (setConnState_only conn .established) :)
    unfold applyPeerParams
    split
    · by_cases announced : hs.peerParams.initialMaxData > 0
      · exact ⟨[hs.peerParams.initialMaxData], by simp only [if_pos announced, flow]; rfl⟩
      · exact ⟨[], by simp only [if_neg announced, flow]; rfl⟩
    · exact ⟨[], flow⟩

theorem learnDcid (conn : Conn) (hdr : PktLongHeader) :
    Negotiates conn (learnDcid conn hdr) := by
  rw [learnDcid_only]
  exact settles rfl rfl (.inl rfl) ⟨[], rfl⟩

theorem installKeys (conn : Conn) (hs : Handshake) :
    Negotiates conn (installKeys conn hs) := by
  unfold Nxp.installKeys
  split <;> exact settles rfl rfl (.inl rfl) ⟨[], rfl⟩

theorem recvCryptoFrame (present : conn.handshake = some hs) (level : CryptoLevel) (data : Bytes) :
    Negotiates conn (recvCryptoFrame evp conn hs level data).2 := by
  have taken := (handshakeRecvCrypto_takes evp hs level data).advances
  unfold Nxp.recvCryptoFrame
  split
  · rename_i taker result
    rw [result] at taken
    have installed := (advance present taken).trans (installKeys _ taker)
    simp only
    split
    · exact installed.trans (established _ _)
    · exact installed
  · rename_i result
    rw [result] at taken
    exact advance present taken

theorem recvLongHandshakeDone (present : conn.handshake = some hs) :
    Negotiates conn (recvLongHandshakeDone conn hs).2 := by
  have advances := handshakeOnHandshakeDone_advances hs
  unfold Nxp.recvLongHandshakeDone
  split
  · rename_i done result
    rw [result] at advances
    have installed : Negotiates { conn with handshake := some done }
        { conn with handshake := some done, crypto := done.appKeys } :=
      settles rfl rfl (.inl rfl) ⟨[], rfl⟩
    exact ((advance present advances).trans installed).trans (established _ _)
  · rename_i result
    rw [result] at advances
    exact advance present advances

theorem processLongFrame (conn : Conn) (level : CryptoLevel) (frame : Frame) :
    Negotiates conn (processLongFrame evp conn level frame).2 := by
  unfold Nxp.processLongFrame
  split
  · rename_i present
    exact recvCryptoFrame evp present level _
  · rename_i present
    exact recvLongHandshakeDone present
  · exact refl conn

/-- A packet with a long header is part of a handshake. -/
theorem recvHandshakePacket (conn : Conn) (data : Bytes) :
    Negotiates conn (recvHandshakePacket evp conn data).2 := by
  apply recvHandshakePacket_invariant (Negotiates conn) evp (refl conn) (learnDcid conn)
  intro middle level frame settled
  exact settled.trans (processLongFrame evp middle level frame)

/-- The notice that the server is done is part of a handshake. -/
theorem recvHandshakeDone (conn : Conn) : Negotiates conn (recvHandshakeDone conn) := by
  unfold Nxp.recvHandshakeDone
  split
  · exact refl conn
  · rename_i hs present
    have advances := handshakeOnHandshakeDone_advances hs
    split
    · rename_i result
      rw [result] at advances
      exact (advance present advances).trans (established _ _)
    · rename_i result
      rw [result] at advances
      exact advance present advances

/-- A ticket is part of a handshake. -/
theorem recvNewToken (conn : Conn) (token : Bytes) : Negotiates conn (recvNewToken conn token) := by
  unfold Nxp.recvNewToken
  split
  · exact refl conn
  · rename_i present
    split
    · exact refl conn
    · exact advance present ⟨rfl, rfl, rfl, Nat.le_refl _⟩

end Negotiates

/-- A packet with a long header settles only what a handshake settles. -/
theorem HandshakeOnly.recvHandshakePacket (conn : Conn) (data : Bytes) :
    HandshakeOnly conn (recvHandshakePacket evp conn data).2 :=
  (Negotiates.recvHandshakePacket evp conn data).only

/-- Nothing is seen of a handshake. -/
theorem Emits.of_negotiates
    (negotiates : Negotiates before after) : Emits allowed before after := by
  refine ⟨⟨[], ?_, nofun⟩, ?_, negotiates.idle, negotiates.absent⟩
  · rw [negotiates.only.trace, List.append_nil]
  · have number := (congrArg Conn.nextPktNum negotiates.only :)
    intro level
    cases present : before.handshake with
    | none => cases level <;> simp [sealCounter, number, present, negotiates.absent present]
    | some hs =>
      obtain ⟨later, same, advances⟩ := negotiates.advances hs present
      cases level <;>
        simp [sealCounter, number, present, same, advances.initialPn, advances.handshakePn]

theorem processFrame_emits (env : Env) (conn : Conn) (frame : Frame) (nowUs : UInt64) :
    Emits ConnEvent.Report conn (processFrame env conn frame nowUs).2 := by
  cases about : frame.transfers with
  | true =>
    have tracked : Emits ConnEvent.Report conn
        { conn with ack := (processFrame env conn frame nowUs).2.ack } :=
      Emits.silent rfl rfl rfl rfl
    exact tracked.trans (Emits.of_transfers (processFrame_transfer env conn nowUs about))
  | false =>
    cases frame with
    | connectionClose f => exact Emits.setConnState conn (by decide)
    | handshakeDone => exact Emits.of_negotiates (Negotiates.recvHandshakeDone conn)
    | newToken token => exact Emits.of_negotiates (Negotiates.recvNewToken conn token)
    -- The other frames touch limits, paths, identifiers and heartbeats, or nothing at all.
    | pathResponse data =>
      have settled := recvPathResponse_only conn data
      exact Emits.silent (congrArg Conn.trace settled :) (congrArg Conn.nextPktNum settled :)
        (congrArg Conn.handshake settled :) (congrArg Conn.state settled :)
    | maxStreams limit isBidi => cases isBidi <;> exact Emits.silent rfl rfl rfl rfl
    | ack f => cases about
    | stream f => cases about
    | maxStreamData streamId limit => cases about
    | _ => exact Emits.silent rfl rfl rfl rfl

/-- The frames of a payload are only reported on. -/
theorem processLoop_emits (env : Env) (nowUs : UInt64) (fuel : Nat) (conn : Conn) (payload : Bytes) :
    Emits ConnEvent.Report conn (processLoop env nowUs fuel conn payload).2 := by
  apply processLoop_invariant (Emits ConnEvent.Report conn) env nowUs _ fuel (Emits.refl conn)
  intro middle frame seen
  exact seen.trans (processFrame_emits env middle frame nowUs)

/-- A datagram is seen as a payload, however that was opened, and as reports. -/
theorem connRecv_emits (reports : ∀ event, ConnEvent.Report event → allowed event) (evp : Evp)
    (env : Env) (conn : Conn) (data : Bytes) (nowUs : UInt64)
    (opens : ∀ next : Conn, next.crypto = conn.crypto → ∀ pkt hdrLen fullPn payload opened,
      openShort evp next pkt hdrLen fullPn = some (payload, opened) →
      allowed (.processed payload opened)) :
    Emits allowed conn (connRecv evp env conn data nowUs).2 := by
  have noted : Emits allowed conn (noteRecv conn data.length nowUs) := Emits.silent rfl rfl rfl rfl
  have recorded (pktNum : UInt64) : Emits allowed conn (conn.recorded data.length nowUs pktNum) :=
    Emits.silent rfl rfl rfl rfl
  refine connRecv_invariant (Emits allowed conn) (Emits.refl conn) noted
    (noted.trans (Emits.of_negotiates (Negotiates.recvHandshakePacket evp _ _))) recorded ?_ ?_
  · -- Recording the number is not seen, the payload is, and then its frames are reported on.
    intro pktNum pkt hdrLen payload opening result
    exact (recorded pktNum).trans (Emits.observe _ _ (opens _ rfl _ _ _ _ _ result))
  · intro middle frame seen
    exact seen.trans ((processFrame_emits env middle frame nowUs).mono reports)

/-- A connection that no longer listens ignores a datagram. -/
theorem connRecv_deaf {conn : Conn} (deaf : conn.state = .closed ∨ conn.state = .draining)
    (evp : Evp) (env : Env) (data : Bytes) (nowUs : UInt64) :
    (connRecv evp env conn data nowUs).2 = conn := by
  unfold connRecv
  cases data with
  | nil => rfl
  | cons first rest => exact congrArg Prod.snd (if_pos deaf)

theorem lossTimer_emits (conn : Conn) (nowUs : UInt64) :
    Emits ConnEvent.Report conn (lossTimer conn nowUs) := by
  have tracked : Emits ConnEvent.Report conn { conn with
      ack := (lossTimer conn nowUs).ack
      sendPing := (lossTimer conn nowUs).sendPing } := Emits.silent rfl rfl rfl rfl
  exact tracked.trans (Emits.of_transfers (Transfers.lossTimer conn nowUs))

theorem connOnTimeout_emits (conn : Conn) (nowUs : UInt64) :
    Emits ConnEvent.Report conn (connOnTimeout conn nowUs) := by
  unfold connOnTimeout
  split
  · exact Emits.setConnState conn (by decide)
  · have checked : Emits ConnEvent.Report (lossTimer conn nowUs)
        { lossTimer conn nowUs with
          heartbeat := heartbeatCheck (lossTimer conn nowUs).heartbeat nowUs } :=
      Emits.silent rfl rfl rfl rfl
    apply (lossTimer_emits conn nowUs).trans
    simp only
    split
    · exact checked.trans (Emits.setConnState _ (by decide))
    · exact checked

/-- Nothing is seen of data accepted for a stream. -/
theorem connStreamSend_only (conn : Conn) (streamId : UInt64) (data : Bytes) (fin : Bool) :
    StreamsOnly conn (connStreamSend conn streamId data fin).2 := by
  unfold connStreamSend
  split
  · exact StreamsOnly.refl conn
  · split
    · exact StreamsOnly.refl conn
    · split
      · exact StreamsOnly.setStream conn _ _
      · simp only
        split
        · exact (StreamsOnly.setStream conn _ _).trans (schedAdd_relinks _ _).only
        · exact StreamsOnly.setStream conn _ _

/-- Starting a handshake touches what a handshake settles. -/
theorem connStartHandshake_only (env : Env) (conn : Conn) (peerCid : ConnId) :
    HandshakeOnly conn (connStartHandshake evp env conn peerCid).2 := by
  have opened (hs : Handshake) : HandshakeOnly conn (openHandshake evp conn hs peerCid).2 := by
    unfold openHandshake
    split
    · exact HandshakeOnly.setConnState conn _
    · have named : HandshakeOnly conn { conn with dcid := peerCid } := rfl
      exact named.trans (HandshakeOnly.setConnState _ _)
  unfold connStartHandshake
  split
  · exact rfl
  · split
    · exact rfl
    · rename_i privkey _
      split
      · exact rfl
      · have start := opened (handshakeSetLocalParams (handshakeCreate evp conn.isServer privkey)
          (localTransportParams conn))
        simp only
        split
        · rename_i result
          rw [result] at start
          apply start.trans
          rfl
        · rename_i result
          rw [result] at start
          exact start.trans (HandshakeOnly.setConnState _ _)

/-- Operations that concern neither datagrams nor the state of a connection. -/
def ConnOp.Aside : ConnOp → Prop
  | .startHandshake _ | .setEstablished _ | .recv _ _ | .send _ _ | .onTimeout _ => False
  | _ => True

/-- What an operation makes of the heartbeat if it asks for one. -/
def ConnOp.beats : ConnOp → Heartbeat → Heartbeat
  | .setHeartbeat intervalUs, _ => heartbeatInit intervalUs
  | _, hb => hb

/-- Only what the application arranges may differ, the heartbeat being as given. -/
def ArrangesOnly (hb : Heartbeat) (before after : Conn) : Prop :=
  after = { before with
    heartbeat := hb
    migration := after.migration
    autoReconnect := after.autoReconnect
    maxReconnectAttempts := after.maxReconnectAttempts
    streams := after.streams
    schedHead := after.schedHead
    nextBidiId := after.nextBidiId
    nextUniId := after.nextUniId
    openBidiCount := after.openBidiCount
    openUniCount := after.openUniCount
    stats := { before.stats with streamsOpened := after.stats.streamsOpened }
    onNewStream := after.onNewStream
    sendConnClose := after.sendConnClose
    closeErrorCode := after.closeErrorCode }

theorem ArrangesOnly.of_streamsOnly (only : StreamsOnly before after) :
    ArrangesOnly before.heartbeat before after := by
  unfold ArrangesOnly
  rw [only]

theorem connOpenStream_only (env : Env) (conn : Conn) (type : StreamType) (unidirectional : Bool) :
    ArrangesOnly conn.heartbeat conn (connOpenStream env conn type unidirectional).2 := by
  unfold connOpenStream
  split
  · rfl
  · simp only
    split
    · rfl
    · have stored := storeStream_only env conn (nextStreamId conn type unidirectional)
        (streamCreate (nextStreamId conn type unidirectional) type conn.initialMaxStreamData
          conn.initialMaxStreamData)
      unfold ArrangesOnly countOpened
      split <;> rw [stored]

/-- Such operations touch only what the application arranges. -/
theorem connStep_arranges {evp : Evp} {conn next : Conn} {env : Env}
    (aside : op.Aside) (stepped : connStep evp conn (env, op) = some next) :
    ArrangesOnly (op.beats conn.heartbeat) conn next := by
  have replaced (streamId : UInt64) (s : Stream) :
      ArrangesOnly conn.heartbeat conn (conn.setStream streamId s) := rfl
  cases op with
  | startHandshake peerCid => exact aside.elim
  | setEstablished dcid => exact aside.elim
  | recv data nowUs => exact aside.elim
  | send maxLen nowUs => exact aside.elim
  | onTimeout nowUs => exact aside.elim
  | openStream type unidirectional =>
    cases stepped
    exact connOpenStream_only env conn type unidirectional
  | streamSend streamId data fin =>
    cases stepped
    exact ArrangesOnly.of_streamsOnly (connStreamSend_only conn streamId data fin)
  | streamRecv streamId bufLen =>
    cases stepped
    unfold connStreamRecv
    split
    · rfl
    · exact replaced _ _
  | initiateClose errorCode =>
    cases stepped
    unfold connInitiateClose
    split <;> rfl
  | setStreamRate streamId rateBps =>
    cases stepped
    unfold connSetStreamRate
    split
    · rfl
    · exact replaced _ _
  | setOnWritable streamId present =>
    cases stepped
    unfold connSetOnWritable
    split
    · rfl
    · exact replaced _ _
  | _ =>
    cases stepped
    rfl

/-- Operations that neither start a handshake nor exchange datagrams. -/
def ConnOp.Local : ConnOp → Prop
  | .startHandshake _ | .recv _ _ | .send _ _ => False
  | _ => True

/-- Local operations are only reported on. -/
theorem connStep_local {evp : Evp} {conn next : Conn} {env : Env} (here : op.Local)
    (stepped : connStep evp conn (env, op) = some next) : Emits ConnEvent.Report conn next := by
  cases op with
  | startHandshake peerCid => exact here.elim
  | recv data nowUs => exact here.elim
  | send maxLen nowUs => exact here.elim
  | setEstablished dcid =>
    cases stepped
    have named : Emits ConnEvent.Report conn { conn with dcid := dcid } :=
      Emits.silent rfl rfl rfl rfl
    exact named.trans (Emits.setConnState _ (by decide))
  | onTimeout nowUs =>
    cases stepped
    exact connOnTimeout_emits conn nowUs
  | _ =>
    have only := connStep_arranges (by trivial) stepped
    exact Emits.silent (congrArg Conn.trace only :) (congrArg Conn.nextPktNum only :)
      (congrArg Conn.handshake only :) (congrArg Conn.state only :)

end Nxp
