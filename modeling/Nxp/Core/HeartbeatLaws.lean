import Nxp.Core.FrameEffects
import Nxp.Core.Lifecycle
import Nxp.Core.SendLaws

/-! What the count of unanswered probes depends on, and which operations change it. -/

namespace Nxp

variable {frames : List Frame}

/-- What decides when a probe is due and whether it counts as missed. -/
structure Probe where
  intervalUs : UInt64
  lastSentUs : UInt64
  consecutiveMisses : UInt32
  enabled : Bool
  awaitingResponse : Bool
  timeInitialized : Bool

/-- The probes of a heartbeat, without what waits to be sent. -/
def Heartbeat.probe (hb : Heartbeat) : Probe :=
  ⟨hb.intervalUs, hb.lastSentUs, hb.consecutiveMisses, hb.enabled, hb.awaitingResponse,
    hb.timeInitialized⟩

/-- The probes once the peer was heard of. -/
def Probe.answered (probe : Probe) : Probe :=
  { probe with consecutiveMisses := 0, awaitingResponse := false }

/-- A call to send leaves the probes as they are. -/
theorem ConnSent.probe {evp : Evp} {env : Env} {conn next : Conn} {maxLen : Nat} {nowUs : UInt64}
    {result : SendResult} (sent : ConnSent evp env conn maxLen nowUs result next) :
    next.heartbeat.probe = conn.heartbeat.probe := by
  refine ConnSent.asides (fun next => next.heartbeat.probe = conn.heartbeat.probe)
    (fun same asides => ?_) (fun {before _ _} same cleared => ?_) sent rfl
  · rw [← same]
    exact congrArg (fun sides : MigrationState × Heartbeat => sides.2.probe) asides
  · rw [← same]
    cases cleared with
    | close due =>
      exact congrArg Heartbeat.probe (congrArg Conn.heartbeat
        (setConnState_only { before with sendConnClose := false } .closing) :)
    | _ => rfl

theorem lossTimer_heartbeat (conn : Conn) (nowUs : UInt64) :
    (lossTimer conn nowUs).heartbeat = conn.heartbeat :=
  (congrArg Conn.heartbeat (Transfers.lossTimer conn nowUs).only :)

/-- A connection that is closed for being idle when its timers fire. -/
def Conn.Idles (conn : Conn) (nowUs : UInt64) : Prop :=
  conn.lastActivityUs > 0 ∧ nowUs ≥ conn.lastActivityUs + conn.idleTimeoutUs

instance (conn : Conn) (nowUs : UInt64) : Decidable (conn.Idles nowUs) :=
  inferInstanceAs (Decidable (_ ∧ _))

theorem connOnTimeout_busy {conn : Conn} {nowUs : UInt64} (busy : ¬ conn.Idles nowUs) :
    connOnTimeout conn nowUs =
      let checked := { lossTimer conn nowUs with
        heartbeat := heartbeatCheck (lossTimer conn nowUs).heartbeat nowUs }
      if heartbeatIsDead checked.heartbeat then setConnState checked .closed else checked :=
  if_neg busy

/-- Timers that fire check the probes, unless the connection is closed for being idle. -/
theorem connOnTimeout_heartbeat (conn : Conn) (nowUs : UInt64) :
    (connOnTimeout conn nowUs).heartbeat =
      if conn.Idles nowUs then conn.heartbeat else heartbeatCheck conn.heartbeat nowUs := by
  by_cases idles : conn.Idles nowUs
  · rw [if_pos idles, show connOnTimeout conn nowUs = setConnState conn .closed from if_pos idles]
    exact (congrArg Conn.heartbeat (setConnState_only conn .closed) :)
  · rw [if_neg idles, connOnTimeout_busy idles]
    dsimp only
    split
    · rw [(congrArg Conn.heartbeat (setConnState_only { lossTimer conn nowUs with
        heartbeat := heartbeatCheck (lossTimer conn nowUs).heartbeat nowUs } .closed) :)]
      show heartbeatCheck (lossTimer conn nowUs).heartbeat nowUs = _
      rw [lossTimer_heartbeat]
    · show heartbeatCheck (lossTimer conn nowUs).heartbeat nowUs = _
      rw [lossTimer_heartbeat]

/-- A connection that is not idle is closed by its timers only if too many probes were missed. -/
theorem connOnTimeout_dead {conn : Conn} {nowUs : UInt64} (busy : ¬ conn.Idles nowUs)
    (alive : conn.state ≠ .closed) (closed : (connOnTimeout conn nowUs).state = .closed) :
    heartbeatIsDead (heartbeatCheck conn.heartbeat nowUs) = true := by
  rw [connOnTimeout_busy busy] at closed
  dsimp only at closed
  split at closed
  · rename_i dead
    rw [lossTimer_heartbeat] at dead
    exact dead
  · have same : (lossTimer conn nowUs).state = conn.state :=
      congrArg Life.state (lossTimer_life conn nowUs)
    exact absurd (same.symm.trans closed) alive

/-- Operations that change the probes. -/
def ConnOp.Probes : ConnOp → Prop
  | .recv _ _ | .send _ _ | .onTimeout _ | .setHeartbeat _ => True
  | _ => False

/-- All other operations leave the heartbeat alone. -/
theorem connStep_heartbeat {evp : Evp} {conn next : Conn} {env : Env} {op : ConnOp}
    (other : ¬ op.Probes) (stepped : connStep evp conn (env, op) = some next) :
    next.heartbeat = conn.heartbeat := by
  cases op with
  | recv data nowUs => exact absurd trivial other
  | send maxLen nowUs => exact absurd trivial other
  | onTimeout nowUs => exact absurd trivial other
  | setHeartbeat intervalUs => exact absurd trivial other
  | startHandshake peerCid =>
    cases stepped
    exact (congrArg Conn.heartbeat (connStartHandshake_only evp env conn peerCid) :)
  | setEstablished dcid =>
    cases stepped
    exact (congrArg Conn.heartbeat (setConnState_only { conn with dcid := dcid } .established) :)
  | _ => exact (congrArg Conn.heartbeat (connStep_arranges (by trivial) stepped) :)

/-- Frames that come before any data of streams and one of which is a heartbeat. -/
def bringsHeartbeat (frames : List Frame) : Bool :=
  (frames.takeWhile fun frame => !frame.isStream).any Frame.isHeartbeat

theorem processFrame_granted (env : Env) (conn : Conn) {frame : Frame} (nowUs : UInt64)
    (other : frame.isStream = false) : (processFrame env conn frame nowUs).1 = .ok := by
  cases frame with
  | stream f => cases other
  | maxStreams limit isBidi => cases isBidi <;> rfl
  | _ => rfl

/-- Frames leave the probes as they are or answer them. -/
theorem processEach_probe (env : Env) (nowUs : UInt64) (conn : Conn) (frames : List Frame) :
    (processEach env nowUs conn frames).2.heartbeat.probe = conn.heartbeat.probe ∨
      (processEach env nowUs conn frames).2.heartbeat.probe = conn.heartbeat.probe.answered := by
  -- The induction is on the frames that are left; a probe once answered stays so.
  induction frames generalizing conn with
  | nil => exact .inl rfl
  | cons frame frames ih =>
    have first : (processFrame env conn frame nowUs).2.heartbeat.probe = conn.heartbeat.probe ∨
        (processFrame env conn frame nowUs).2.heartbeat.probe =
          conn.heartbeat.probe.answered := by
      rw [processFrame_heartbeat]
      cases frame with
      | heartbeat timestampUs => exact .inr rfl
      | _ => exact .inl rfl
    unfold processEach
    split
    · rename_i next result
      rw [result] at first
      rcases first with same | reset <;> rcases ih next with kept | cleared
      · exact .inl (kept.trans same)
      · exact .inr (cleared.trans (congrArg Probe.answered same))
      · exact .inr (kept.trans reset)
      · exact .inr (by rw [cleared, reset]; rfl)
    · rename_i result
      rw [result] at first
      exact first

/-- A heartbeat among frames that are all taken answers the probes. -/
theorem processEach_answered (env : Env) (nowUs : UInt64) {conn : Conn}
    (brings : bringsHeartbeat frames = true) :
    (processEach env nowUs conn frames).2.heartbeat.probe = conn.heartbeat.probe.answered := by
  induction frames generalizing conn with
  | nil => cases brings
  | cons frame frames ih =>
    cases data : frame.isStream with
    | true => simp [bringsHeartbeat, data] at brings
    | false =>
      have taken := processFrame_heartbeat env conn frame nowUs
      have code := processFrame_granted env conn nowUs data
      unfold processEach
      cases result : processFrame env conn frame nowUs with
      | mk outcome next =>
        rw [result] at taken code
        cases code
        simp only
        cases beat : frame.isHeartbeat with
        | true =>
          have reset : next.heartbeat.probe = conn.heartbeat.probe.answered := by
            rw [taken]
            cases frame with
            | heartbeat timestampUs => rfl
            | _ => cases beat
          rcases processEach_probe env nowUs next frames with kept | cleared
          · exact kept.trans reset
          · rw [cleared, reset]
            rfl
        | false =>
          have same : next.heartbeat = conn.heartbeat := by
            rw [taken]
            cases frame with
            | heartbeat timestampUs => cases beat
            | _ => rfl
          rw [← same]
          refine ih ?_
          simpa [bringsHeartbeat, data, beat] using brings

/-- Without a heartbeat among them frames leave the heartbeat alone. -/
theorem processEach_unbeaten (env : Env) (nowUs : UInt64) {conn : Conn}
    (none : ∀ frame ∈ frames, frame.isHeartbeat = false) :
    (processEach env nowUs conn frames).2.heartbeat = conn.heartbeat := by
  induction frames generalizing conn with
  | nil => rfl
  | cons frame frames ih =>
    obtain ⟨first, others⟩ := List.forall_mem_cons.mp none
    have same : (processFrame env conn frame nowUs).2.heartbeat = conn.heartbeat := by
      rw [processFrame_heartbeat]
      cases frame with
      | heartbeat timestampUs => cases first
      | _ => rfl
    unfold processEach
    split
    · rename_i result
      rw [result] at same
      exact (ih others).trans same
    · rename_i result
      rw [result] at same
      exact same

/-- An echo that waits still waits after frames, and one waits after a heartbeat that is taken. -/
theorem processEach_echoes (env : Env) (nowUs : UInt64) {conn : Conn} {frames : List Frame}
    (due : conn.heartbeat.sendEcho = true ∨ bringsHeartbeat frames = true) :
    (processEach env nowUs conn frames).2.heartbeat.sendEcho = true := by
  induction frames generalizing conn with
  | nil => exact due.resolve_right (fun brings => by cases brings)
  | cons frame frames ih =>
    have taken := processFrame_heartbeat env conn frame nowUs
    have code := @processFrame_granted env conn frame nowUs
    have kept : conn.heartbeat.sendEcho = true ∨ frame.isHeartbeat = true →
        (processFrame env conn frame nowUs).2.heartbeat.sendEcho = true := by
      intro either
      rw [taken]
      cases frame with
      | heartbeat timestampUs => rfl
      | _ => exact either.resolve_right (fun beat => by cases beat)
    unfold processEach
    split
    · rename_i next result
      rw [result] at kept
      refine ih ?_
      rcases due with waits | brings
      · exact .inl (kept (.inl waits))
      · cases beat : frame.isHeartbeat with
        | true => exact .inl (kept (.inr beat))
        | false =>
          cases data : frame.isStream with
          | true => simp [bringsHeartbeat, data] at brings
          | false => exact .inr (by simpa [bringsHeartbeat, data, beat] using brings)
    · -- Only the data of a stream is refused, and no heartbeat counts behind it.
      rename_i refused result
      rw [result] at kept code
      refine kept (due.imp_right fun brings => ?_)
      cases data : frame.isStream with
      | true => simp [bringsHeartbeat, data] at brings
      | false => exact absurd (code data) refused

section Receiving

variable {evp : Evp} {env : Env} {conn : Conn} {data payload : Bytes} {nowUs pktNum : UInt64}

/-- A datagram whose frames are not taken leaves the heartbeat alone. -/
theorem connRecv_unopened
    (unopened : ∀ pktNum payload, openDatagram evp conn data ≠ some (some pktNum, payload)) :
    (connRecv evp env conn data nowUs).2.heartbeat = conn.heartbeat := by
  unfold connRecv
  cases data with
  | nil => rfl
  | cons first rest =>
    simp only
    split
    · rfl
    · split
      · exact (congrArg Conn.heartbeat (HandshakeOnly.recvHandshakePacket evp
          (noteRecv conn (first :: rest).length nowUs) (first :: rest)) :)
      · rename_i short
        by_cases fits : (first :: rest).length > packetBufSize
        · rw [recvShortPacket, if_pos fits]
          rfl
        · cases read : readShort evp (noteRecv conn (first :: rest).length nowUs)
            (first :: rest) with
          | none =>
            rw [recvShortPacket_unread read]
            rfl
          | some pair =>
            obtain ⟨pktNum, opened⟩ := pair
            obtain ⟨event, taken⟩ := recvShortPacket_read fits read env nowUs
            cases opened with
            | none =>
              rw [taken]
              rfl
            | some payload =>
              refine absurd ?_ (unopened pktNum payload)
              have read' : readShort evp conn (first :: rest) = some (pktNum, some payload) := read
              rw [openDatagram, if_neg fits, if_neg short, read']
              rfl

/-- A datagram whose frames are taken leaves the probes as they are or answers them. -/
theorem connRecv_probe (opens : openDatagram evp conn data = some (some pktNum, payload))
    (listens : conn.Listens) :
    ∃ start : Conn, start.heartbeat = conn.heartbeat ∧
      (connRecv evp env conn data nowUs).2.heartbeat =
        (processEach env nowUs start (leadingFrames payload)).2.heartbeat := by
  obtain ⟨event, taken⟩ := connRecv_opened opens listens env nowUs
  rw [taken]
  refine ⟨({ noteRecv conn data.length nowUs with
    ack := ackOnPktRecv (noteRecv conn data.length nowUs).ack pktNum nowUs true }).observe event,
    rfl, ?_⟩
  exact congrArg Conn.heartbeat (processLoop_leading env nowUs payload.length _ payload)

end Receiving

end Nxp
