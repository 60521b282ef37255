import Nxp.Core.AckRuns
import Nxp.Core.Payload
import Nxp.Core.RecvLaws

/-! Which parts of a connection each frame of an application packet touches. -/

namespace Nxp

/-- Whether a number was received before, as far as the tracker remembers. -/
def AckState.knows (ack : AckState) (pktNum : UInt64) : Bool :=
  ack.recvRanges.ranges.any (·.contains pktNum)

/-- A recorded number asks for an acknowledgement unless it was known. -/
theorem ackOnPktRecv_ackNeeded (ack : AckState) (pktNum nowUs : UInt64) :
    (ackOnPktRecv ack pktNum nowUs true).ackNeeded = (!ack.knows pktNum || ack.ackNeeded) := by
  unfold ackOnPktRecv AckState.knows
  simp only
  split
  · rename_i known
    rw [known]
    rfl
  · rename_i fresh
    rw [Bool.not_eq_true] at fresh
    rw [fresh]
    rfl

/-- What the tracker knows about received packets. -/
def AckState.inbound (ack : AckState) : RecvRanges × UInt64 × UInt64 × Bool × UInt64 :=
  (ack.recvRanges, ack.largestRecvPn, ack.largestRecvTime, ack.ackNeeded, ack.ackDelayTimer)

/-- An acknowledgement says nothing about received packets. -/
theorem ackOnAckRecv_inbound {σ : Type} (onAck onLoss : AckState → SentPkt → σ → σ) (ack : AckState)
    (frame : FrameAck) (nowUs : UInt64) (ctx : σ) :
    (ackOnAckRecv onAck onLoss ack frame nowUs ctx).1.inbound = ack.inbound := by
  unfold ackOnAckRecv
  obtain ⟨bytes, walked⟩ := ackLoop_only onAck frame nowUs ack.sent ack ctx none
  cases result : ackLoop onAck frame nowUs ack.sent ack ctx none with
  | mk kept rest =>
    obtain ⟨next, ctx, sample⟩ := rest
    rw [result] at walked
    simp only at walked ⊢
    rw [walked]
    -- Looking for losses comes last, after a delay sample if there is one.
    cases sample with
    | none =>
      obtain ⟨_, _, _, found⟩ := detectLostPackets_only onLoss nowUs frame.largestAcked
        { ack with bytesInFlight := bytes, sent := kept, ptoCount := 0 } ctx
      rw [found]
      rfl
    | some rtt =>
      obtain ⟨_, _, _, found⟩ := detectLostPackets_only onLoss nowUs frame.largestAcked
        { updateRtt { ack with bytesInFlight := bytes, sent := kept } rtt frame.ackDelay with
          ptoCount := 0 } ctx
      rw [found]
      unfold updateRtt
      simp only
      split <;> rfl

section Frames

variable (env : Env) (conn : Conn) {frame : Frame} (nowUs : UInt64)

/-- No frame changes what is known about received packets. -/
theorem processFrame_inbound (frame : Frame) :
    (processFrame env conn frame nowUs).2.ack.inbound = conn.ack.inbound := by
  cases about : frame.transfers with
  | false =>
    exact congrArg AckState.inbound (congrArg Conn.ack (processFrame_control env conn nowUs about) :)
  | true =>
    cases frame with
    | ack f => exact ackOnAckRecv_inbound _ _ _ _ _ _
    | stream f =>
      exact congrArg AckState.inbound (congrArg Conn.ack (Transfers.recvStreamFrame env conn f).only :)
    | maxStreamData streamId limit =>
      exact congrArg AckState.inbound
        (congrArg Conn.ack (recvMaxStreamData_only conn streamId limit) :)
    | _ => cases about

/-- What no frame changes: the keys and the identifier packets are opened with, the limits new
streams start with, and what the application asked to be sent. -/
theorem processFrame_fixed (frame : Frame) :
    (processFrame env conn frame nowUs).2.crypto = conn.crypto ∧
      (processFrame env conn frame nowUs).2.scid = conn.scid ∧
      (processFrame env conn frame nowUs).2.isServer = conn.isServer ∧
      (processFrame env conn frame nowUs).2.initialMaxStreamData = conn.initialMaxStreamData ∧
      (processFrame env conn frame nowUs).2.sendPing = conn.sendPing ∧
      (processFrame env conn frame nowUs).2.sendConnClose = conn.sendConnClose := by
  cases about : frame.transfers with
  | false =>
    have only := processFrame_control env conn nowUs about
    exact ⟨(congrArg Conn.crypto only :), (congrArg Conn.scid only :),
      (congrArg Conn.isServer only :), (congrArg Conn.initialMaxStreamData only :),
      (congrArg Conn.sendPing only :), (congrArg Conn.sendConnClose only :)⟩
  | true =>
    have only := (processFrame_transfer env conn nowUs about).only
    exact ⟨(congrArg Conn.crypto only :), (congrArg Conn.scid only :),
      (congrArg Conn.isServer only :), (congrArg Conn.initialMaxStreamData only :),
      (congrArg Conn.sendPing only :), (congrArg Conn.sendConnClose only :)⟩

end Frames

/-- No payload changes what is known about received packets. -/
theorem processFrames_inbound (env : Env) (conn : Conn) (payload : Bytes) (nowUs : UInt64) :
    (processFrames env conn payload nowUs).2.ack.inbound = conn.ack.inbound :=
  processLoop_invariant (fun next => next.ack.inbound = conn.ack.inbound) env nowUs
    (fun next frame same => (processFrame_inbound env next nowUs frame).trans same) _ rfl payload

/-- What a frame makes of the probes. -/
def probed (nowUs : UInt64) (frame : Frame) (hb : Heartbeat) : Heartbeat :=
  match frame with
  | .heartbeat timestampUs => heartbeatOnRecv hb timestampUs nowUs
  | _ => hb

/-- What a frame does to the heartbeat: only one about it is taken by it. -/
theorem processFrame_heartbeat (env : Env) (conn : Conn) (frame : Frame) (nowUs : UInt64) :
    (processFrame env conn frame nowUs).2.heartbeat = probed nowUs frame conn.heartbeat := by
  cases about : frame.transfers with
  | true =>
    have only := (processFrame_transfer env conn nowUs about).only
    cases frame with
    | heartbeat timestampUs => cases about
    | _ => exact (congrArg Conn.heartbeat only :)
  | false =>
    cases frame with
    | maxStreams limit isBidi => cases isBidi <;> rfl
    | connectionClose f => exact (congrArg Conn.heartbeat (setConnState_only conn .draining) :)
    | handshakeDone => exact (congrArg Conn.heartbeat (recvHandshakeDone_only conn) :)
    | pathResponse data => exact (congrArg Conn.heartbeat (recvPathResponse_only conn data) :)
    | newToken token => exact (congrArg Conn.heartbeat (recvNewToken_only conn token) :)
    | ack f => cases about
    | stream f => cases about
    | maxStreamData streamId limit => cases about
    | _ => rfl

/-- What the notice that the server is done does: nothing unless it was waited for. -/
theorem recvHandshakeDone_cases (conn : Conn) :
    ((∀ hs, conn.handshake = some hs → hs.state ≠ .waitHandshakeDone) ∧
        recvHandshakeDone conn = conn) ∨
      ∃ hs, conn.handshake = some hs ∧ hs.state = .waitHandshakeDone ∧ recvHandshakeDone conn =
        applyPeerParams (setConnState { conn with handshake := some { hs with state := .complete } }
          .established) { hs with state := .complete } ∧
        (recvHandshakeDone conn).handshake = some { hs with state := .complete } := by
  unfold recvHandshakeDone
  cases present : conn.handshake with
  | none => exact .inl ⟨fun hs found => (by cases found), rfl⟩
  | some hs =>
    by_cases waiting : hs.state = .waitHandshakeDone
    · have done : handshakeOnHandshakeDone hs = (.ok, { hs with state := .complete }) := by
        unfold handshakeOnHandshakeDone
        rw [if_neg (not_not_intro waiting)]
      refine .inr ⟨hs, rfl, waiting, ?_, ?_⟩
      · simp only [done]
      · simp only [done]
        unfold applyPeerParams setConnState
        split <;> split <;> rfl
    · have failed : handshakeOnHandshakeDone hs = (.handshakeFail, hs) := by
        unfold handshakeOnHandshakeDone
        rw [if_pos waiting]
      refine .inl ⟨fun other same => ?_, ?_⟩
      · cases same
        exact waiting
      · simp only [failed]
        rw [← present]

/-- The notice that the server is done leads nowhere but to an established connection. -/
theorem recvHandshakeDone_state (conn : Conn) :
    ((∀ hs, conn.handshake = some hs → hs.state ≠ .waitHandshakeDone) ∧
        recvHandshakeDone conn = conn) ∨
      (∃ hs, conn.handshake = some hs ∧ hs.state = .waitHandshakeDone) ∧
        (recvHandshakeDone conn).state = (setConnState conn .established).state := by
  rcases recvHandshakeDone_cases conn with idle | ⟨hs, present, waiting, done, -⟩
  · exact .inl idle
  · refine .inr ⟨⟨hs, present, waiting⟩, ?_⟩
    have limits (conn : Conn) (hs : Handshake) : (applyPeerParams conn hs).state = conn.state := by
      unfold applyPeerParams
      split <;> rfl
    rw [done, limits]
    unfold setConnState
    split <;> rfl

/-- No other frame than the notice that the server is done or that the peer closes moves the
connection. -/
theorem processFrame_state (env : Env) (conn : Conn) (nowUs : UInt64) {frame : Frame}
    (undone : frame ≠ .handshakeDone) (unclosed : ∀ f, frame ≠ .connectionClose f) :
    (processFrame env conn frame nowUs).2.state = conn.state := by
  cases about : frame.transfers with
  | true => exact (congrArg Conn.state (processFrame_transfer env conn nowUs about).only :)
  | false =>
    cases frame with
    | connectionClose f => exact absurd rfl (unclosed f)
    | handshakeDone => exact absurd rfl undone
    | maxStreams limit isBidi => cases isBidi <;> rfl
    | pathResponse data => exact (congrArg Conn.state (recvPathResponse_only conn data) :)
    | newToken token => exact (congrArg Conn.state (recvNewToken_only conn token) :)
    | ack f => cases about
    | stream f => cases about
    | maxStreamData id limit => cases about
    | _ => rfl

end Nxp
