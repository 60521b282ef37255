import Nxp.Core.AckRuns
import Nxp.Core.ConnLaws

/-! What the congestion controller is told when packets are acknowledged. -/

namespace Nxp

variable (conn : Conn) (frame : FrameAck) (nowUs : UInt64)

/-- What the controller of a connection is told about an acknowledged packet. -/
def ccSample (ack : AckState) (pkt : SentPkt) (conn : Conn) : CcAckInfo :=
  let nowUs := pkt.sentTime + ack.latestRtt
  ccAckInfo ack pkt (drOnPacketAcked conn.deliveryRate pkt.drState pkt.sentBytes nowUs) nowUs

/-- The controller takes that sample and no other. -/
theorem ccOnAck_cc (ack : AckState) (pkt : SentPkt) (conn : Conn) :
    (ccOnAck ack pkt conn).cc = conn.cc.map (bbrOnAck · (ccSample ack pkt conn)) := by
  unfold ccOnAck
  cases controlled : conn.cc with
  | none => exact controlled
  | some bbr => rfl

/-- An acknowledged packet, with everything the controller was told so far. -/
def toldAcked (ack : AckState) (pkt : SentPkt) (told : Conn × List CcAckInfo) :
    Conn × List CcAckInfo :=
  let conn := pkt.frames.records.foldl ackRecord (noteAcked told.1 pkt)
  (ccOnAck ack pkt conn, told.2 ++ if conn.cc.isSome then [ccSample ack pkt conn] else [])

/-- A lost packet, about which the controller is told nothing of this kind. -/
def toldLost (ack : AckState) (pkt : SentPkt) (told : Conn × List CcAckInfo) :
    Conn × List CcAckInfo :=
  (onPacketLost ack pkt told.1, told.2)

/-- Everything the controller is told while an acknowledgement is taken. -/
def toldOnAckRecv (conn : Conn) (frame : FrameAck) (nowUs : UInt64) : List CcAckInfo :=
  (ackOnAckRecv toldAcked toldLost conn.ack frame nowUs (conn, [])).2.2

/-- Keeping what the controller is told changes nothing about how an acknowledgement is taken. -/
theorem toldOnAckRecv_conn :
    (ackOnAckRecv toldAcked toldLost conn.ack frame nowUs (conn, [])).map id Prod.fst =
      ackOnAckRecv onPacketAcked onPacketLost conn.ack frame nowUs conn :=
  (ackOnAckRecv_view Prod.fst (fun _ _ _ => rfl) (fun _ _ _ => rfl) conn.ack frame nowUs
    (conn, [])).symm

theorem ackRecords_cc (records : List StreamFrameRecord) (conn : Conn) :
    (records.foldl ackRecord conn).cc = conn.cc := by
  induction records generalizing conn with
  | nil => rfl
  | cons rec rest ih =>
    rw [List.foldl_cons, ih]
    unfold ackRecord
    split
    · rfl
    · simp only
      split <;> rfl

/-- The delay and the time that the controller is told. -/
def CcAckInfo.times (info : CcAckInfo) : UInt64 × UInt64 := (info.rttUs, info.nowUs)

/-- While packets are acknowledged the controller is told the delay from before and, for each of
them, the time that this delay after it was sent. -/
theorem ackLoop_told (sent : List SentPkt) (ack : AckState) (told : Conn × List CcAckInfo)
    (sample : Option UInt64) :
    (ackLoop toldAcked frame nowUs sent ack told sample).2.2.1.2.map CcAckInfo.times =
      told.2.map CcAckInfo.times ++ if told.1.cc.isSome then
        (sent.filter fun pkt => ackCovers frame pkt.pktNum).map fun pkt =>
          (ack.latestRtt, pkt.sentTime + ack.latestRtt) else [] := by
  -- The delay is sampled only after all packets were looked at.
  induction sent generalizing ack told sample with
  | nil => simp [ackLoop]
  | cons pkt rest ih =>
    unfold ackLoop
    split
    · rename_i covered
      obtain ⟨bytes, less⟩ := removeInFlight_only ack pkt
      simp only [less]
      rw [ih]
      have kept : (pkt.frames.records.foldl ackRecord (noteAcked told.1 pkt)).cc = told.1.cc :=
        ackRecords_cc _ _
      cases controlled : told.1.cc.isSome with
      | false => simp [toldAcked, ccOnAck_cc, kept, controlled]
      | true =>
        simp [toldAcked, ccOnAck_cc, kept, controlled, covered, CcAckInfo.times, ccSample, ccAckInfo]
    · rename_i uncovered
      simp only
      rw [ih]
      simp [uncovered]

theorem toldOnAckRecv_times :
    (toldOnAckRecv conn frame nowUs).map CcAckInfo.times =
      if conn.cc.isSome then
        (conn.ack.sent.filter fun pkt => ackCovers frame pkt.pktNum).map fun pkt =>
          (conn.ack.latestRtt, pkt.sentTime + conn.ack.latestRtt) else [] := by
  have walked := ackLoop_told frame nowUs conn.ack.sent conn.ack (conn, []) none
  -- Losses come after that and are told in another way.
  have losses (ack : AckState) (told : Conn × List CcAckInfo) : (detectLostPackets toldLost ack nowUs
      frame.largestAcked told).2.2 = told.2 :=
    @detectLostPackets_invariant _ toldLost (fun _ later => later.2 = told.2)
      (fun _ _ _ _ _ same => same) (fun _ _ _ _ _ _ same => same) _ _ ack told rfl
  unfold toldOnAckRecv ackOnAckRecv
  simp only [losses]
  rw [walked]
  rfl

/-- A connection has no controller, or its latest delay is the age of a packet already and every
packet that an acknowledgement covers was sent at the same time as that one. -/
def SampleKnown (conn : Conn) (frame : FrameAck) (nowUs : UInt64) (newest : SentPkt) : Prop :=
  conn.cc = none ∨ (conn.ack.latestRtt = nowUs - newest.sentTime ∧
    ∀ pkt ∈ conn.ack.sent, ackCovers frame pkt.pktNum = true → pkt.sentTime = newest.sentTime)

/-- When an acknowledgement covers a packet, such as the one with its largest number, the controller
is told the age of that packet and the present time exactly when that age was known before and no
packet that is acknowledged along with it was sent at another time. -/
theorem cc_sample_iff (newest : SentPkt)
    (tracked : newest ∈ conn.ack.sent) (covered : ackCovers frame newest.pktNum = true) :
    (∀ info ∈ toldOnAckRecv conn frame nowUs,
      info.rttUs = nowUs - newest.sentTime ∧ info.nowUs = nowUs) ↔
    SampleKnown conn frame nowUs newest := by
  have times := toldOnAckRecv_times conn frame nowUs
  -- What is told is a matter of the two times only.
  have told : (∀ info ∈ toldOnAckRecv conn frame nowUs,
      info.rttUs = nowUs - newest.sentTime ∧ info.nowUs = nowUs) ↔
      ∀ pair ∈ (toldOnAckRecv conn frame nowUs).map CcAckInfo.times,
        pair = (nowUs - newest.sentTime, nowUs) := by
    simp only [List.forall_mem_map, CcAckInfo.times, Prod.mk.injEq]
  rw [told, times]
  unfold SampleKnown
  cases controlled : conn.cc with
  | none => simp
  | some bbr =>
    simp only [Option.isSome_some, if_true, List.forall_mem_map, List.mem_filter, Prod.mk.injEq,
      reduceCtorEq, false_or]
    constructor
    · intro right
      have delay := (right newest ⟨tracked, covered⟩).1
      refine ⟨delay, fun pkt member acked => ?_⟩
      have now := (right pkt ⟨member, acked⟩).2
      rw [delay] at now
      -- Two packets of the same age were sent at the same time.
      have same : pkt.sentTime + (nowUs - newest.sentTime) =
          newest.sentTime + (nowUs - newest.sentTime) := by
        rw [now, UInt64.add_comm, UInt64.sub_add_cancel]
      exact (UInt64.add_left_inj _).mp same
    · rintro ⟨delay, same⟩ pkt ⟨member, acked⟩
      refine ⟨delay, ?_⟩
      rw [delay, same pkt member acked, UInt64.add_comm, UInt64.sub_add_cancel]

/-- A client that is established by hand, writes to a stream and sends it at time 10. -/
def firstSent : List (Env × ConnOp) := threeWritten ++ [(plainEnv, .send 1400 10)]

/-- The acknowledgement of the first packet at time 50 tells the controller that there was no delay
and that it is time 10 still. -/
theorem cc_sample_stale :
    ∃ conn, Machine.attempt (connStep plainEvp) (connCreate plainConfig false true) firstSent =
        some conn ∧
      conn.ack.sent.map (fun pkt => (pkt.pktNum, pkt.sentTime, pkt.ackEliciting)) =
        [(0, 10, true)] ∧
      (toldOnAckRecv conn (singleAck 0) 50).map (fun info => (info.rttUs, info.nowUs)) =
        [(0, 10)] := by
  decide +kernel

/-- A tracker with one packet in flight whose age is the latest delay already. -/
def steadyTracker : AckState := { ackInit with sent := [flyingPkt 0 10], latestRtt := 40 }

/-- With the same delay as before, the controller is told the right sample. -/
theorem cc_sample_steady :
    flyingPkt 0 10 ∈ steadyTracker.sent ∧
    ∀ info ∈ toldOnAckRecv { connCreate plainConfig false true with ack := steadyTracker }
      (singleAck 0) 50, info.rttUs = 50 - (flyingPkt 0 10).sentTime ∧ info.nowUs = 50 := by
  have tracked : flyingPkt 0 10 ∈ steadyTracker.sent := List.mem_singleton_self _
  refine ⟨tracked, (cc_sample_iff { connCreate plainConfig false true with ack := steadyTracker }
    (singleAck 0) 50 (flyingPkt 0 10) tracked (by decide)).mpr (.inr ⟨by decide, ?_⟩)⟩
  intro pkt member _
  rw [List.mem_singleton.mp member]

end Nxp
