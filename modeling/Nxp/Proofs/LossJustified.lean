import Nxp.Core.AckRuns

/-! When a packet is reported as lost, a later one has been acknowledged. -/

namespace Nxp

variable {ack : AckState} {nowUs largestAcked : UInt64} {frame : FrameAck} {frames : List FrameAck}
  {log : AckLog}

/-- How long a packet may stay unacknowledged behind a later one, as a number. -/
def lossThreshold (smoothedRtt latestRtt : UInt64) : Nat :=
  max (9 * max smoothedRtt.toNat latestRtt.toNat / 8) 1000

/-- An acknowledgement taken so far covers a later number, and that number is far ahead or the
packet has been waiting for long. -/
def LossReport.Justified (loss : LossReport) : Prop :=
  ∃ frame ∈ loss.frames, ∃ number, ackCovers frame number = true ∧ loss.pkt.pktNum < number ∧
    (loss.pkt.pktNum.toNat + 3 ≤ number.toNat ∨
      loss.pkt.sentTime.toNat + lossThreshold loss.smoothedRtt loss.latestRtt ≤ loss.nowUs.toNat)

/-- Numbers and times are far from wrapping, acknowledgements do not reach below zero, and when the
loss timer fires every packet still tracked is older than one already acknowledged. -/
def LossSound (t : Tracker) : AckOp → Prop
  | .received _ _ _ => True
  | .sent pkt => pkt.pktNum.toNat < 2 ^ 62 ∧ pkt.sentTime.toNat < 2 ^ 60
  | .acknowledged frame nowUs =>
    frame.firstAckRange ≤ frame.largestAcked ∧ nowUs.toNat < 2 ^ 60 ∧
      ∀ pkt ∈ t.ack.sent, pkt.sentTime ≤ nowUs
  | .timeout nowUs =>
    t.ack.lossTime ≠ timeNever ∧ nowUs ≥ t.ack.lossTime →
      ∀ pkt ∈ t.ack.sent, ∃ frame ∈ t.frames, pkt.pktNum < frame.largestAcked

/-- Delay estimates far from wrapping. -/
def Estimates (ack : AckState) : Prop :=
  ack.smoothedRtt.toNat < 2 ^ 60 ∧ ack.latestRtt.toNat < 2 ^ 60

/-- What holds of a tracker whose requests were sound. -/
structure Sound (t : Tracker) : Prop where
  packets : ∀ pkt ∈ t.ack.sent, pkt.pktNum.toNat < 2 ^ 62 ∧ pkt.sentTime.toNat < 2 ^ 60
  estimates : Estimates t.ack
  frames : ∀ frame ∈ t.frames, frame.firstAckRange ≤ frame.largestAcked
  losses : ∀ loss ∈ t.log.lost, loss.Justified

/-- Estimates far from wrapping give the threshold as a number. -/
theorem lossDelay_toNat (estimates : Estimates ack) :
    (lossDelay ack).toNat = lossThreshold ack.smoothedRtt ack.latestRtt := by
  obtain ⟨smoothed, latest⟩ := estimates
  have larger : (if ack.smoothedRtt > ack.latestRtt then ack.smoothedRtt else ack.latestRtt).toNat =
      max ack.smoothedRtt.toNat ack.latestRtt.toNat := by
    split
    · rename_i above
      rw [gt_iff_lt, UInt64.lt_iff_toNat_lt] at above
      omega
    · rename_i below
      rw [gt_iff_lt, UInt64.lt_iff_toNat_lt] at below
      omega
  unfold lossDelay lossThreshold
  simp only
  generalize (if ack.smoothedRtt > ack.latestRtt then ack.smoothedRtt else ack.latestRtt) = rtt
    at larger ⊢
  have scaled : (rtt * 9 / 8).toNat = 9 * rtt.toNat / 8 := by
    rw [UInt64.toNat_div, UInt64.toNat_mul]
    show rtt.toNat * 9 % 2 ^ 64 / 8 = _
    omega
  have least : (1000 : UInt64).toNat = 1000 := rfl
  rw [← larger]
  split
  · rename_i short
    rw [UInt64.lt_iff_toNat_lt, scaled] at short
    omega
  · rename_i long
    rw [UInt64.lt_iff_toNat_lt, scaled] at long
    omega

theorem ackCovers_largest (valid : frame.firstAckRange ≤ frame.largestAcked) :
    ackCovers frame frame.largestAcked = true := by
  have starts : frame.largestAcked - frame.firstAckRange ≤ frame.largestAcked := by
    rw [UInt64.le_iff_toNat_le, UInt64.toNat_sub_of_le _ _ valid]
    omega
  unfold ackCovers
  simp [starts]

/-- A packet is lost by the packet threshold or the time threshold. -/
theorem losesPkt_reason (estimates : Estimates ack) {pkt : SentPkt}
    (number : pkt.pktNum.toNat < 2 ^ 62) (time : pkt.sentTime.toNat < 2 ^ 60)
    (lost : losesPkt nowUs largestAcked (lossDelay ack) pkt = true) :
    pkt.pktNum ≤ largestAcked ∧ (pkt.pktNum.toNat + 3 ≤ largestAcked.toNat ∨
      pkt.sentTime.toNat + lossThreshold ack.smoothedRtt ack.latestRtt ≤ nowUs.toNat) := by
  have delay := lossDelay_toNat estimates
  obtain ⟨smoothed, latest⟩ := estimates
  simp only [losesPkt, isLost, Bool.and_eq_true, Bool.not_eq_true', decide_eq_false_iff_not,
    Bool.or_eq_true, decide_eq_true_eq] at lost
  obtain ⟨⟨-, older⟩, reason⟩ := lost
  refine ⟨UInt64.not_lt.mp older, reason.imp (fun far => ?_) fun late => ?_⟩
  · rw [UInt64.le_iff_toNat_le, UInt64.toNat_add] at far
    have three : (3 : UInt64).toNat = 3 := rfl
    omega
  · rw [UInt64.le_iff_toNat_le, UInt64.toNat_add, delay] at late
    have bound : lossThreshold ack.smoothedRtt ack.latestRtt < 2 ^ 62 := by
      unfold lossThreshold
      omega
    omega

/-- Every loss of one pass is justified. -/
theorem detect_justified (estimates : Estimates ack)
    (packets : ∀ pkt ∈ ack.sent, pkt.pktNum.toNat < 2 ^ 62 ∧ pkt.sentTime.toNat < 2 ^ 60)
    (losses : ∀ loss ∈ log.lost, loss.Justified)
    (acked : ∀ pkt ∈ ack.sent, pkt.pktNum ≤ largestAcked → ∃ frame ∈ frames, ∃ number,
      ackCovers frame number = true ∧ pkt.pktNum < number ∧ largestAcked ≤ number) :
    ∀ loss ∈ (detectLostPackets (reportLoss nowUs frames) ack nowUs largestAcked log).2.lost,
      loss.Justified := by
  rw [(detectLostPackets_log nowUs largestAcked frames ack log).2]
  intro loss member
  rcases List.mem_append.mp member with earlier | latest
  · exact losses loss earlier
  · obtain ⟨pkt, inside, rfl⟩ := List.mem_map.mp latest
    obtain ⟨tracked, lost⟩ := List.mem_filter.mp inside
    obtain ⟨number, time⟩ := packets pkt tracked
    obtain ⟨older, reason⟩ := losesPkt_reason estimates number time lost
    obtain ⟨frame, taken, acknowledged, covers, later, reaches⟩ := acked pkt tracked older
    refine ⟨frame, taken, acknowledged, covers, later, reason.imp (fun far => ?_) id⟩
    rw [UInt64.le_iff_toNat_le] at reaches
    exact Nat.le_trans far reaches

theorem detect_sound {recorded : List SentPkt}
    (packets : ∀ pkt ∈ ack.sent, pkt.pktNum.toNat < 2 ^ 62 ∧ pkt.sentTime.toNat < 2 ^ 60)
    (estimates : Estimates ack) (valid : ∀ frame ∈ frames, frame.firstAckRange ≤ frame.largestAcked)
    (losses : ∀ loss ∈ log.lost, loss.Justified)
    (acked : ∀ pkt ∈ ack.sent, pkt.pktNum ≤ largestAcked → ∃ frame ∈ frames, ∃ number,
      ackCovers frame number = true ∧ pkt.pktNum < number ∧ largestAcked ≤ number) :
    Sound ⟨(detectLostPackets (reportLoss nowUs frames) ack nowUs largestAcked log).1, recorded,
      frames, (detectLostPackets (reportLoss nowUs frames) ack nowUs largestAcked log).2⟩ := by
  refine ⟨fun pkt member => ?_, ?_, valid, detect_justified estimates packets losses acked⟩
  · rw [(detectLostPackets_log nowUs largestAcked frames ack log).1] at member
    exact packets pkt (List.mem_filter.mp member).1
  · obtain ⟨_, _, _, only⟩ :=
      detectLostPackets_only (reportLoss nowUs frames) nowUs largestAcked ack log
    show Estimates (detectLostPackets (reportLoss nowUs frames) ack nowUs largestAcked log).1
    rw [only]
    exact estimates

theorem ackLoop_sample (frame : FrameAck) (nowUs : UInt64) (sent : List SentPkt) (ack : AckState)
    (log : AckLog) (sample : Option UInt64) :
    ∀ rtt ∈ (ackLoop reportAck frame nowUs sent ack log sample).2.2.2,
      sample = some rtt ∨ ∃ pkt ∈ sent, rtt = nowUs - pkt.sentTime := by
  induction sent generalizing ack log sample with
  | nil => exact fun rtt same => .inl same
  | cons pkt rest ih =>
    intro rtt taken
    unfold ackLoop at taken
    split at taken
    · rcases ih _ _ _ rtt taken with same | ⟨other, member, same⟩
      · split at same
        · cases same
          exact .inr ⟨pkt, List.mem_cons_self .., rfl⟩
        · exact .inl same
      · exact .inr ⟨other, List.mem_cons_of_mem _ member, same⟩
    · rcases ih _ _ _ rtt taken with same | ⟨other, member, same⟩
      · exact .inl same
      · exact .inr ⟨other, List.mem_cons_of_mem _ member, same⟩

/-- A sample keeps the estimates in range. -/
theorem updateRtt_estimates (estimates : Estimates ack) {rtt : UInt64}
    (small : rtt.toNat < 2 ^ 60) (ackDelay : UInt64) : Estimates (updateRtt ack rtt ackDelay) := by
  have adjusted (delay minRtt : UInt64) : (adjustRtt rtt delay minRtt).toNat < 2 ^ 60 := by
    unfold adjustRtt
    split
    · rename_i both
      rw [UInt64.toNat_sub_of_le _ _ (UInt64.le_of_lt both.1)]
      omega
    · exact small
  unfold updateRtt
  simp only
  split
  · exact ⟨small, small⟩
  · refine ⟨?_, small⟩
    -- The average of small values is small.
    have weighted (other : UInt64) (bounded : other.toNat < 2 ^ 60) :
        ((7 * ack.smoothedRtt + other) / 8).toNat < 2 ^ 60 := by
      have old := estimates.1
      rw [UInt64.toNat_div, UInt64.toNat_add, UInt64.toNat_mul]
      show (7 * ack.smoothedRtt.toNat % 2 ^ 64 + other.toNat) % 2 ^ 64 / 8 < _
      rw [Nat.mod_eq_of_lt (show 7 * ack.smoothedRtt.toNat < 2 ^ 64 by omega),
        Nat.mod_eq_of_lt (show 7 * ack.smoothedRtt.toNat + other.toNat < 2 ^ 64 by omega)]
      omega
    exact weighted _ (adjusted _ _)

theorem afterAcks_estimates (estimates : Estimates ack)
    (early : nowUs.toNat < 2 ^ 60) (ordered : ∀ pkt ∈ ack.sent, pkt.sentTime ≤ nowUs) :
    Estimates (afterAcks ack frame nowUs) := by
  have sampled := ackLoop_sample frame nowUs ack.sent ack ⟨[], []⟩ none
  obtain ⟨_, only⟩ := ackLoop_only reportAck frame nowUs ack.sent ack ⟨[], []⟩ none
  have kept : Estimates { (ackLoop reportAck frame nowUs ack.sent ack ⟨[], []⟩ none).2.1 with
      sent := (ackLoop reportAck frame nowUs ack.sent ack ⟨[], []⟩ none).1 } := by
    rw [only]
    exact estimates
  unfold afterAcks
  simp only
  cases taken : (ackLoop reportAck frame nowUs ack.sent ack ⟨[], []⟩ none).2.2.2 with
  | none => exact kept
  | some rtt =>
    rcases sampled rtt taken with absent | ⟨pkt, member, age⟩
    · cases absent
    · have small : rtt.toNat < 2 ^ 60 := by
        rw [age, UInt64.toNat_sub_of_le _ _ (ordered pkt member)]
        omega
      exact updateRtt_estimates kept small frame.ackDelay

/-- A sound request keeps a tracker sound. -/
theorem trackStep_sound {t : Tracker} (sound : Sound t) (op : AckOp) (meets : LossSound t op) :
    Sound (trackStep t op) := by
  obtain ⟨packets, estimates, frames, losses⟩ := sound
  cases op with
  | received pktNum nowUs ackEliciting =>
    obtain ⟨_, _, _, _, _, same⟩ := ackOnPktRecv_fields t.ack pktNum nowUs ackEliciting
    simp only [trackStep, same]
    exact ⟨packets, estimates, frames, losses⟩
  | sent pkt =>
    simp only [trackStep]
    unfold ackOnPktSent
    split
    · exact ⟨packets, estimates, frames, losses⟩
    · refine ⟨fun other member => ?_, estimates, frames, losses⟩
      rcases List.mem_append.mp member with earlier | latest
      · exact packets other earlier
      · rw [List.mem_singleton.mp latest]
        exact meets
  | acknowledged frame nowUs =>
    obtain ⟨valid, early, ordered⟩ := meets
    simp only [trackStep]
    rw [ackOnAckRecv_log]
    have left := (afterAcks_fields t.ack frame nowUs).1
    have tracked : ∀ pkt ∈ (afterAcks t.ack frame nowUs).sent, pkt ∈ t.ack.sent ∧
        ackCovers frame pkt.pktNum = false := by
      rw [left]
      intro pkt member
      simpa using List.mem_filter.mp member
    have estimates' : Estimates (afterAcks t.ack frame nowUs) :=
      afterAcks_estimates estimates early ordered
    have packets' := fun pkt member => packets pkt (tracked pkt member).1
    refine detect_sound packets' estimates' ?_ losses fun pkt member older => ?_
    · intro other member
      rcases List.mem_append.mp member with earlier | latest
      · exact frames other earlier
      · rw [List.mem_singleton.mp latest]
        exact valid
    · -- The largest number itself is covered, so what is still tracked lies below it.
      have covers := ackCovers_largest valid
      refine ⟨frame, by simp, frame.largestAcked, covers, ?_, UInt64.le_refl _⟩
      rcases UInt64.lt_or_eq_of_le older with below | same
      · exact below
      · have uncovered := (tracked pkt member).2
        rw [same, covers] at uncovered
        cases uncovered
  | timeout nowUs =>
    simp only [trackStep]
    unfold ackOnLossTimeout
    split
    · rename_i fires
      refine detect_sound packets estimates frames losses fun pkt member _ => ?_
      -- The largest tracked number is itself below an acknowledged one.
      obtain ⟨top, tracked, same, all⟩ := largestSent_mem member
      obtain ⟨frame, taken, above⟩ := meets fires top tracked
      refine ⟨frame, taken, frame.largestAcked, ackCovers_largest (frames frame taken), ?_, ?_⟩
      · exact UInt64.lt_of_le_of_lt (all pkt member) above
      · rw [same]
        exact UInt64.le_of_lt above
    · exact ⟨packets, estimates, frames, losses⟩

/-- In every run of sound requests, every reported loss is justified by an acknowledgement. -/
theorem losses_justified (inputs : List AckOp)
    (sound : Machine.Along trackStep LossSound newTracker inputs) :
    ∀ loss ∈ (Machine.run trackStep newTracker inputs).log.lost, loss.Justified := by
  have start : Sound newTracker :=
    ⟨by simp [newTracker, ackInit], ⟨by decide, by decide⟩, by simp [newTracker],
      by simp [newTracker]⟩
  exact (Machine.run_invariant LossSound (fun _ op kept meets => trackStep_sound kept op meets)
    start sound).losses

/-- Five packets are sent, the last is acknowledged and the timer for those behind it fires. -/
def timedBehind : List AckOp :=
  [.sent (flyingPkt 0 0), .sent (flyingPkt 1 0), .sent (flyingPkt 2 0), .sent (flyingPkt 3 0),
    .sent (flyingPkt 4 0), .acknowledged (singleAck 4) 500, .timeout 1000]

/-- Four losses behind an acknowledged packet are justified, two by number and two by time. -/
theorem losses_justified_behind :
    Machine.Along trackStep LossSound newTracker timedBehind ∧
    (Machine.run trackStep newTracker timedBehind).log.lost.map (·.pkt.pktNum) = [0, 1, 2, 3] ∧
    ∀ loss ∈ (Machine.run trackStep newTracker timedBehind).log.lost, loss.Justified := by
  have sound : Machine.Along trackStep LossSound newTracker timedBehind := by
    refine ⟨⟨?_, ?_⟩, ⟨?_, ?_⟩, ⟨?_, ?_⟩, ⟨?_, ?_⟩, ⟨?_, ?_⟩, ⟨?_, ?_, ?_⟩, fun _ => ?_, trivial⟩ <;>
      decide +kernel
  exact ⟨sound, by decide +kernel, losses_justified timedBehind sound⟩

/-- Three packets are sent, the middle one is acknowledged and the timer fires. -/
def timedAhead : List AckOp :=
  [.sent (flyingPkt 0 0), .sent (flyingPkt 1 0), .sent (flyingPkt 2 0),
    .acknowledged (singleAck 1) 500, .timeout 1000]

/-- The loss that is then reported of the last packet, with the one acknowledgement so far. -/
def lossAhead : LossReport :=
  ⟨{ flyingPkt 2 0 with declaredLost := true }, 1000, 500, 500, [singleAck 1]⟩

/-- The timer takes the largest number still tracked for the largest acknowledged, so the last
packet is reported as lost although nothing after it was acknowledged. -/
theorem lossAhead_unjustified :
    lossAhead ∈ (Machine.run trackStep newTracker timedAhead).log.lost ∧ ¬ lossAhead.Justified := by
  refine ⟨by decide +kernel, ?_⟩
  rintro ⟨frame, taken, number, covers, later, -⟩
  rw [List.mem_singleton.mp taken] at covers
  have one : number ≤ 1 := by
    simp only [ackCovers, singleAck, rangesCover, Bool.or_false, Bool.and_eq_true] at covers
    exact of_decide_eq_true covers.2
  exact absurd later (UInt64.not_lt.mpr (UInt64.le_trans one (by decide)))

end Nxp
