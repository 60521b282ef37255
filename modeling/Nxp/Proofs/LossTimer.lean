import Nxp.Core.AckTally

/-! The loss timer makes progress, and it is off when nothing is tracked. -/

namespace Nxp

variable {ack : AckState} {nowUs largestAcked delay : UInt64} {sent : List SentPkt}

/-- A timer that is off or set for later. -/
def Later (nowUs lossTime : UInt64) : Prop := lossTime = timeNever ∨ nowUs < lossTime

variable {σ : Type} {onLoss : AckState → SentPkt → σ → σ}

/-- Looking for losses sets the timer for later only. -/
theorem detectLoop_later (ctx : σ) (later : Later nowUs ack.lossTime) :
    Later nowUs (detectLoop onLoss nowUs largestAcked delay sent ack ctx).2.1.lossTime := by
  induction sent generalizing ack ctx with
  | nil => exact later
  | cons pkt rest ih =>
    unfold detectLoop
    split
    · exact ih ctx later
    · split
      · exact ih ctx later
      · split
        · obtain ⟨bytes, less⟩ := removeInFlight_only ack pkt
          rw [less]
          exact ih _ later
        · -- A packet that is not lost yet has its deadline ahead.
          rename_i kept
          refine ih ctx ?_
          have ahead : nowUs < pkt.sentTime + delay := by
            simp only [isLost, Bool.or_eq_true, decide_eq_true_eq, not_or, UInt64.not_le] at kept
            exact kept.2
          show Later nowUs (if _ then _ else _)
          split
          · exact later
          · exact .inr ahead

/-- The timer is off where looking for losses keeps nothing. -/
theorem detectLoop_off {ctx : σ} (off : ack.lossTime = timeNever)
    (nothing : (detectLoop onLoss nowUs largestAcked delay sent ack ctx).1 = []) :
    (detectLoop onLoss nowUs largestAcked delay sent ack ctx).2.1.lossTime = timeNever := by
  induction sent generalizing ack ctx with
  | nil => exact off
  | cons pkt rest ih =>
    unfold detectLoop at nothing ⊢
    split at nothing
    · rename_i declared
      rw [if_pos declared]
      exact ih off nothing
    · rename_i fresh
      rw [if_neg fresh]
      split at nothing
      · cases nothing
      · rename_i older
        rw [if_neg older]
        split at nothing
        · rename_i lost
          obtain ⟨bytes, less⟩ := removeInFlight_only ack pkt
          rw [less] at nothing
          rw [if_pos lost, less]
          exact ih off nothing
        · cases nothing

/-- Once the timer has fired, every packet kept has its deadline ahead. -/
theorem ackOnLossTimeout_progress {frames : List FrameAck}
    (log : AckLog) (armed : ack.lossTime ≠ timeNever) (due : ack.lossTime ≤ nowUs) :
    (∀ pkt ∈ (ackOnLossTimeout (reportLoss nowUs frames) ack nowUs log).1.sent,
      nowUs < pkt.sentTime +
        lossDelay (ackOnLossTimeout (reportLoss nowUs frames) ack nowUs log).1) ∧
    Later nowUs (ackOnLossTimeout (reportLoss nowUs frames) ack nowUs log).1.lossTime := by
  unfold ackOnLossTimeout
  rw [if_pos ⟨armed, due⟩]
  have kept := (detectLostPackets_log nowUs (largestSent ack.sent) frames ack log).1
  obtain ⟨_, _, _, only⟩ :=
    detectLostPackets_only (reportLoss nowUs frames) nowUs (largestSent ack.sent) ack log
  have delay : lossDelay (detectLostPackets (reportLoss nowUs frames) ack nowUs
      (largestSent ack.sent) log).1 = lossDelay ack := by
    rw [only]
    rfl
  constructor
  · intro pkt member
    rw [delay]
    rw [kept, List.mem_filter] at member
    obtain ⟨tracked, stays⟩ := member
    obtain ⟨top, -, largest, highest⟩ := largestSent_mem tracked
    have within : ¬ pkt.pktNum > largestSent ack.sent := by
      rw [largest]
      exact UInt64.not_lt.mpr (highest pkt tracked)
    simp only [keepsPkt, losesPkt, isLost, within, decide_false, Bool.not_false, Bool.and_true,
      Bool.and_eq_true, Bool.not_eq_true', Bool.and_eq_false_iff, Bool.or_eq_false_iff,
      decide_eq_false_iff_not, UInt64.not_le] at stays
    rcases stays with ⟨fresh, declared | ⟨-, ahead⟩⟩
    · rw [fresh] at declared
      cases declared
    · exact ahead
  · exact detectLoop_later log (.inl rfl)

/-- A tracker without packets has its timer off. -/
def Unarmed (ack : AckState) : Prop := ack.sent = [] → ack.lossTime = timeNever

/-- Loss detection turns the timer off where no packet is left. -/
theorem detectLostPackets_unarmed (nowUs largestAcked : UInt64) (ack : AckState) (ctx : σ) :
    Unarmed (detectLostPackets onLoss ack nowUs largestAcked ctx).1 := by
  intro nothing
  have off : ({ ack with lossTime := timeNever } : AckState).lossTime = timeNever := rfl
  exact detectLoop_off off nothing

/-- So does every step of the tracker. -/
theorem trackStep_unarmed {t : Tracker} (unarmed : Unarmed t.ack) (op : AckOp) :
    Unarmed (trackStep t op).ack := by
  cases op with
  | received pktNum nowUs ackEliciting =>
    obtain ⟨_, _, _, _, _, same⟩ := ackOnPktRecv_fields t.ack pktNum nowUs ackEliciting
    simp only [trackStep, same]
    exact unarmed
  | sent pkt =>
    simp only [trackStep]
    unfold ackOnPktSent
    split
    · exact unarmed
    · intro nothing
      simp at nothing
  | acknowledged frame nowUs =>
    simp only [trackStep]
    rw [ackOnAckRecv_log]
    exact detectLostPackets_unarmed _ _ _ _
  | timeout nowUs =>
    simp only [trackStep]
    unfold ackOnLossTimeout
    split
    · exact detectLostPackets_unarmed _ _ _ _
    · exact unarmed

/-- With nothing recorded the timer is off. -/
theorem Tallied.lossTimeout {recorded : List SentPkt} {log : AckLog}
    (accounted : Tallied recorded ack log) (unarmed : Unarmed ack) (nothing : ack.sent = []) :
    ackLossTimeout ack = timeNever := by
  have none : ack.bytesInFlight = 0 := by
    have exact := accounted.exact
    rw [nothing] at exact
    exact UInt64.toNat_inj.mp exact
  unfold ackLossTimeout
  rw [if_neg (not_not.mpr (unarmed nothing)), none]
  rfl

/-- In every state reached, once the timer is set and due, firing it leaves only packets that have
their deadline ahead and the timer off or set for later; and without packets nothing is waited for.
-/
theorem loss_timer_progress (inputs : List AckOp) (fresh : ∀ op ∈ inputs, SentFresh op) :
    (∀ nowUs, (Machine.run trackStep newTracker inputs).ack.lossTime ≠ timeNever →
      (Machine.run trackStep newTracker inputs).ack.lossTime ≤ nowUs →
      (∀ pkt ∈ (trackStep (Machine.run trackStep newTracker inputs) (.timeout nowUs)).ack.sent,
        nowUs < pkt.sentTime + lossDelay
          (trackStep (Machine.run trackStep newTracker inputs) (.timeout nowUs)).ack) ∧
      ((trackStep (Machine.run trackStep newTracker inputs) (.timeout nowUs)).ack.lossTime =
          timeNever ∨
        nowUs <
          (trackStep (Machine.run trackStep newTracker inputs) (.timeout nowUs)).ack.lossTime)) ∧
    ((Machine.run trackStep newTracker inputs).ack.sent = [] →
      ackLossTimeout (Machine.run trackStep newTracker inputs).ack = timeNever) := by
  have along : Machine.Along trackStep (fun _ => SentFresh) newTracker inputs :=
    Machine.along_of_forall fun op member _ => fresh op member
  have accounted := @Machine.run_invariant _ _ trackStep (fun _ => SentFresh)
    (fun t : Tracker => Tallied t.recorded t.ack t.log)
    (fun t op accounted new => trackStep_tallied accounted new) _ _ newTracker_tallied along
  have unarmed := @Machine.run_preserves _ _ trackStep (fun t : Tracker => Unarmed t.ack)
    (fun t op unarmed => trackStep_unarmed unarmed op) inputs newTracker fun _ => rfl
  exact ⟨fun nowUs armed due => ackOnLossTimeout_progress _ armed due,
    accounted.lossTimeout unarmed⟩

/-- A timer that is off counts as due at the end of time, but nothing is reported then. -/
theorem loss_timer_off :
    (trackStep newTracker (.sent (flyingPkt 0 0))).ack.lossTime ≤ timeNever ∧
    (trackStep (trackStep newTracker (.sent (flyingPkt 0 0))) (.timeout timeNever)).log.lost = [] ∧
    ∃ pkt ∈ (trackStep (trackStep newTracker (.sent (flyingPkt 0 0)))
        (.timeout timeNever)).ack.sent,
      pkt.sentTime + lossDelay (trackStep (trackStep newTracker (.sent (flyingPkt 0 0)))
        (.timeout timeNever)).ack ≤ timeNever := by
  decide +kernel

/-- A packet that waits behind a later one is reported when the timer fires. -/
theorem loss_timer_progress_behind :
    (∀ op ∈ [.sent (flyingPkt 0 0), .sent (flyingPkt 1 0), .acknowledged (singleAck 1) 500],
      SentFresh op) ∧
    (Machine.run trackStep newTracker [.sent (flyingPkt 0 0), .sent (flyingPkt 1 0),
      .acknowledged (singleAck 1) 500]).ack.lossTime = 1000 ∧
    ∀ pkt ∈ (trackStep (Machine.run trackStep newTracker [.sent (flyingPkt 0 0),
        .sent (flyingPkt 1 0), .acknowledged (singleAck 1) 500]) (.timeout 1200)).ack.sent,
      1200 < pkt.sentTime + lossDelay (trackStep (Machine.run trackStep newTracker
        [.sent (flyingPkt 0 0), .sent (flyingPkt 1 0), .acknowledged (singleAck 1) 500])
        (.timeout 1200)).ack := by
  have fresh : ∀ op ∈ [.sent (flyingPkt 0 0), .sent (flyingPkt 1 0),
      .acknowledged (singleAck 1) 500], SentFresh op := by
    simp [SentFresh, flyingPkt]
  refine ⟨fresh, by decide +kernel, ?_⟩
  exact ((loss_timer_progress _ fresh).1 1200 (by decide +kernel) (by decide +kernel)).1

end Nxp
