import Nxp.Core.Ack

/-! What walking over the tracked packets preserves, whatever the callbacks do. -/

namespace Nxp

section Walks

variable {σ : Type} {onAck onLoss : AckState → SentPkt → σ → σ}
  (invariant : List SentPkt → σ → Prop)
  (acked : ∀ kept pkt rest ack ctx, invariant (kept ++ pkt :: rest) ctx →
    invariant (kept ++ rest) (onAck ack pkt ctx))
  (forgotten : ∀ kept pkt rest ctx, pkt.declaredLost = true →
    invariant (kept ++ pkt :: rest) ctx → invariant (kept ++ rest) ctx)
  (lost : ∀ kept pkt rest ack ctx, pkt.declaredLost = false →
    invariant (kept ++ pkt :: rest) ctx →
    invariant (kept ++ rest) (onLoss ack { pkt with declaredLost := true } ctx))

section Losses

include forgotten lost

/-- What the loss of any tracked packet preserves, looking for losses preserves. -/
theorem detectLoop_invariant (nowUs largestAcked delay : UInt64) {sent : List SentPkt}
    (kept : List SentPkt) (ack : AckState) (ctx : σ) (start : invariant (kept ++ sent) ctx) :
    invariant (kept ++ (detectLoop onLoss nowUs largestAcked delay sent ack ctx).1)
      (detectLoop onLoss nowUs largestAcked delay sent ack ctx).2.2 := by
  -- The induction is on the packets still to be looked at; those kept so far stand before them.
  induction sent generalizing kept ack ctx with
  | nil => exact start
  | cons pkt rest ih =>
    unfold detectLoop
    split
    · exact ih kept ack ctx (forgotten kept pkt rest ctx ‹_› start)
    · rename_i fresh
      split
      · -- A packet above the largest acknowledged one stays.
        have next := ih (kept ++ [pkt]) ack ctx (by simpa using start)
        simpa using next
      · split
        · exact ih kept _ _ (lost kept pkt rest _ ctx (by simpa using fresh) start)
        · -- So does one that may still be acknowledged, with a deadline.
          have next := fun ack => ih (kept ++ [pkt]) ack ctx (by simpa using start)
          simpa using next _

/-- What the loss of any tracked packet preserves, detection preserves. -/
theorem detectLostPackets_invariant (nowUs largestAcked : UInt64) (ack : AckState) {ctx : σ}
    (start : invariant ack.sent ctx) :
    invariant (detectLostPackets onLoss ack nowUs largestAcked ctx).1.sent
      (detectLostPackets onLoss ack nowUs largestAcked ctx).2 :=
  detectLoop_invariant invariant forgotten lost nowUs largestAcked _ [] _ ctx start

/-- What losses of tracked packets preserve, the loss timer preserves. -/
theorem ackOnLossTimeout_invariant (ack : AckState) (nowUs : UInt64) {ctx : σ}
    (start : invariant ack.sent ctx) :
    invariant (ackOnLossTimeout onLoss ack nowUs ctx).1.sent
      (ackOnLossTimeout onLoss ack nowUs ctx).2 := by
  unfold ackOnLossTimeout
  split
  · exact detectLostPackets_invariant invariant forgotten lost _ _ _ start
  · exact start

end Losses

include acked

/-- What each acknowledgement preserves, the whole pass preserves. -/
theorem ackLoop_invariant (frame : FrameAck) (nowUs : UInt64) {sent : List SentPkt}
    (kept : List SentPkt) (ack : AckState) (ctx : σ) (sample : Option UInt64) (start : invariant (kept ++ sent) ctx) :
    invariant (kept ++ (ackLoop onAck frame nowUs sent ack ctx sample).1)
      (ackLoop onAck frame nowUs sent ack ctx sample).2.2.1 := by
  -- The induction is on the packets still to be looked at, as for losses.
  induction sent generalizing kept ack ctx sample with
  | nil => exact start
  | cons pkt rest ih =>
    unfold ackLoop
    split
    · exact ih kept _ _ _ (acked kept pkt rest _ ctx start)
    · have next := ih (kept ++ [pkt]) ack ctx sample (by simpa using start)
      simpa using next

include forgotten lost

/-- What acknowledgements and losses of tracked packets preserve, an acknowledgement preserves. -/
theorem ackOnAckRecv_invariant (ack : AckState) (frame : FrameAck) (nowUs : UInt64) {ctx : σ}
    (start : invariant ack.sent ctx) :
    invariant (ackOnAckRecv onAck onLoss ack frame nowUs ctx).1.sent
      (ackOnAckRecv onAck onLoss ack frame nowUs ctx).2 := by
  have walked := ackLoop_invariant invariant acked frame nowUs [] ack ctx none start
  apply detectLostPackets_invariant invariant forgotten lost
  -- A delay sample changes estimates and not what is tracked.
  simp only
  split
  · exact walked
  · unfold updateRtt
    simp only
    split <;> exact walked

end Walks

section Recorded

variable {ranges : List RecvPnRange} {i : Nat} {pktNum : UInt64}

theorem extendLast_ne (found : i < ranges.length) (above : pktNum = ranges[i].last + 1) :
    extendLast ranges i pktNum ≠ ranges := by
  unfold extendLast
  simp only
  split
  · -- Two ranges became one.
    intro same
    have shorter := congrArg List.length same
    simp only [List.length_eraseIdx, List.length_set] at shorter
    rw [if_pos found] at shorter
    omega
  · intro same
    have entry : (ranges.set i { ranges.getD i default with last := pktNum })[i]? = ranges[i]? := by
      rw [same]
    rw [List.getElem?_set_self found, List.getElem?_eq_getElem found, Option.some.injEq] at entry
    have moved : pktNum = ranges[i].last := congrArg RecvPnRange.last entry
    rw [moved] at above
    simp at above

theorem extendStart_ne (found : i < ranges.length) (below : pktNum + 1 = ranges[i].start) :
    extendStart ranges i pktNum ≠ ranges := by
  unfold extendStart
  simp only
  split
  · rename_i join
    intro same
    have shorter := congrArg List.length same
    simp only [List.length_eraseIdx, List.length_set] at shorter join
    rw [if_pos join.1] at shorter
    omega
  · intro same
    have entry : (ranges.set i { ranges.getD i default with start := pktNum })[i]? =
        ranges[i]? := by rw [same]
    rw [List.getElem?_set_self found, List.getElem?_eq_getElem found, Option.some.injEq] at entry
    have moved : pktNum = ranges[i].start := congrArg RecvPnRange.start entry
    rw [← moved] at below
    simp at below

/-- A new number leaves the ranges as they are exactly when there is no room for it. -/
theorem insertPktNum_eq_iff (new : ∀ r ∈ ranges, r.contains pktNum = false) :
    insertPktNum ranges pktNum = ranges ↔
      maxRecvRanges ≤ ranges.length ∧ ∀ r ∈ ranges, r.touches pktNum = false := by
  unfold insertPktNum
  split
  · rename_i i found
    obtain ⟨inside, touching, -⟩ := List.findIdx?_eq_some_iff_getElem.mp found
    have member : ranges[i] ∈ ranges := List.getElem_mem inside
    have outside := new _ member
    refine iff_of_false ?_ fun still => ?_
    · unfold extendRange
      simp only [List.getD_eq_getElem?_getD, List.getElem?_eq_getElem inside, Option.getD_some,
        outside, Bool.false_eq_true, if_false]
      split
      · rename_i above
        exact extendLast_ne inside above
      · rename_i notAbove
        refine extendStart_ne inside ?_
        simpa [RecvPnRange.touches, outside, notAbove] using touching
    · rw [still.2 _ member] at touching
      cases touching
  · rename_i apart
    have apart := List.findIdx?_eq_none_iff.mp apart
    split
    · rename_i room
      refine iff_of_false (fun same => ?_) fun full => absurd full.1 (by omega)
      have longer := congrArg List.length same
      rw [List.length_insertIdx_of_le_length List.findIdx_le_length] at longer
      omega
    · exact iff_of_true rfl ⟨by omega, apart⟩

end Recorded

/-- Recording a number would change nothing: it is known already, or there is no room for it and
an acknowledgement is due at the same time anyway. -/
def AckState.Settled (ack : AckState) (pktNum nowUs : UInt64) : Prop :=
  (∃ r ∈ ack.recvRanges.ranges, r.contains pktNum = true) ∨
    (maxRecvRanges ≤ ack.recvRanges.ranges.length ∧
      (∀ r ∈ ack.recvRanges.ranges, r.touches pktNum = false) ∧ pktNum ≤ ack.largestRecvPn ∧
      ack.ackNeeded = true ∧ ack.ackDelayTimer = nowUs + ackDelayUs)

/-- Receiving an eliciting packet leaves a tracker as it is exactly when its number is settled. -/
theorem ackOnPktRecv_eq_iff (ack : AckState) (pktNum nowUs : UInt64) :
    ackOnPktRecv ack pktNum nowUs true = ack ↔ ack.Settled pktNum nowUs := by
  unfold ackOnPktRecv AckState.Settled
  simp only [if_true]
  split
  · rename_i known
    exact iff_of_true rfl (.inl (List.any_eq_true.mp known))
  · rename_i unknown
    have new : ∀ r ∈ ack.recvRanges.ranges, r.contains pktNum = false := by
      simpa using unknown
    have absent : ¬ ∃ r ∈ ack.recvRanges.ranges, r.contains pktNum = true := by
      rintro ⟨r, member, inside⟩
      rw [new r member] at inside
      cases inside
    rw [or_iff_right absent, ← and_assoc, ← insertPktNum_eq_iff new]
    constructor
    · intro same
      have ranges := congrArg (fun ack => ack.recvRanges.ranges) same
      have needed := congrArg AckState.ackNeeded same
      have timer := congrArg AckState.ackDelayTimer same
      have largest := congrArg AckState.largestRecvPn same
      refine ⟨?_, ?_, needed.symm, timer.symm⟩
      · simpa [RecvRanges.insert, apply_ite] using ranges
      · by_contra larger
        rw [if_pos (by simp [UInt64.not_le.mp larger])] at largest
        exact larger (largest ▸ UInt64.le_refl _)
    · rintro ⟨ranges, largest, needed, timer⟩
      have full := ((insertPktNum_eq_iff new).mp ranges).1
      have received : ack.recvRanges.ranges.isEmpty = false := by
        cases stored : ack.recvRanges.ranges with
        | nil =>
          rw [stored] at full
          exact absurd full (by decide)
        | cons _ _ => rfl
      have keeps : ack.recvRanges.insert pktNum = ack.recvRanges := by
        unfold RecvRanges.insert
        simp only [ranges]
      rw [if_neg (by simpa [received] using largest), keeps, ← needed, ← timer]

end Nxp
