import Mathlib.Data.List.Nodup
import Nxp.Core.AckTally

/-! The bytes in flight are exactly those of the tracked packets, and no packet is lost track of. -/

namespace Nxp

variable {t : Tracker} {op : AckOp}

/-- Packets are handed to the tracker in the order of their numbers and not as lost already. -/
def SentInOrder (t : Tracker) : AckOp → Prop
  | .sent pkt => pkt.declaredLost = false ∧ ∀ earlier ∈ t.recorded, earlier.pktNum < pkt.pktNum
  | _ => True

/-- Packets are recorded in the order of their numbers. -/
theorem trackStep_increasing
    (increasing : t.recorded.Pairwise fun earlier later => earlier.pktNum < later.pktNum)
    (inOrder : SentInOrder t op) :
    (trackStep t op).recorded.Pairwise fun earlier later => earlier.pktNum < later.pktNum := by
  cases op with
  | sent pkt =>
    simp only [trackStep]
    split
    · rw [List.pairwise_append]
      refine ⟨increasing, List.pairwise_singleton _ _, fun earlier member later same => ?_⟩
      rw [List.mem_singleton.mp same]
      exact inOrder.2 earlier member
    · exact increasing
  | received pktNum nowUs ackEliciting => exact increasing
  | acknowledged frame nowUs => exact increasing
  | timeout nowUs => exact increasing

theorem SentInOrder.fresh (inOrder : SentInOrder t op) :
    SentFresh op := by
  cases op with
  | sent pkt => exact inOrder.1
  | received pktNum nowUs ackEliciting => trivial
  | acknowledged frame nowUs => trivial
  | timeout nowUs => trivial

/-- In every run the bytes in flight are those of the tracked packets, and every packet ever
recorded is still tracked, was reported as acknowledged or was reported as lost, once and only one
of these. -/
theorem inFlight_exact (inputs : List AckOp)
    (inOrder : Machine.Along trackStep SentInOrder newTracker inputs) :
    (Machine.run trackStep newTracker inputs).ack.bytesInFlight.toNat =
        flightBytes (Machine.run trackStep newTracker inputs).ack.sent ∧
      ∀ pkt ∈ (Machine.run trackStep newTracker inputs).recorded,
        countPkt pkt.pktNum (Machine.run trackStep newTracker inputs).ack.sent +
          countPkt pkt.pktNum (Machine.run trackStep newTracker inputs).log.acked +
          countLoss pkt.pktNum (Machine.run trackStep newTracker inputs).log.lost = 1 := by
  have start : Tallied newTracker.recorded newTracker.ack newTracker.log ∧
      newTracker.recorded.Pairwise fun earlier later => earlier.pktNum < later.pktNum :=
    ⟨newTracker_tallied, List.Pairwise.nil⟩
  have reached := @Machine.run_invariant _ _ _ _
    (fun t : Tracker => Tallied t.recorded t.ack t.log ∧
      t.recorded.Pairwise fun earlier later => earlier.pktNum < later.pktNum)
    (fun t op both inOrder => ⟨trackStep_tallied both.1 inOrder.fresh,
      trackStep_increasing both.2 inOrder⟩) _ _ start inOrder
  generalize Machine.run trackStep newTracker inputs = t at reached
  obtain ⟨accounted, increasing⟩ := reached
  refine ⟨accounted.exact, fun pkt member => (accounted.each pkt.pktNum).trans ?_⟩
  -- The numbers recorded are all different.
  have nodup : (t.recorded.map SentPkt.pktNum).Nodup :=
    List.Pairwise.imp (fun below same => absurd (same ▸ below) (UInt64.lt_irrefl _))
      (List.pairwise_map.mpr increasing)
  have once := List.count_eq_one_of_mem nodup (List.mem_map_of_mem member)
  rw [List.count_eq_countP, List.countP_map] at once
  exact once

/-- Five packets are sent and the last of them is acknowledged. -/
def lastAcked : List AckOp :=
  [.sent (flyingPkt 0 0), .sent (flyingPkt 1 0), .sent (flyingPkt 2 0), .sent (flyingPkt 3 0),
    .sent (flyingPkt 4 0), .acknowledged (singleAck 4) 500]

/-- One packet is acknowledged, two are lost and two are still in flight. -/
theorem inFlight_exact_lastAcked :
    Machine.Along trackStep SentInOrder newTracker lastAcked ∧
    (Machine.run trackStep newTracker lastAcked).ack.bytesInFlight.toNat =
        flightBytes (Machine.run trackStep newTracker lastAcked).ack.sent ∧
      ∀ pkt ∈ (Machine.run trackStep newTracker lastAcked).recorded,
        countPkt pkt.pktNum (Machine.run trackStep newTracker lastAcked).ack.sent +
          countPkt pkt.pktNum (Machine.run trackStep newTracker lastAcked).log.acked +
          countLoss pkt.pktNum (Machine.run trackStep newTracker lastAcked).log.lost = 1 := by
  have inOrder : Machine.Along trackStep SentInOrder newTracker lastAcked := by
    refine ⟨⟨rfl, ?_⟩, ⟨rfl, ?_⟩, ⟨rfl, ?_⟩, ⟨rfl, ?_⟩, ⟨rfl, ?_⟩, trivial, trivial⟩ <;> decide
  exact ⟨inOrder, inFlight_exact lastAcked inOrder⟩

end Nxp
