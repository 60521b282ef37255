import Nxp.Core.Arrivals

/-! The ranges kept of received numbers are exactly the numbers received while there is room. -/

namespace Nxp

theorem Dropped.count_lt {limit : Nat} (bound : limit < 2 ^ 64) {ranges : List RecvPnRange}
    (ordered : RangesWithin limit ranges) {pktNum : UInt64} (small : pktNum.toNat < limit)
    (dropped : Dropped ranges pktNum) {numbers : Finset Nat}
    (cover : ∀ n, n ∈ numbers ↔ Covered ranges n ∨ n = pktNum.toNat) :
    maxRecvRanges < Runs.count numbers := by
  obtain ⟨apart, full⟩ := dropped
  -- The ranges with the number put in are what a larger table would hold.
  have larger := ordered.insertNew bound small apart
  have covers : ∀ n, n ∈ numbers ↔ ∃ r ∈ ranges.insertIdx
      (ranges.findIdx fun r => !(r.start > pktNum)) ⟨pktNum, pktNum⟩,
      r.start.toNat ≤ n ∧ n ≤ r.last.toNat := by
    intro n
    have single : (pktNum.toNat ≤ n ∧ n ≤ pktNum.toNat) ↔ n = pktNum.toNat := by omega
    simp only [cover, Covered, List.mem_insertIdx List.findIdx_le_length, or_and_right, exists_or,
      exists_eq_left, single]
    exact or_comm
  have needed := @Runs.count_eq_length _ (fun r : RecvPnRange => r.start.toNat)
    (fun r => r.last.toNat) _ _ (fun r member => (larger.valid r member).1) larger.apart covers
  rw [List.length_insertIdx_of_le_length List.findIdx_le_length] at needed
  omega

theorem covered_iff_received {limit : Nat} (bound : limit < 2 ^ 64) {arrivals : List Arrival}
    (small : ∀ arrival ∈ arrivals, arrival.pktNum.toNat < limit)
    (room : ∀ before, before <+: arrivals → Runs.count (receivedNums before) ≤ maxRecvRanges)
    (n : Nat) :
    Covered (afterArrivals arrivals).recvRanges.ranges n ↔ n ∈ receivedNums arrivals := by
  induction arrivals using List.reverseRecOn generalizing n with
  | nil => simp [Covered, receivedNums, afterArrivals, ackInit]
  | append_singleton before arrival ih =>
    have earlier : ∀ other ∈ before, other.pktNum.toNat < limit :=
      fun other member => small other (List.mem_append_left _ member)
    have known := ih earlier fun shorter short => room shorter (short.trans (List.prefix_append ..))
    have ordered := afterArrivals_within bound earlier
    have fits : arrival.pktNum.toNat < limit := small arrival (by simp)
    have kept : ¬ Dropped (afterArrivals before).recvRanges.ranges arrival.pktNum := by
      intro dropped
      have more := dropped.count_lt bound ordered fits fun n => by
        rw [known, receivedNums_concat]
      have enough := room _ (List.prefix_refl _)
      omega
    rw [afterArrivals_concat, ackOnPktRecv_covered bound ordered fits, known, receivedNums_concat]
    simp only [kept, not_false_eq_true, and_true]

/-- However packets arrive, the ranges are in order and apart, hold only numbers that arrived, and
the largest number is kept; while no more ranges are ever needed than there is room for, they hold
all numbers that arrived. -/
theorem received_ranges_exact (arrivals : List Arrival)
    (small : ∀ arrival ∈ arrivals, arrival.pktNum.toNat < 2 ^ 62) :
    RangesOrdered (afterArrivals arrivals).recvRanges.ranges ∧
    (∀ n, Covered (afterArrivals arrivals).recvRanges.ranges n → n ∈ receivedNums arrivals) ∧
    (arrivals ≠ [] → IsGreatest (receivedNums arrivals : Set Nat)
      (afterArrivals arrivals).largestRecvPn.toNat) ∧
    ((∀ before, before <+: arrivals → Runs.count (receivedNums before) ≤ maxRecvRanges) →
      ∀ n, Covered (afterArrivals arrivals).recvRanges.ranges n ↔ n ∈ receivedNums arrivals) := by
  have bound : 2 ^ 62 < 2 ^ 64 := by decide
  refine ⟨afterArrivals_within bound small, fun n covered => ?_, afterArrivals_largest bound small,
    covered_iff_received bound small⟩
  exact ((covered_iff_recorded bound small n).mp covered).received

/-- Five packets that fill a gap between two ranges. -/
def bridgedArrivals : List Arrival :=
  [⟨0, 10, true⟩, ⟨1, 20, true⟩, ⟨3, 30, true⟩, ⟨4, 40, false⟩, ⟨2, 50, true⟩]

/-- The ranges of five packets that arrive out of order are exactly those packets. -/
theorem received_ranges_exact_bridged :
    (∀ arrival ∈ bridgedArrivals, arrival.pktNum.toNat < 2 ^ 62) ∧
    (afterArrivals bridgedArrivals).recvRanges.ranges = [⟨0, 4⟩] ∧
    ∀ n, Covered (afterArrivals bridgedArrivals).recvRanges.ranges n ↔
      n ∈ receivedNums bridgedArrivals := by
  refine ⟨by decide, by decide +kernel,
    (received_ranges_exact bridgedArrivals (by decide)).2.2.2 fun before short => ?_⟩
  have each : ∀ before ∈ bridgedArrivals.inits, Runs.count (receivedNums before) ≤ maxRecvRanges := by
    decide +kernel
  exact each before ((List.mem_inits ..).mpr short)

end Nxp
