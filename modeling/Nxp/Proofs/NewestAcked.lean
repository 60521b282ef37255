import Nxp.Core.Arrivals

/-! Whether an acknowledgement names the largest number that arrived. -/

namespace Nxp

/-- Some packet with the largest number of all arrived when its number was not dropped. -/
def NewestKept (arrivals : List Arrival) : Prop :=
  ∃ before arrival after, arrivals = before ++ arrival :: after ∧
    (∀ other ∈ arrivals, other.pktNum ≤ arrival.pktNum) ∧
    ¬ Dropped (afterArrivals before).recvRanges.ranges arrival.pktNum

theorem RangesWithin.first_greatest {limit : Nat} {first : RecvPnRange} {rest : List RecvPnRange}
    (ordered : RangesWithin limit (first :: rest)) {n : Nat} (covered : Covered (first :: rest) n) :
    n ≤ first.last.toNat := by
  obtain ⟨valid, below, -⟩ := rangesWithin_cons.mp ordered
  rcases covered_cons.mp covered with inside | ⟨r, member, inside⟩
  · exact inside.2
  · have gap : r.last.toNat + 2 ≤ first.start.toNat := below r member
    have starts := valid.1
    omega

/-- An ACK frame names the greatest number recorded. -/
theorem ackBuildFrame_largestAcked {limit : Nat} {ack : AckState}
    (ordered : RangesWithin limit ack.recvRanges.ranges) {nowUs : UInt64} {frame : FrameAck}
    (built : ackBuildFrame ack nowUs = some frame) :
    IsGreatest {n | Covered ack.recvRanges.ranges n} frame.largestAcked.toNat := by
  obtain ⟨first, rest, stored, rfl⟩ := ackBuildFrame_some built
  rw [stored] at ordered ⊢
  have starts := (ordered.valid first (List.mem_cons_self ..)).1
  exact ⟨⟨first, List.mem_cons_self .., starts, Nat.le_refl _⟩,
    fun n covered => ordered.first_greatest covered⟩

/-- The newest number is acknowledged exactly when it is recorded. -/
theorem newestKept_iff {arrivals : List Arrival} {largest : Nat}
    (greatest : IsGreatest (receivedNums arrivals : Set Nat) largest) :
    NewestKept arrivals ↔ Recorded arrivals largest := by
  obtain ⟨among, most⟩ := greatest
  have bounded : ∀ other ∈ arrivals, other.pktNum.toNat ≤ largest := fun other member =>
    most (List.mem_toFinset.mpr (List.mem_map.mpr ⟨other, member, rfl⟩))
  constructor
  · rintro ⟨before, arrival, after, split, above, kept⟩
    refine ⟨before, arrival, after, split, Nat.le_antisymm ?_ ?_, kept⟩
    · exact bounded arrival (by simp [split])
    · obtain ⟨other, member, same⟩ := List.mem_map.mp (List.mem_toFinset.mp among)
      rw [← same]
      exact UInt64.le_iff_toNat_le.mp (above other member)
  · rintro ⟨before, arrival, after, split, same, kept⟩
    refine ⟨before, arrival, after, split, fun other member => ?_, kept⟩
    rw [UInt64.le_iff_toNat_le, same]
    exact bounded other member

/-- Acknowledgements name the largest number that arrived, which is the one kept, exactly when a
packet with that number arrived while its number was next to a range or there was room for one. -/
theorem newest_acked_iff (arrivals : List Arrival)
    (below : ∀ arrival ∈ arrivals, arrival.pktNum.toNat < 2 ^ 64 - 1) (nowUs : UInt64) :
    (∀ frame, ackBuildFrame (afterArrivals arrivals) nowUs = some frame →
      frame.largestAcked = (afterArrivals arrivals).largestRecvPn ∧
      IsGreatest (receivedNums arrivals : Set Nat) frame.largestAcked.toNat) ↔
    (arrivals ≠ [] → NewestKept arrivals) := by
  have bound : 2 ^ 64 - 1 < 2 ^ 64 := by decide
  have ordered := afterArrivals_within bound below
  have recorded := covered_iff_recorded bound below
  constructor
  · intro named any
    have greatest := afterArrivals_largest bound below any
    obtain ⟨first, rest, stored⟩ :=
      List.exists_cons_of_ne_nil (afterArrivals_nonempty bound below any)
    cases built : ackBuildFrame (afterArrivals arrivals) nowUs with
    | none => simp [ackBuildFrame, stored] at built
    | some frame =>
      have covered := (ackBuildFrame_largestAcked ordered built).1
      rw [(named frame built).1] at covered
      exact (newestKept_iff greatest).mpr ((recorded _).mp covered)
  · intro kept frame built
    have any : arrivals ≠ [] := by
      rintro rfl
      cases built
    have greatest := afterArrivals_largest bound below any
    obtain ⟨covered, most⟩ := ackBuildFrame_largestAcked ordered built
    -- The frame names the largest number recorded, and the largest that arrived is among them.
    have newest := (recorded _).mpr ((newestKept_iff greatest).mp (kept any))
    have same : frame.largestAcked.toNat = (afterArrivals arrivals).largestRecvPn.toNat :=
      Nat.le_antisymm (greatest.2 ((recorded _).mp covered).received) (most newest)
    refine ⟨UInt64.toNat_inj.mp same, ?_⟩
    rw [same]
    exact greatest

/-- Every other number up to a table full of ranges, and then a number further up. -/
def sparseArrivals : List Arrival :=
  (List.range 64).map (fun i => ⟨UInt64.ofNat (2 * i), 10, true⟩) ++ [⟨200, 20, true⟩]

/-- The newest packet is not acknowledged once every other packet was missing often enough. -/
theorem newest_not_acked :
    (∀ arrival ∈ sparseArrivals, arrival.pktNum.toNat < 2 ^ 62) ∧
    (afterArrivals sparseArrivals).largestRecvPn = 200 ∧
    (ackBuildFrame (afterArrivals sparseArrivals) 30).map (·.largestAcked) = some 126 := by
  decide +kernel

/-- Two packets with a gap between them are both acknowledged. -/
theorem newest_acked_gap :
    (∀ arrival ∈ ([⟨0, 10, true⟩, ⟨5, 20, true⟩] : List Arrival),
      arrival.pktNum.toNat < 2 ^ 64 - 1) ∧
    ∀ frame, ackBuildFrame (afterArrivals [⟨0, 10, true⟩, ⟨5, 20, true⟩]) 30 = some frame →
      frame.largestAcked = (afterArrivals [⟨0, 10, true⟩, ⟨5, 20, true⟩]).largestRecvPn := by
  have small : ∀ arrival ∈ ([⟨0, 10, true⟩, ⟨5, 20, true⟩] : List Arrival),
      arrival.pktNum.toNat < 2 ^ 64 - 1 := by decide
  refine ⟨small, fun frame built => ?_⟩
  refine ((newest_acked_iff _ small 30).mpr (fun _ => ?_) frame built).1
  refine ⟨[⟨0, 10, true⟩], ⟨5, 20, true⟩, [], rfl, by decide, fun dropped => ?_⟩
  exact absurd dropped.2 (by decide +kernel)

end Nxp
