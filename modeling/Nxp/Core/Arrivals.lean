import Nxp.Core.RangeLaws
import Nxp.Lib.Machine
import Nxp.Lib.Runs
import Mathlib.Order.Bounds.Basic

/-! What a receiver has recorded after packets arrived in any order. -/

namespace Nxp

variable (before : List Arrival) (arrival : Arrival)

/-- A packet that reaches the receiver. -/
structure Arrival where
  pktNum : UInt64
  nowUs : UInt64
  ackEliciting : Bool

/-- The receiver's tracker after packets arrived in turn. -/
def afterArrivals (arrivals : List Arrival) : AckState :=
  Machine.run (fun ack arrival => ackOnPktRecv ack arrival.pktNum arrival.nowUs arrival.ackEliciting)
    ackInit arrivals

/-- The numbers that arrived. -/
def receivedNums (arrivals : List Arrival) : Finset Nat :=
  (arrivals.map (·.pktNum.toNat)).toFinset

/-- A number arrived at a time when it was not dropped. -/
def Recorded (arrivals : List Arrival) (n : Nat) : Prop :=
  ∃ before arrival after, arrivals = before ++ arrival :: after ∧ arrival.pktNum.toNat = n ∧
    ¬ Dropped (afterArrivals before).recvRanges.ranges arrival.pktNum

variable {limit : Nat} {arrivals : List Arrival}

/-- The last packet comes on top of all those before it. -/
theorem afterArrivals_concat :
    afterArrivals (before ++ [arrival]) = ackOnPktRecv (afterArrivals before) arrival.pktNum
      arrival.nowUs arrival.ackEliciting := by
  rw [afterArrivals, Machine.run_append]
  rfl

/-- The last packet adds its number to those that arrived. -/
theorem receivedNums_concat (n : Nat) :
    n ∈ receivedNums (before ++ [arrival]) ↔ n ∈ receivedNums before ∨ n = arrival.pktNum.toNat := by
  simp [receivedNums, eq_comm, or_comm]

/-- The ranges of a receiver of small numbers are in order. -/
theorem afterArrivals_within (bound : limit < 2 ^ 64)
    (small : ∀ arrival ∈ arrivals, arrival.pktNum.toNat < limit) :
    RangesWithin limit (afterArrivals arrivals).recvRanges.ranges := by
  have along : Machine.Along
      (fun ack arrival => ackOnPktRecv ack arrival.pktNum arrival.nowUs arrival.ackEliciting)
      (fun _ arrival => arrival.pktNum.toNat < limit) ackInit arrivals :=
    Machine.along_of_forall fun arrival member _ => small arrival member
  have start : RangesWithin limit ackInit.recvRanges.ranges :=
    ⟨by simp [ackInit], by simp [ackInit]⟩
  refine @Machine.run_invariant _ _ _ _ (fun ack => RangesWithin limit ack.recvRanges.ranges)
    (fun ack arrival ordered small => ?_) _ _ start along
  exact ackOnPktRecv_ordered bound ordered small arrival.nowUs arrival.ackEliciting

/-- An arrival is recorded unless the full list of ranges drops it. -/
theorem recorded_concat (n : Nat) :
    Recorded (before ++ [arrival]) n ↔ Recorded before n ∨
      (n = arrival.pktNum.toNat ∧
        ¬ Dropped (afterArrivals before).recvRanges.ranges arrival.pktNum) := by
  constructor
  · rintro ⟨front, here, back, split, rfl, kept⟩
    -- The arrival in question is the last one or lies among those before it.
    rcases List.eq_nil_or_concat back with rfl | ⟨middle, final, rfl⟩
    · obtain ⟨rfl, same⟩ := List.append_inj' split rfl
      cases same
      exact .inr ⟨rfl, kept⟩
    · rw [List.concat_eq_append, ← List.cons_append, ← List.append_assoc] at split
      obtain ⟨rfl, -⟩ := List.append_inj' split rfl
      exact .inl ⟨front, here, middle, rfl, rfl, kept⟩
  · rintro (⟨front, here, back, rfl, same, kept⟩ | ⟨rfl, kept⟩)
    · exact ⟨front, here, back ++ [arrival], by simp, same, kept⟩
    · exact ⟨before, arrival, [], rfl, rfl, kept⟩

/-- A received packet adds exactly its number to those covered, unless it is dropped. -/
theorem ackOnPktRecv_covered (bound : limit < 2 ^ 64) {ack : AckState}
    (ordered : RangesWithin limit ack.recvRanges.ranges) {pktNum : UInt64}
    (small : pktNum.toNat < limit) (nowUs : UInt64) (ackEliciting : Bool) (n : Nat) :
    Covered (ackOnPktRecv ack pktNum nowUs ackEliciting).recvRanges.ranges n ↔
      Covered ack.recvRanges.ranges n ∨
        (n = pktNum.toNat ∧ ¬ Dropped ack.recvRanges.ranges pktNum) := by
  have recorded := ordered.insert_covered bound small n
  unfold ackOnPktRecv
  simp only
  split
  · rename_i known
    refine ⟨.inl, ?_⟩
    rintro (covered | ⟨rfl, -⟩)
    · exact covered
    · exact any_contains_iff.mp known
  · split <;> split <;> exact recorded

/-- The ranges cover exactly the numbers that arrived when they were not dropped. -/
theorem covered_iff_recorded (bound : limit < 2 ^ 64)
    (small : ∀ arrival ∈ arrivals, arrival.pktNum.toNat < limit) (n : Nat) :
    Covered (afterArrivals arrivals).recvRanges.ranges n ↔ Recorded arrivals n := by
  induction arrivals using List.reverseRecOn with
  | nil => simp [Covered, Recorded, afterArrivals, ackInit]
  | append_singleton before arrival ih =>
    have earlier : ∀ other ∈ before, other.pktNum.toNat < limit :=
      fun other member => small other (List.mem_append_left _ member)
    rw [afterArrivals_concat, recorded_concat,
      ackOnPktRecv_covered bound (afterArrivals_within bound earlier) (small arrival (by simp)),
      ih earlier]

/-- What was recorded did arrive. -/
theorem Recorded.received {n : Nat} (recorded : Recorded arrivals n) :
    n ∈ receivedNums arrivals := by
  obtain ⟨before, arrival, after, rfl, rfl, -⟩ := recorded
  simp [receivedNums]

/-- Once a packet arrived there is a range. -/
theorem afterArrivals_nonempty (bound : limit < 2 ^ 64)
    (small : ∀ arrival ∈ arrivals, arrival.pktNum.toNat < limit) (any : arrivals ≠ []) :
    (afterArrivals arrivals).recvRanges.ranges ≠ [] := by
  obtain ⟨first, rest, rfl⟩ := List.exists_cons_of_ne_nil any
  -- The first packet finds the table empty and is recorded.
  have recorded : Recorded (first :: rest) first.pktNum.toNat := by
    refine ⟨[], first, rest, rfl, rfl, fun dropped => ?_⟩
    have full := dropped.2
    simp [afterArrivals, ackInit, maxRecvRanges] at full
  obtain ⟨r, member, -⟩ := (covered_iff_recorded bound small _).mpr recorded
  exact List.ne_nil_of_mem member

theorem ackOnPktRecv_largestRecvPn (ack : AckState) (pktNum nowUs : UInt64) (ackEliciting : Bool) :
    (ackOnPktRecv ack pktNum nowUs ackEliciting).largestRecvPn =
      if ack.recvRanges.ranges.any (·.contains pktNum) then ack.largestRecvPn
      else if ack.recvRanges.ranges.isEmpty || pktNum > ack.largestRecvPn then pktNum
      else ack.largestRecvPn := by
  unfold ackOnPktRecv
  simp only
  split
  · rfl
  · split <;> split <;> rfl

/-- The largest number kept is the largest that arrived. -/
theorem afterArrivals_largest (bound : limit < 2 ^ 64)
    (small : ∀ arrival ∈ arrivals, arrival.pktNum.toNat < limit) (any : arrivals ≠ []) :
    IsGreatest (receivedNums arrivals : Set Nat) (afterArrivals arrivals).largestRecvPn.toNat := by
  induction arrivals using List.reverseRecOn with
  | nil => exact absurd rfl any
  | append_singleton before arrival ih =>
    have earlier : ∀ other ∈ before, other.pktNum.toNat < limit :=
      fun other member => small other (List.mem_append_left _ member)
    rw [afterArrivals_concat, ackOnPktRecv_largestRecvPn]
    by_cases nothing : before = []
    · subst nothing
      simp [afterArrivals, ackInit, receivedNums]
    · obtain ⟨among, most⟩ := ih earlier nothing
      have kept := afterArrivals_nonempty bound earlier nothing
      have grown := receivedNums_concat before arrival
      simp only [Finset.mem_coe, mem_upperBounds] at among most
      split
      · -- A number in a range arrived before.
        rename_i known
        have again := ((covered_iff_recorded bound earlier _).mp (any_contains_iff.mp known)).received
        refine ⟨(grown _).mpr (.inl among), fun n member => ?_⟩
        rcases (grown n).mp member with old | rfl
        · exact most n old
        · exact most _ again
      · split
        · rename_i higher
          have above : (afterArrivals before).largestRecvPn.toNat < arrival.pktNum.toNat := by
            simpa [kept, UInt64.lt_iff_toNat_lt] using higher
          refine ⟨(grown _).mpr (.inr rfl), fun n member => ?_⟩
          rcases (grown n).mp member with old | rfl
          · exact Nat.le_trans (most n old) (Nat.le_of_lt above)
          · exact Nat.le_refl _
        · rename_i lower
          have below : arrival.pktNum.toNat ≤ (afterArrivals before).largestRecvPn.toNat := by
            simpa [kept, UInt64.le_iff_toNat_le] using lower
          refine ⟨(grown _).mpr (.inl among), fun n member => ?_⟩
          rcases (grown n).mp member with old | rfl
          · exact most n old
          · exact below

end Nxp
