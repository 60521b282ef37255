import Nxp.Core.AckRuns
import Nxp.Core.Arrivals
import Nxp.Core.EncodeLaws

/-! What the receiver acknowledges is exactly what the sender takes as acknowledged. -/

namespace Nxp

/-- The acknowledgement of ordered ranges can be encoded. -/
theorem ackBuildFrame_encodable {ack : AckState} (ordered : RangesOrdered ack.recvRanges.ranges)
    {nowUs : UInt64} (early : nowUs.toNat < 2 ^ 62) {frame : FrameAck}
    (built : ackBuildFrame ack nowUs = some frame) :
    (Frame.ack frame).Encodable ∧ (Frame.ack frame).carried = .ack frame := by
  obtain ⟨first, rest, stored, rfl⟩ := ackBuildFrame_some built
  rw [stored] at ordered
  refine ⟨?_, rfl⟩
  have valid := (rangesWithin_cons.mp ordered).1
  have delay : (if nowUs > ack.largestRecvTime then nowUs - ack.largestRecvTime else 0) ≤
      varintMax := by
    split
    · rename_i later
      rw [UInt64.le_iff_toNat_le, UInt64.toNat_sub_of_le _ _ (UInt64.le_of_lt later)]
      have limit : varintMax.toNat = 2 ^ 62 - 1 := rfl
      omega
    · exact UInt64.zero_le
  -- The number of further ranges is at most the limit on them.
  have count : UInt64.ofNat ((buildRanges first.start rest).take ackMaxRanges).length ≤
      varintMax := by
    have few : ((buildRanges first.start rest).take ackMaxRanges).length ≤ ackMaxRanges :=
      List.length_take_le _ _
    rw [UInt64.le_iff_toNat_le, UInt64.toNat_ofNat']
    have limit : varintMax.toNat = 2 ^ 62 - 1 := rfl
    have bound : ackMaxRanges = 64 := rfl
    omega
  intro val member
  simp only [FrameAck.fields, Bool.false_eq_true, if_false, List.append_nil, List.mem_append,
    List.mem_cons, List.not_mem_nil, or_false, List.mem_flatMap] at member
  rcases member with (rfl | rfl | rfl | rfl) | ⟨range, inside, rfl | rfl⟩
  · exact valid.encodable.2
  · exact delay
  · exact count
  · exact UInt64.le_trans (length_arith valid).1 valid.encodable.2
  · exact (buildRanges_bounded ordered range (List.mem_of_mem_take inside)).1
  · exact (buildRanges_bounded ordered range (List.mem_of_mem_take inside)).2

/-- The acknowledgement of everything received, sent over the wire, makes any sender report exactly
the packets whose numbers lie in the receiver's ranges, each of them once. -/
theorem ack_fidelity (arrivals : List Arrival)
    (small : ∀ arrival ∈ arrivals, arrival.pktNum.toNat < 2 ^ 62) (builtUs : UInt64)
    (early : builtUs.toNat < 2 ^ 62) :
    match ackBuildFrame (afterArrivals arrivals) builtUs with
    | none => (afterArrivals arrivals).recvRanges.ranges = []
    | some frame => ∃ size, ∀ bufLen ≥ size, ∃ bytes, frameEncodeAck frame bufLen = some bytes ∧
        ∃ decoded, (∀ rest, frameDecode (bytes ++ rest) = some (.ack decoded, rest)) ∧
          ∀ (sender : AckState) (nowUs : UInt64), reportedAcked sender decoded nowUs =
            sender.sent.filter fun pkt =>
              (afterArrivals arrivals).recvRanges.ranges.any (·.contains pkt.pktNum) := by
  have ordered := afterArrivals_within (by decide) small
  cases built : ackBuildFrame (afterArrivals arrivals) builtUs with
  | none =>
    unfold ackBuildFrame at built
    split at built
    · assumption
    · cases built
  | some frame =>
    obtain ⟨encodable, same⟩ := ackBuildFrame_encodable ordered early built
    refine ⟨(Frame.ack frame).octets.length, fun bufLen room => ?_⟩
    refine ⟨(Frame.ack frame).octets, frameEncode_iff.mpr ⟨rfl, room, encodable.writable⟩, frame,
      fun rest => ?_, ?_⟩
    · have read : frameDecode ((Frame.ack frame).octets ++ rest) =
          some ((Frame.ack frame).carried, rest) := frameDecode_octets encodable (by simp)
      rwa [same] at read
    · intro sender nowUs
      rw [reportedAcked_eq]
      simp only [ackBuildFrame_covers ordered built]

/-- Three packets of which the second is missing. -/
def gappedArrivals : List Arrival := [⟨0, 10, true⟩, ⟨2, 30, true⟩]

/-- The acknowledgement of two packets with a gap between them is taken as such. -/
theorem ack_fidelity_gapped :
    (∀ arrival ∈ gappedArrivals, arrival.pktNum.toNat < 2 ^ 62) ∧ (40 : UInt64).toNat < 2 ^ 62 ∧
    match ackBuildFrame (afterArrivals gappedArrivals) 40 with
    | none => (afterArrivals gappedArrivals).recvRanges.ranges = []
    | some frame => ∃ size, ∀ bufLen ≥ size, ∃ bytes, frameEncodeAck frame bufLen = some bytes ∧
        ∃ decoded, (∀ rest, frameDecode (bytes ++ rest) = some (.ack decoded, rest)) ∧
          ∀ (sender : AckState) (nowUs : UInt64), reportedAcked sender decoded nowUs =
            sender.sent.filter fun pkt =>
              (afterArrivals gappedArrivals).recvRanges.ranges.any (·.contains pkt.pktNum) :=
  ⟨by decide, by decide, ack_fidelity gappedArrivals (by decide) 40 (by decide)⟩

end Nxp
