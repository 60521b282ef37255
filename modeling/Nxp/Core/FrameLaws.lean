import Nxp.Core.Frame
import Nxp.Lib.Codec

/-! Decoding always makes progress through a payload. -/

namespace Nxp

open Codec

variable {buf : Bytes}

section Leaves

variable {count : Nat} (bounded : buf.length ≤ count)
include bounded

theorem varintDecode_leaves : Leaves count (varintDecode buf) := by
  intro value rest decoded
  have := varintDecode_shorter decoded
  omega

theorem decodeOctet_leaves : Leaves count (decodeOctet buf) := by
  cases buf with
  | nil => exact Leaves.none
  | cons octet rest =>
    rw [List.length_cons] at bounded
    exact Leaves.some (by omega)

theorem decodeBytes_leaves {length : Nat} : Leaves count (decodeBytes length buf) := by
  refine Leaves.ite (fun _ => Leaves.none) fun _ => Leaves.some ?_
  rw [List.length_drop]
  omega

theorem decodeArray_leaves {length : Nat} : Leaves count (decodeArray length buf) := by
  refine Leaves.dite (fun _ => Leaves.some ?_) fun _ => Leaves.none
  rw [List.length_drop]
  omega

theorem decodeSized_leaves {limit : Nat} : Leaves count (decodeSized limit buf) :=
  (varintDecode_leaves bounded).bind fun _ _ within =>
    Leaves.ite (fun _ => Leaves.none) fun _ => decodeBytes_leaves within

theorem decodeAckRanges_leaves {ranges : Nat} : Leaves count (decodeAckRanges ranges buf) := by
  induction ranges generalizing buf with
  | zero => exact Leaves.some bounded
  | succ ranges ih =>
    refine (varintDecode_leaves bounded).bind fun _ _ within => ?_
    refine (varintDecode_leaves within).bind fun _ _ within => ?_
    exact (ih within).bind fun _ _ within => Leaves.some within

theorem decodeAtMost_leaves {limit : UInt64} : Leaves count (decodeAtMost limit buf) :=
  (varintDecode_leaves bounded).bind fun _ _ within =>
    Leaves.ite (fun _ => Leaves.none) fun _ => Leaves.some within

theorem decodeWhen_leaves {present : Bool} {reader : Bytes → Option (UInt64 × Bytes)}
    (taken : Leaves count (reader buf)) :
    Leaves count (decodeWhen present reader buf) :=
  Leaves.ite (fun _ => taken) fun _ => Leaves.some bounded

theorem decodeAck_leaves {hasEcn : Bool} : Leaves count (decodeAck hasEcn buf) := by
  refine (varintDecode_leaves bounded).bind fun _ _ within => ?_
  refine (varintDecode_leaves within).bind fun _ _ within => ?_
  refine (varintDecode_leaves within).bind fun _ _ within => ?_
  refine Leaves.dite (fun _ => ?_) fun _ => Leaves.none
  refine (varintDecode_leaves within).bind fun _ _ within => ?_
  refine (decodeAckRanges_leaves within).bind fun _ _ within => ?_
  refine (decodeWhen_leaves within (varintDecode_leaves within)).bind fun _ _ within => ?_
  refine (decodeWhen_leaves within (varintDecode_leaves within)).bind fun _ _ within => ?_
  exact (decodeWhen_leaves within (varintDecode_leaves within)).bind fun _ _ within =>
    Leaves.some within

theorem decodeStreamLength_leaves {hasLength : Bool} :
    Leaves count (decodeStreamLength hasLength buf) := by
  refine Leaves.ite (fun _ => ?_) fun _ =>
    Leaves.ite (fun _ => Leaves.none) fun _ => Leaves.some bounded
  refine (varintDecode_leaves bounded).bind fun _ _ within => ?_
  exact Leaves.ite (fun _ => Leaves.none) fun _ => Leaves.some within

theorem decodeStream_leaves {typeByte : UInt8} : Leaves count (decodeStream typeByte buf) := by
  refine (decodeAtMost_leaves bounded).bind fun _ _ within => ?_
  refine (decodeWhen_leaves within (decodeAtMost_leaves within)).bind fun _ _ within => ?_
  refine (decodeStreamLength_leaves within).bind fun _ _ within => ?_
  refine Leaves.dite (fun _ => Leaves.some ?_) fun _ => Leaves.none
  rw [List.length_drop]
  omega

theorem decodeNewConnectionId_leaves : Leaves count (decodeNewConnectionId buf) := by
  refine (varintDecode_leaves bounded).bind fun _ _ within => ?_
  refine (varintDecode_leaves within).bind fun _ _ within => ?_
  refine (decodeOctet_leaves within).bind fun _ _ within => ?_
  refine Leaves.dite (fun _ => Leaves.ite (fun _ => Leaves.none) fun _ => ?_) fun _ => Leaves.none
  refine (decodeArray_leaves ?_).bind fun _ _ within => Leaves.some within
  rw [List.length_drop]
  omega

theorem decodeConnectionClose_leaves {isApp : Bool} :
    Leaves count (decodeConnectionClose isApp buf) := by
  refine (varintDecode_leaves bounded).bind fun _ _ within => ?_
  refine (decodeWhen_leaves within (varintDecode_leaves within)).bind fun _ _ within => ?_
  exact (decodeSized_leaves within).bind fun _ _ within => Leaves.some within

theorem decodeBody_leaves {frameType : UInt64} : Leaves count (decodeBody frameType buf) := by
  -- Every case is a chain of the readers above.
  unfold decodeBody
  split <;> repeat first
    | exact Leaves.none
    | exact Leaves.some ‹_›
    | refine (varintDecode_leaves ‹_›).bind fun _ _ _ => ?_
    | refine (decodeSized_leaves ‹_›).bind fun _ _ _ => ?_
    | refine (decodeArray_leaves ‹_›).bind fun _ _ _ => ?_
    | refine (decodeAck_leaves ‹_›).bind fun _ _ _ => ?_
    | refine (decodeNewConnectionId_leaves ‹_›).bind fun _ _ _ => ?_
    | refine (decodeConnectionClose_leaves ‹_›).bind fun _ _ _ => ?_
    | refine (decodeOctet_leaves ‹_›).bind fun _ _ _ => ?_

end Leaves

/-- Decoding a frame takes at least one octet. -/
theorem frameDecode_shorter {rest : Bytes} {f : Frame} (decoded : frameDecode buf = some (f, rest)) :
    rest.length < buf.length := by
  cases buf with
  | nil => simp [frameDecode] at decoded
  | cons first tail =>
    have kept : Leaves tail.length (frameDecode (first :: tail)) := by
      unfold frameDecode
      refine Leaves.ite (fun zero => Leaves.some ?_) fun _ => Leaves.ite (fun _ => ?_) fun _ => ?_
      · -- The first octet is zero, so padding takes it.
        rw [List.dropWhile_cons_of_pos (by simpa using zero)]
        exact (List.dropWhile_sublist _).length_le
      · exact (decodeStream_leaves (Nat.le_refl _)).bind fun _ _ within => Leaves.some within
      · refine Leaves.bind (fun value rest read => ?_) fun _ _ within => decodeBody_leaves within
        have := varintDecode_shorter read
        rw [List.length_cons] at this
        omega
    have bounded := kept f rest decoded
    rw [List.length_cons]
    omega

end Nxp
