import Nxp.Core.FrameCodec

/-! When an encoder hands back octets, and that they are those of its frame. -/

namespace Nxp

variable {bufLen : Nat} {out data bytes : Bytes} {vals : List UInt64} {type value : UInt64}
  {octet : UInt8} {f : FrameStream} {last : Bytes → Option Bytes}

/-- A value goes behind what is in the buffer, exactly if it is in range and fits. -/
theorem encodeVarint_iff : encodeVarint value bufLen out = some bytes ↔
    bytes = out ++ varintOctets value ∧ bytes.length ≤ bufLen ∧ value ≤ varintMax := by
  unfold encodeVarint
  by_cases full : out.length ≥ bufLen
  · rw [if_pos full]
    refine iff_of_false nofun fun ⟨whole, fits, within⟩ => ?_
    -- A value has at least one octet.
    have some := (varintEncode_length (varintEncode_iff.mpr ⟨rfl, Nat.le_refl _, within⟩)).1
    rw [whole, List.length_append] at fits
    omega
  · rw [if_neg full, Option.map_eq_some_iff]
    constructor
    · rintro ⟨more, written, rfl⟩
      obtain ⟨rfl, fits, within⟩ := varintEncode_iff.mp written
      refine ⟨rfl, ?_, within⟩
      rw [List.length_append]
      omega
    · rintro ⟨rfl, fits, within⟩
      rw [List.length_append] at fits
      exact ⟨_, varintEncode_iff.mpr ⟨rfl, by omega, within⟩, rfl⟩

/-- Values go behind what is in the buffer, exactly if they are in range and fit. -/
theorem encodeVarints_iff (start : out.length ≤ bufLen) :
    encodeVarints vals bufLen out = some bytes ↔
      bytes = out ++ varintsOctets vals ∧ bytes.length ≤ bufLen ∧ ∀ val ∈ vals, val ≤ varintMax := by
  -- The induction is on the values, the buffer filling up with them.
  induction vals generalizing out with
  | nil =>
    simp only [encodeVarints, varintsOctets, List.foldlM_nil, Option.pure_def, Option.some.injEq,
      List.flatMap_nil, List.append_nil, List.not_mem_nil, false_implies, implies_true, and_true]
    rw [eq_comm]
    exact (and_iff_left_of_imp fun same => by rw [same]; exact start).symm
  | cons val vals ih =>
    unfold encodeVarints at ih ⊢
    rw [List.foldlM_cons, Option.bind_eq_bind, Option.bind_eq_some_iff, List.forall_mem_cons]
    have split : out ++ varintsOctets (val :: vals) = out ++ varintOctets val ++ varintsOctets vals :=
      (List.append_assoc ..).symm
    rw [split]
    constructor
    · rintro ⟨middle, first, rest⟩
      obtain ⟨rfl, room, within⟩ := encodeVarint_iff.mp first
      obtain ⟨whole, fits, others⟩ := (ih room).mp rest
      exact ⟨whole, fits, within, others⟩
    · rintro ⟨whole, fits, within, others⟩
      have room : (out ++ varintOctets val).length ≤ bufLen := by
        rw [whole, List.length_append] at fits
        omega
      exact ⟨_, encodeVarint_iff.mpr ⟨rfl, room, within⟩, (ih room).mpr ⟨whole, fits, others⟩⟩

/-- Values and then data go behind what is in the buffer, whether or not the data is asked for only
if there is some. -/
theorem encodeData_iff (start : out.length ≤ bufLen)
    (written : ∀ out, out.length ≤ bufLen → last out = encodeBytes data bufLen out) :
    (encodeVarints vals bufLen out).bind last = some bytes ↔
      bytes = out ++ varintsOctets vals ++ data ∧ bytes.length ≤ bufLen ∧
        ∀ val ∈ vals, val ≤ varintMax := by
  rw [Option.bind_eq_some_iff]
  constructor
  · rintro ⟨middle, front, rest⟩
    obtain ⟨rfl, room, within⟩ := (encodeVarints_iff start).mp front
    rw [written _ room, encodeBytes] at rest
    split at rest
    · cases rest
    · cases rest
      refine ⟨rfl, ?_, within⟩
      rw [List.length_append]
      omega
  · rintro ⟨rfl, fits, within⟩
    rw [List.length_append] at fits
    have room : (out ++ varintsOctets vals).length ≤ bufLen := by omega
    refine ⟨_, (encodeVarints_iff start).mpr ⟨rfl, room, within⟩, ?_⟩
    rw [written _ room, encodeBytes, if_neg (by omega)]

theorem encodeBytes_optional (start : out.length ≤ bufLen) :
    (if data.length > 0 then encodeBytes data bufLen out else some out) =
      encodeBytes data bufLen out := by
  split
  · rfl
  · have none : data = [] := List.length_eq_zero_iff.mp (by omega)
    rw [none, encodeBytes, if_neg (by simpa using start), List.append_nil]

/-- The values in a frame. -/
def Frame.values : Frame → List UInt64
  | .padding _ | .ping | .handshakeDone | .pathChallenge _ | .pathResponse _ => []
  | .ack f => f.fields
  | .resetStream streamId errorCode finalSize => [streamId, errorCode, finalSize]
  | .stopSending streamId val | .maxStreamData streamId val | .streamDataBlocked streamId val =>
    [streamId, val]
  | .crypto offset data => [offset, UInt64.ofNat data.length]
  | .newToken data | .datagram data => [UInt64.ofNat data.length]
  | .stream f =>
    [f.streamId] ++ (if f.hasOffset then [f.offset] else []) ++ if f.hasLength then [f.length] else []
  | .maxData val | .dataBlocked val | .retireConnectionId val | .heartbeat val | .maxStreams val _
  | .streamsBlocked val _ | .streamPriority val _ => [val]
  | .newConnectionId f => [f.seqNum, f.retirePriorTo]
  | .connectionClose f =>
    [f.errorCode] ++ (if f.isApp then [] else [f.frameType]) ++ [UInt64.ofNat f.reason.length]

theorem frameEncodeStream_eq (f : FrameStream) (bufLen : Nat) :
    frameEncodeStream f bufLen = (encodeOctet (streamTypeByte f) bufLen).bind fun out =>
      (encodeVarints (Frame.stream f).values bufLen out).bind fun out =>
        if f.writtenData.length > 0 then encodeBytes f.writtenData bufLen out else some out := by
  unfold frameEncodeStream encodeWhen
  cases offset : f.hasOffset <;> cases length : f.hasLength <;>
    simp [encodeVarints, Frame.values, offset, length, Option.bind_assoc]

/-- A frame that is not padding of no octets and whose values are in range. -/
def Frame.Writable (frame : Frame) : Prop :=
  frame ≠ .padding 0 ∧ ∀ val ∈ frame.values, val ≤ varintMax

section Kinds

variable (short : varintOctets type = [octet]) (known : type ≤ varintMax)
include short known

theorem data_iff (written : ∀ out, out.length ≤ bufLen → last out = encodeBytes data bufLen out) :
    (encodeVarints (type :: vals) bufLen []).bind last = some bytes ↔
      bytes = octet :: varintsOctets vals ++ data ∧ bytes.length ≤ bufLen ∧
        ∀ val ∈ vals, val ≤ varintMax := by
  rw [encodeData_iff (Nat.zero_le _) written, List.forall_mem_cons, and_iff_right known]
  simp [varintsOctets, short]

theorem bare_iff : encodeVarints (type :: vals) bufLen [] = some bytes ↔
    bytes = octet :: varintsOctets vals ∧ bytes.length ≤ bufLen ∧
      ∀ val ∈ vals, val ≤ varintMax := by
  rw [encodeVarints_iff (Nat.zero_le _), List.forall_mem_cons, and_iff_right known]
  simp [varintsOctets, short]

end Kinds

/-- A stretch of a stream is written exactly if its values are in range and it fits. -/
theorem frameEncodeStream_iff : frameEncodeStream f bufLen = some bytes ↔
    bytes = (Frame.stream f).octets ∧ bytes.length ≤ bufLen ∧
      ∀ val ∈ (Frame.stream f).values, val ≤ varintMax := by
  rw [frameEncodeStream_eq, encodeOctet]
  split
  · refine iff_of_false nofun fun ⟨whole, fits, _⟩ => ?_
    rw [whole, Frame.octets, List.cons_append, List.length_cons] at fits
    omega
  · rw [Option.bind_some, encodeData_iff (by simp; omega) fun _ room => encodeBytes_optional room]
    rfl

/-- A stretch of a stream is only written if its name and its place are in range. -/
theorem frameEncodeStream_inRange (encoded : frameEncodeStream f bufLen = some bytes) :
    f.streamId ≤ varintMax ∧ (f.hasOffset = true → f.offset ≤ varintMax) := by
  have within := (frameEncodeStream_iff.mp encoded).2.2
  exact ⟨within _ (by simp [Frame.values]), fun there => within _ (by simp [Frame.values, there])⟩

/-- An encoder hands back octets exactly if its frame can be written and they fit, and they are then
those of the frame. -/
theorem frameEncode_iff {frame : Frame} : frameEncode frame bufLen = some bytes ↔
    bytes = frame.octets ∧ bytes.length ≤ bufLen ∧ frame.Writable := by
  by_cases padding : ∃ count, frame = .padding count
  · obtain ⟨count, rfl⟩ := padding
    cases count with
    | zero => exact iff_of_false nofun fun written => written.2.2.1 rfl
    | succ count =>
      have real : (Frame.padding (count + 1)).Writable :=
        ⟨fun none => (by cases none), List.forall_mem_nil _⟩
      rw [and_iff_left real, ← guarded_iff]
      simp [frameEncode, frameEncodePadding, Frame.octets]
  rw [Frame.Writable, and_iff_right fun none => padding ⟨0, none⟩]
  cases frame with
  | padding count => exact absurd ⟨count, rfl⟩ padding
  | ping =>
    exact (@guarded_iff _ _ [0x01]).trans
      (and_congr_right fun _ => (and_iff_left (List.forall_mem_nil _)).symm)
  | stream f => exact frameEncodeStream_iff
  | ack f =>
    exact bare_iff (by cases f.hasEcn <;> decide) (by cases f.hasEcn <;> decide)
  | maxStreams limit isBidi | streamsBlocked limit isBidi =>
    exact bare_iff (by cases isBidi <;> decide) (by cases isBidi <;> decide)
  | crypto | newToken | pathChallenge | pathResponse | streamPriority =>
    exact data_iff (by decide) (by decide) fun _ _ => rfl
  | newConnectionId f =>
    refine (data_iff (show varintOctets 0x18 = [0x18] by decide) (by decide) fun _ _ => rfl).trans ?_
    simp [Frame.octets, Frame.values]
  | connectionClose f =>
    exact data_iff (by cases f.isApp <;> decide) (by cases f.isApp <;> decide)
      fun _ room => encodeBytes_optional room
  | datagram data =>
    exact data_iff (by decide) (by decide) fun _ room => encodeBytes_optional room
  | _ => exact bare_iff (by decide) (by decide)

/-- What the decoder accepts can be written. -/
theorem Frame.Encodable.writable {frame : Frame} (encodable : frame.Encodable) : frame.Writable := by
  refine ⟨fun none => ?_, ?_⟩
  · rw [none] at encodable
    exact Nat.lt_irrefl 0 encodable
  cases frame with
  | ack f => exact encodable
  | stream f =>
    obtain ⟨sized, named, placed, -, short⟩ := encodable
    have length : f.length ≤ varintMax :=
      UInt64.le_iff_toNat_le.mpr (Nat.le_trans short (by decide))
    have offset : f.offset ≤ varintMax := UInt64.le_trans placed (by decide)
    have id : f.streamId ≤ varintMax := UInt64.le_trans named (by decide)
    cases present : f.hasOffset <;> simp [Frame.values, present, sized, length, offset, id]
  | crypto offset data =>
    have size := (length_le_varintMax encodable.2 (by decide)).1
    simp [Frame.values, size, encodable.1]
  | newToken data | datagram data =>
    exact List.forall_mem_singleton.mpr (length_le_varintMax encodable (by decide)).1
  | connectionClose f =>
    obtain ⟨code, type, short⟩ := encodable
    have size := (length_le_varintMax short (by decide)).1
    cases app : f.isApp <;> simp [Frame.values, app, code, type, size]
  | padding | ping | handshakeDone | pathChallenge | pathResponse => exact List.forall_mem_nil _
  | _ => simpa [Frame.values, Frame.Encodable] using encodable

end Nxp
