import Mathlib.Data.List.Chain
import Nxp.Core.EncodeLaws
import Nxp.Core.Payload

/-! A payload of frames encoded one after another is taken apart into the same frames. -/

namespace Nxp

variable {frames : List Frame}

/-- Encode frames one after another, each into the room the ones before it left. -/
def encodeFrames : List Frame → Nat → Option (List Bytes)
  | [], _ => some []
  | frame :: frames, room => do
    let piece ← frameEncode frame room
    let pieces ← encodeFrames frames (room - piece.length)
    some (piece :: pieces)

/-- Whether a frame is a run of padding. -/
def Frame.isPadding : Frame → Bool
  | .padding _ => true
  | _ => false

/-- Encodable frames that fit are all written. -/
theorem encodeFrames_fits (encodable : ∀ frame ∈ frames, frame.Encodable)
    {room : Nat} (fits : (frames.flatMap Frame.octets).length ≤ room) :
    encodeFrames frames room = some (frames.map Frame.octets) := by
  induction frames generalizing room with
  | nil => rfl
  | cons frame frames ih =>
    rw [List.flatMap_cons, List.length_append] at fits
    have tail := ih (fun other member => encodable other (List.mem_cons_of_mem _ member))
      (show _ ≤ room - frame.octets.length by omega)
    have first := (encodable frame (List.mem_cons_self ..)).writable
    rw [encodeFrames, frameEncode_iff.mpr ⟨rfl, by omega, first⟩, Option.bind_eq_bind,
      Option.bind_some, tail]
    rfl

theorem octets_head {frame : Frame} (encodable : frame.Encodable) (other : ¬ frame.isPadding)
    (rest : Bytes) : (frame.octets ++ rest).head? ≠ some 0 := by
  -- Every other frame starts with the octet of its type.
  cases frame with
  | padding count => exact absurd rfl other
  | stream f =>
    have typed : streamTypeByte f ≠ 0 := by
      unfold streamTypeByte
      cases f.hasOffset <;> cases f.hasLength <;> cases f.fin <;> decide
    simpa [Frame.octets] using typed
  | ack f => cases ecn : f.hasEcn <;> simp [Frame.octets, ecn]
  | maxStreams limit isBidi => cases isBidi <;> simp [Frame.octets]
  | streamsBlocked limit isBidi => cases isBidi <;> simp [Frame.octets]
  | connectionClose f => cases app : f.isApp <;> simp [Frame.octets, app]
  | _ => simp [Frame.octets]

/-- Frames read back as written, unless two PADDING frames meet. -/
theorem framesOf_octets (encodable : ∀ frame ∈ frames, frame.Encodable)
    (apart : frames.IsChain fun frame next => ¬ (frame.isPadding ∧ next.isPadding)) :
    framesOf (frames.flatMap Frame.octets) =
      some (frames.map fun frame => (frame.carried, frame.octets.length)) := by
  -- The induction is on the frames; a run of padding ends where the next frame starts.
  induction frames with
  | nil => rfl
  | cons frame frames ih =>
    have tail := ih (fun other member => encodable other (List.mem_cons_of_mem _ member)) apart.tail
    have ends : (∃ count, frame = .padding count) → (frames.flatMap Frame.octets).head? ≠ some 0 := by
      rintro ⟨count, rfl⟩
      cases frames with
      | nil => simp
      | cons next frames =>
        rw [List.flatMap_cons]
        have different : ¬ next.isPadding := fun same => apart.rel ⟨rfl, same⟩
        exact octets_head (encodable next (by simp)) different _
    have read := frameDecode_octets (encodable frame (List.mem_cons_self ..)) ends
    rw [List.flatMap_cons, framesOf_cons read tail, List.length_append, Nat.add_sub_cancel]
    rfl

/-- A receiver of such a payload takes these frames, one after another. -/
theorem processFrames_octets (encodable : ∀ frame ∈ frames, frame.Encodable)
    (apart : frames.IsChain fun frame next => ¬ (frame.isPadding ∧ next.isPadding)) (env : Env)
    (conn : Conn) (nowUs : UInt64) :
    (processFrames env conn (frames.flatMap Frame.octets) nowUs).2 =
      (processEach env nowUs conn (frames.map Frame.carried)).2 := by
  rw [processFrames, processLoop_leading,
    leadingLoop_decodeFrames (framesOf_octets encodable apart), List.map_map]
  rfl

/-- Frames encoded in turn into a large enough buffer are taken back in turn, each as far as its
layout carries it and from exactly the octets that were written for it. -/
theorem frames_round_trip (frames : List Frame) (encodable : ∀ frame ∈ frames, frame.Encodable)
    (apart : frames.IsChain fun frame next => ¬ (frame.isPadding ∧ next.isPadding)) :
    ∃ size, ∀ room ≥ size, ∃ pieces, encodeFrames frames room = some pieces ∧
      framesOf pieces.flatten = some ((frames.map Frame.carried).zip (pieces.map List.length)) := by
  refine ⟨(frames.flatMap Frame.octets).length, fun room fits => ?_⟩
  refine ⟨frames.map Frame.octets, encodeFrames_fits encodable fits, ?_⟩
  rw [← List.flatMap_def, framesOf_octets encodable apart, List.map_map, List.zip_map']
  rfl

/-- A close notice of an application that names a frame type all the same. -/
def namedClose : Frame := .connectionClose ⟨7, 5, [], true⟩

/-- A probe between padding, and a stretch of a stream with its end. -/
def mixedFrames : List Frame :=
  [.padding 2, .ping, .padding 1, .stream ⟨4, 0, 1, false, true, true, some [9], rfl⟩]

/-- The frames of a small payload come back. -/
theorem frames_round_trip_mixed :
    (∀ frame ∈ mixedFrames, frame.Encodable) ∧
    (mixedFrames.IsChain fun frame next => ¬ (frame.isPadding ∧ next.isPadding)) ∧
    ∃ size, ∀ room ≥ size, ∃ pieces, encodeFrames mixedFrames room = some pieces ∧
      framesOf pieces.flatten =
        some ((mixedFrames.map Frame.carried).zip (pieces.map List.length)) := by
  have encodable : ∀ frame ∈ mixedFrames, frame.Encodable := by
    intro frame member
    simp only [mixedFrames, List.mem_cons, List.not_mem_nil, or_false] at member
    rcases member with rfl | rfl | rfl | rfl
    · exact Nat.succ_pos 1
    · trivial
    · exact Nat.succ_pos 0
    · exact ⟨rfl, by decide, by decide, fun _ => rfl, by decide⟩
  exact ⟨encodable, by decide, frames_round_trip mixedFrames encodable (by decide)⟩

/-- The frame type of an application's close is not written, so another list comes back. -/
theorem namedClose_dropped :
    namedClose.Encodable ∧ encodeFrames [namedClose] 64 = some [[0x1D, 7, 0]] ∧
    framesOf [0x1D, 7, 0] = some [(.connectionClose ⟨7, 0, [], true⟩, 3)] ∧
    Frame.connectionClose ⟨7, 0, [], true⟩ ≠ namedClose :=
  ⟨⟨by decide, by decide, by decide⟩, by decide, by decide, by decide⟩

/-- A stretch tells a receiver the same as another one. -/
def FrameStream.Tells (f g : FrameStream) : Prop :=
  g.streamId = f.streamId ∧ g.offset = f.offset ∧ g.fin = f.fin ∧ g.length = f.length ∧
    g.data.getD [] = f.data.getD []

theorem field_told_iff (present : Bool) (val : UInt64) :
    (if present then val else 0) = val ↔ present = true ∨ val = 0 := by
  cases present <;> simp [eq_comm]

theorem FrameStream.received_tells_iff (f : FrameStream) :
    f.Tells f.received ↔
      (f.hasOffset = true ∨ f.offset = 0) ∧ (f.hasLength = true ∨ f.length = 0) := by
  rw [← field_told_iff f.hasOffset, ← field_told_iff f.hasLength]
  refine ⟨fun same => ⟨same.2.1, same.2.2.2.1⟩, fun told => ⟨rfl, told.1, rfl, told.2, ?_⟩⟩
  -- An empty stretch has no data that a null pointer could hide.
  have covered := f.covered
  have mirrored := f.received.covered
  by_cases positive : f.length > 0
  · have sized : f.hasLength = true := ((field_told_iff ..).mp told.2).resolve_right (by grind)
    simp [FrameStream.received, FrameStream.writtenData, sized, positive]
  · have zero : f.length = 0 := by grind
    rw [show f.received.length = f.length from told.2, zero] at mirrored
    rw [zero] at covered
    rw [List.length_eq_zero_iff.mp mirrored, List.length_eq_zero_iff.mp covered]

/-- A stretch that was encoded is decoded to the same as the last frame of a packet exactly when its
name and place are within the decoder's limits, a place that is not told is the start, and it has
data only if its length is told. -/
theorem stream_round_trip_iff (f : FrameStream) (short : f.length.toNat ≤ 1048576) {bufLen : Nat}
    {bytes : Bytes} (encoded : frameEncodeStream f bufLen = some bytes) :
    (∃ g, frameDecode bytes = some (.stream g, []) ∧ f.Tells g) ↔
      f.streamId ≤ maxStreamId ∧ f.offset ≤ maxStreamOffset ∧
        (f.hasOffset = true ∨ f.offset = 0) ∧ (f.hasLength = true ∨ f.length = 0) := by
  obtain ⟨named, placed⟩ := frameEncodeStream_inRange encoded
  have read := frameDecode_stream_octets f named placed short [] (fun _ => rfl)
  rw [List.append_nil, ← (frameEncodeStream_iff.mp encoded).1] at read
  have told := f.received_tells_iff
  rw [read]
  constructor
  · rintro ⟨g, found, same⟩
    split at found
    · rename_i within
      cases found
      obtain ⟨offset, length⟩ := told.mp same
      refine ⟨within.1, ?_, offset, length⟩
      rcases offset with present | zero
      · exact within.2 present
      · rw [zero]
        decide
    · cases found
  · rintro ⟨near, within, offset, length⟩
    have both := And.intro near fun (_ : f.hasOffset = true) => within
    exact ⟨f.received, if_pos both, told.mpr ⟨offset, length⟩⟩

/-- An octet at the start of a stream, with its length told, is told again. -/
theorem stream_round_trip_one :
    ∃ g, frameDecode [0x0A, 4, 1, 7] = some (.stream g, []) ∧
      FrameStream.Tells ⟨4, 0, 1, false, true, false, some [7], rfl⟩ g :=
  (stream_round_trip_iff ⟨4, 0, 1, false, true, false, some [7], rfl⟩ (by decide)
    (show frameEncodeStream _ 64 = some [0x0A, 4, 1, 7] by decide)).mpr (by decide)

/-- Without a length the octet is not written. -/
theorem stream_round_trip_lost :
    frameEncodeStream ⟨4, 0, 1, false, false, false, some [7], rfl⟩ 64 = some [0x08, 4] ∧
    frameDecode [0x08, 4] = some (.stream ⟨4, 0, 0, false, false, false, none, rfl⟩, []) := by
  decide

end Nxp
