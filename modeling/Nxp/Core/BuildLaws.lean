import Nxp.Core.EncodeLaws
import Nxp.Core.SendLaws

/-! The payload of a packet in the making is a list of control frames and then of stream frames. -/

namespace Nxp

variable {space maxLen : Nat} {b : SendBuild} {bytes : Bytes} {conn : Conn} {evp : Evp}

/-- Frames that may go before stream data. -/
def Frame.isControl : Frame → Bool
  | .ack _ | .connectionClose _ | .ping | .maxData _ | .pathResponse _ | .pathChallenge _
  | .newConnectionId _ | .retireConnectionId _ | .heartbeat _ => true
  | _ => false

/-- What is remembered of a stream frame. -/
def FrameStream.record (f : FrameStream) : StreamFrameRecord :=
  ⟨f.streamId, f.offset, f.length.toUInt32, f.fin⟩

/-- A packet in the making that consists of control frames and stream frames, in its room. -/
structure Laid (space : Nat) (b : SendBuild) (control : List Frame) (streams : List FrameStream) :
    Prop where
  layout : b.frames = (control ++ streams.map Frame.stream).flatMap Frame.octets
  room : b.frames.length ≤ space
  kinds : ∀ frame ∈ control, frame.isControl = true
  records : b.records.records = streams.map FrameStream.record

/-- Only the connection is different. -/
theorem Laid.moved {space : Nat} {b : SendBuild} {control : List Frame}
    {streams : List FrameStream} (laid : Laid space b control streams) (conn : Conn) :
    Laid space { b with conn := conn } control streams :=
  ⟨laid.layout, laid.room, laid.kinds, laid.records⟩

/-- A control frame goes behind the others. -/
theorem Laid.control {front : List Frame} (laid : Laid space b front []) {frame : Frame}
    (control : frame.isControl = true)
    (encoded : frameEncode frame (space - b.frames.length) = some bytes) (conn : Conn)
    (eliciting : Bool) :
    Laid space { b with conn := conn, frames := b.frames ++ bytes, ackEliciting := eliciting }
      (front ++ [frame]) [] := by
  obtain ⟨layout, room, kinds, records⟩ := laid
  obtain ⟨whole, fits, -⟩ := frameEncode_iff.mp encoded
  refine ⟨?_, ?_, ?_, records⟩
  · simp only [List.map_nil, List.append_nil] at layout
    simp [layout, whole]
  · simp only [List.length_append]
    omega
  · intro other member
    rcases List.mem_append.mp member with old | new
    · exact kinds other old
    · rw [List.mem_singleton.mp new]
      exact control

/-- Control frames that were put into a packet in turn, and what they leave of a connection. -/
inductive Cleared (conn : Conn) : List Frame → Conn → Prop
  | none : Cleared conn [] conn
  | put {control : List Frame} {frame : Frame} {middle next : Conn}
      (past : Cleared conn control middle) (clears : Clears middle frame next)
      (writable : frame.Writable) : Cleared conn (control ++ [frame]) next
  | taken {control : List Frame} {middle : Conn} (past : Cleared conn control middle)
      (waiting : flowShouldUpdate middle.connFlow = true) :
      Cleared conn control { middle with connFlow := (flowGetUpdate middle.connFlow).2 }

/-- Where no limit waits to be advertised none is, and none waits after. -/
theorem Cleared.calm {control : List Frame} {next : Conn} (cleared : Cleared conn control next)
    (calm : conn.connFlow.sendMaxData = false) :
    next.connFlow.sendMaxData = false ∧ ∀ limit, Frame.maxData limit ∉ control := by
  induction cleared with
  | none => exact ⟨calm, fun _ => List.not_mem_nil⟩
  | taken _ waiting ih =>
    rw [flowShouldUpdate, ih.1] at waiting
    cases waiting
  | @put control frame middle next _ clears _ ih =>
    refine ⟨?_, fun limit member => ?_⟩
    · cases clears with
      | maxData due => rfl
      | close due =>
        unfold setConnState
        split <;> exact ih.1
      | _ => exact ih.1
    · rcases List.mem_append.mp member with old | new
      · exact ih.2 limit old
      · cases List.mem_singleton.mp new
        cases clears with
        | maxData due =>
          rw [flowShouldUpdate, ih.1] at due
          cases due

/-- A stream frame goes behind the others. -/
theorem Laid.put {space : Nat} {b : SendBuild} {control : List Frame} {streams : List FrameStream}
    (laid : Laid space b control streams) (more : b.records.hasRoom = true) {f : FrameStream}
    {bytes : Bytes} (encoded : frameEncodeStream f (space - b.frames.length) = some bytes)
    (conn : Conn) (id : UInt64) (s : Stream) :
    Laid space (SendBuild.putStream { b with conn := conn } id s f bytes) control
      (streams ++ [f]) := by
  obtain ⟨layout, room, kinds, records⟩ := laid
  obtain ⟨whole, fits, -⟩ := frameEncodeStream_iff.mp encoded
  refine ⟨?_, ?_, kinds, ?_⟩
  · show b.frames ++ bytes = _
    simp [layout, whole]
  · show (b.frames ++ bytes).length ≤ space
    rw [List.length_append]
    omega
  · show (b.records.push f.record).records = _
    rw [FrameRecords.push_hasRoom more, records]
    simp

/-- A turn of the stream loop adds at most one stream frame. -/
theorem Laid.turned {b' : SendBuild} {control : List Frame} {streams : List FrameStream}
    (laid : Laid space b control streams) (more : b.records.hasRoom = true)
    (turned : Turned space b b') :
    ∃ streams', Laid space b' control streams' := by
  cases turned with
  | relinked next => exact ⟨streams, laid.moved _⟩
  | kept next => exact ⟨streams, laid.moved _⟩
  | sent next found able only budget limited filled encoded =>
    exact ⟨_, laid.put more encoded _ _ _⟩

/-- The control frames of a packet are laid out in its room, and are those that waited. -/
theorem putControl_laid (conn : Conn) (space : Nat) (nowUs : UInt64) :
    ∃ control, Laid space (conn.controls space nowUs) control [] ∧
      Cleared conn control (conn.controls space nowUs).conn := by
  refine Conn.controls_invariant
    (fun b => ∃ control, Laid space b control [] ∧ Cleared conn control b.conn)
    ⟨[], ⟨rfl, Nat.zero_le _, List.forall_mem_nil _, rfl⟩, .none⟩ ?_
  -- Each stage puts at most one frame behind the others.
  rintro b b' ⟨control, laid, cleared⟩ staged
  cases staged with
  | taken waiting => exact ⟨control, laid.moved _, cleared.taken waiting⟩
  | @put frame bytes conn eliciting clears encoded =>
    have kind : frame.isControl = true := by cases clears <;> rfl
    exact ⟨control ++ [frame], laid.control kind encoded _ _,
      cleared.put clears (frameEncode_iff.mp encoded).2.2⟩

/-- The payload of every packet is laid out in its room. -/
theorem buildFrames_laid {turns : Nat} {nowUs : UInt64}
    (built : buildFrames turns conn space nowUs = some b) :
    ∃ control streams, Laid space b control streams := by
  obtain ⟨control, laid, -⟩ := putControl_laid conn space nowUs
  refine ⟨control, buildFrames_invariant (fun b => ∃ streams, Laid space b control streams)
    ⟨[], laid⟩ ?_ built⟩
  rintro b b' more ⟨streams, laid⟩ turned
  exact laid.turned more turned

end Nxp
