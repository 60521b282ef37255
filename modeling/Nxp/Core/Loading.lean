import Nxp.Core.BuildLaws
import Nxp.Core.CreditLaws
import Nxp.Core.OpenLaws

/-! What a connection puts into its next packet, control frames first and then the frames of its
streams in the order of their turns. -/

namespace Nxp

variable {b b' : SendBuild} {turns maxLen space : Nat} {nowUs : UInt64} {bytes : Bytes}
  {control : List Frame} {evp : Evp} {next : Conn} {env : Env}

/-- How far a stream has been sent. -/
def Conn.frontier (conn : Conn) (id : UInt64) : Nat :=
  (conn.stream id).elim 0 fun s => s.send.sentOffset.toNat

/-- How far streams have been sent after frames in turn. -/
def advanced (front : UInt64 → Nat) : List FrameStream → UInt64 → Nat
  | [] => front
  | f :: rest =>
    advanced (Function.update front f.streamId (front f.streamId + f.length.toNat)) rest

/-- Frames in turn, each of which starts where its stream had got to. -/
def Seamless (front : UInt64 → Nat) : List FrameStream → Prop
  | [] => True
  | f :: rest => f.offset.toNat = front f.streamId ∧
    Seamless (Function.update front f.streamId (front f.streamId + f.length.toNat)) rest

section Order

variable {front : UInt64 → Nat} {streams : List FrameStream} {f : FrameStream}

theorem advanced_append (front : UInt64 → Nat) (streams : List FrameStream) (f : FrameStream) :
    advanced front (streams ++ [f]) = Function.update (advanced front streams) f.streamId
      (advanced front streams f.streamId + f.length.toNat) := by
  induction streams generalizing front with
  | nil => rfl
  | cons g rest ih => exact ih _

theorem Seamless.append (order : Seamless front streams)
    (start : f.offset.toNat = advanced front streams f.streamId) : Seamless front (streams ++ [f]) := by
  induction streams generalizing front with
  | nil => exact ⟨start, trivial⟩
  | cons g rest ih => exact ⟨order.1, ih order.2 start⟩

end Order

section Frontier

variable {conn conn' : Conn} {id : UInt64} {s : Stream}

/-- Links do not matter to how far a stream has been sent. -/
theorem Conn.frontier_relinks (links : Relinks conn conn') : conn'.frontier = conn.frontier := by
  funext id
  have same := links.streams id
  unfold Conn.frontier
  cases before : conn.stream id with
  | none =>
    rw [before, Option.map_none, Option.map_eq_none_iff] at same
    rw [same]
  | some s =>
    rw [before, Option.map_some] at same
    obtain ⟨s', after, unlinked⟩ := Option.map_eq_some_iff.mp same
    have send : s'.send = s.send := (congrArg Stream.send unlinked :)
    rw [after, Option.elim_some, Option.elim_some, send]

/-- A stream that is replaced takes its own place. -/
theorem Conn.frontier_setStream (conn : Conn) (id : UInt64) (s : Stream) :
    (conn.setStream id s).frontier =
      Function.update conn.frontier id s.send.sentOffset.toNat := by
  funext other
  unfold Conn.frontier
  rw [Conn.stream_setStream]
  by_cases same : other = id
  · rw [same, if_pos rfl, Function.update_self]
    rfl
  · rw [Function.update_of_ne same, if_neg same]

/-- A stream that is there has got as far as it says. -/
theorem Conn.frontier_found (found : conn.stream id = some s) :
    conn.frontier id = s.send.sentOffset.toNat := by
  rw [Conn.frontier, found]
  rfl

/-- A frame that is put into a packet takes its stream as far as the stream then is. -/
theorem SendBuild.putStream_frontier (b : SendBuild) (id : UInt64) (s : Stream) (f : FrameStream)
    (bytes : Bytes) : (b.putStream id s f bytes).conn.frontier =
      Function.update b.conn.frontier id s.send.sentOffset.toNat := by
  have charged : (Conn.setStream { b.conn with connFlow := flowOnSend b.conn.connFlow f.length } id
      (chargeStream s f.length)).frontier =
      Function.update b.conn.frontier id s.send.sentOffset.toNat :=
    Conn.frontier_setStream _ id (chargeStream s f.length)
  unfold SendBuild.putStream
  simp only
  split
  · rw [Conn.frontier_relinks (schedAdd_relinks _ _), charged]
  · exact charged

end Frontier

/-- A frame of a stream as the stream fills it and the encoder accepts it. -/
structure FrameStream.Filled (f : FrameStream) : Prop where
  short : f.length.toNat ≤ 65536
  sized : f.hasLength = true
  placed : f.hasOffset = decide (f.offset > 0)
  named : f.streamId ≤ varintMax
  ranged : f.offset ≤ varintMax

theorem streamFillFrame_filled {s s' : Stream} {limit : UInt64} {f : FrameStream}
    {bufLen : Nat} (sent : s.send.sentOffset.toNat ≤ s.send.writeOffset.toNat)
    (filled : streamFillFrame s limit = (some f, s'))
    (encoded : frameEncodeStream f bufLen = some bytes) : f.Filled := by
  have fills := streamFillFrame_fills filled
  obtain ⟨named, ranged⟩ := frameEncodeStream_inRange encoded
  refine ⟨(streamFillFrame_leaves filled sent).1, fills.sized, fills.placed, named, ?_⟩
  -- An offset that is left out is zero.
  by_cases positive : f.offset > 0
  · exact ranged (by rw [fills.placed]; exact decide_eq_true positive)
  · exact UInt64.le_trans (UInt64.not_lt.mp positive) (by decide)

/-- A packet in the making whose stream frames follow one another from where their streams had got
to. -/
structure Ordered (space : Nat) (front : UInt64 → Nat) (b : SendBuild) (control : List Frame)
    (streams : List FrameStream) : Prop where
  laid : Laid space b control streams
  order : Seamless front streams
  reached : b.conn.frontier = advanced front streams
  filled : ∀ f ∈ streams, f.Filled
  sound : b.conn.Each Stream.Sound

/-- A turn of the stream loop keeps the frames in order. -/
theorem Ordered.turned {front : UInt64 → Nat} {streams : List FrameStream}
    (ordered : Ordered space front b control streams) (more : b.records.hasRoom = true)
    (turned : Turned space b b') : ∃ streams', Ordered space front b' control streams' := by
  have sound : b'.conn.Each Stream.Sound :=
    Conn.Each.act Stream.Sound.linked Stream.Sound.fresh Stream.Sound.moved
      (show (Act.turned space b b').does b.conn b'.conn from ⟨rfl, rfl, turned⟩) ordered.sound
  cases turned with
  | relinked next =>
    refine ⟨streams, ordered.laid.moved _, ordered.order, ?_, ordered.filled, sound⟩
    exact (Conn.frontier_relinks (schedNext_links next)).trans ordered.reached
  | @kept conn id s s' next found only =>
    refine ⟨streams, ordered.laid.moved _, ordered.order, ?_, ordered.filled, sound⟩
    -- The stream is sent no further.
    have send : s'.send = s.send := by rw [only]
    show (conn.setStream id s').frontier = _
    rw [Conn.frontier_setStream, send, ← Conn.frontier_found found, Function.update_eq_self]
    exact (Conn.frontier_relinks (schedNext_links next)).trans ordered.reached
  | @sent conn id limit s refreshed s' f bytes next found able only budget limited filled encoded =>
    have links := schedNext_links next
    have before : conn.frontier = advanced front streams :=
      (Conn.frontier_relinks links).trans ordered.reached
    have send : refreshed.send = s.send := by rw [only]
    obtain ⟨s₀, there, unlinked⟩ := Option.map_eq_some_iff.mp
      ((links.streams id).symm.trans (by rw [found, Option.map_some]))
    have named : f.streamId = id := by
      obtain ⟨-, sameId, -⟩ := streamFillFrame_frontier filled
      have kept : refreshed.id = s.id := by rw [only]
      rw [sameId, kept]
      exact ((ordered.sound id s₀ there).linked unlinked.symm).named
    obtain ⟨-, -, start, -, frontier, -⟩ := streamFillFrame_frontier filled
    have offset : f.offset.toNat = advanced front streams f.streamId := by
      rw [start, send, named, ← before, Conn.frontier_found found]
    refine ⟨streams ++ [f], ordered.laid.put more encoded _ _ _, ordered.order.append offset, ?_, ?_,
      sound⟩
    · rw [SendBuild.putStream_frontier, advanced_append, ← offset, frontier, start, named, ← before]
    · intro g member
      rcases List.mem_append.mp member with old | new
      · exact ordered.filled g old
      · rw [List.mem_singleton.mp new]
        have whole : refreshed.send.sentOffset.toNat ≤ refreshed.send.writeOffset.toNat := by
          rw [send]
          exact ((ordered.sound id s₀ there).linked unlinked.symm).sent
        exact streamFillFrame_filled whole filled encoded

/-- Behind control frames, the frames of every packet are in order. -/
theorem buildFrames_follows {conn : Conn} (sound : conn.Sound)
    (laid : Laid space (conn.controls space nowUs)
      control []) (built : buildFrames turns conn space nowUs = some b) :
    ∃ streams, Ordered space conn.frontier b control streams := by
  have controls := Controls.controls conn space nowUs
  have streams (id : UInt64) : (conn.controls space nowUs).conn.stream id = conn.stream id := by
    unfold Conn.stream
    rw [controls.streams]
  have ordered : Ordered space conn.frontier
      (conn.controls space nowUs) control [] := by
    refine ⟨laid, trivial, ?_, nofun, fun id s found =>
      sound.streams id s ((streams id).symm.trans found)⟩
    funext id
    unfold Conn.frontier
    rw [streams]
    rfl
  refine buildFrames_invariant (fun b => ∃ streams, Ordered space conn.frontier b control streams)
    ⟨[], ordered⟩ ?_ built
  rintro b b' more ⟨streams, ordered⟩ turned
  exact ordered.turned more turned

/-- The frames of the datagram a connection sends next: those of its streams, and others before
them. -/
structure Conn.Loads (env : Env) (conn : Conn) (maxLen : Nat) (nowUs : UInt64)
    (control : List Frame) (streams : List FrameStream) : Prop where
  delivered : ∃ level pnLen, Delivers env conn maxLen nowUs level pnLen
    ((control ++ streams.map Frame.stream).flatMap Frame.octets)
  apart : ∀ f, Frame.stream f ∉ control

/-- Frames that the handshake is made of. -/
def Frame.isHandshake : Frame → Bool
  | .crypto _ _ | .handshakeDone | .padding _ => true
  | _ => false

/-- Every way a datagram goes out: the handshake had something to send, of which nothing is
remembered, or frames were built, closed to a packet and accounted for. -/
inductive Dispatched (evp : Evp) (env : Env) (conn : Conn) (maxLen : Nat) (nowUs : UInt64)
    (bytes : Bytes) : Conn → Prop
  | handshake {control : List Frame} {next : Conn}
      (waiting : conn.handshake.any handshakeHasData = true)
      (loads : conn.Loads env maxLen nowUs control [])
      (plain : ∀ frame ∈ control, frame.isHandshake = true)
      (kept : next.ack.sent = conn.ack.sent) : Dispatched evp env conn maxLen nowUs bytes next
  | built {b : SendBuild} {after : Conn}
      (waiting : conn.handshake.filter handshakeHasData = none)
      (built : buildFrames env.turns (conn.paced nowUs) (frameSpace (conn.paced nowUs) maxLen)
        nowUs = some b)
      (closed : closePacket evp b.conn (nextShortHeader conn) (nextPnLen conn) b.frames =
        some (bytes, after)) :
      Dispatched evp env conn maxLen nowUs bytes
        (accountSent env { b with conn := after } bytes.length nowUs)

/-- A datagram that is sent goes out in one of these ways. -/
theorem connSend_dispatched {conn : Conn}
    (called : connSend evp env conn maxLen nowUs = some (.datagram bytes, next)) :
    Dispatched evp env conn maxLen nowUs bytes next := by
  cases connSend_sent called with
  | handshake waiting sent =>
    obtain ⟨present, has⟩ := Option.filter_eq_some_iff.mp waiting
    have some : conn.handshake.any handshakeHasData = true := by rw [present]; exact has
    cases sent with
    | still quiet => exact absurd rfl (quiet bytes)
    | taken quiet => exact absurd rfl (quiet bytes)
    | done last =>
      have frames : handshakeDoneFrames 1 =
          ([Frame.handshakeDone, .padding 3] ++ [].map Frame.stream).flatMap Frame.octets := by decide
      have loads : conn.Loads env maxLen nowUs [.handshakeDone, .padding 3] [] := by
        refine ⟨⟨.application, 1, ?_⟩, by simp⟩
        rw [← frames]
        exact .notice waiting last
      exact .handshake some loads (by decide) rfl
    | @crypto _ _ _ _ frames _ _ early _ _ _ encoded =>
      have delivers : Delivers env conn maxLen nowUs _ 1 frames := .crypto waiting early encoded
      have whole := ((@frameEncode_iff _ _ (.crypto _ _)).mp encoded).1
      generalize UInt64.ofNat (handshakeFillCrypto _ 512).1 = offset,
        (handshakeFillCrypto _ 512).2.1 = data at whole
      have laid : ([Frame.crypto offset data] ++ [].map Frame.stream).flatMap Frame.octets =
          frames := by simp [whole]
      rw [← laid] at delivers
      exact .handshake some ⟨⟨_, 1, delivers⟩, by simp⟩ (by simp [Frame.isHandshake]) rfl
  | short quiet busy free sent =>
    cases sent with
    | sent built _ _ closed => exact .built quiet built closed

/-- A connection whose handshake has nothing to send loads the frames that are built for it. -/
theorem Laid.loads {conn : Conn} {streams : List FrameStream}
    (laid : Laid space b control streams) (waiting : conn.handshake.filter handshakeHasData = none)
    (built : buildFrames env.turns (conn.paced nowUs) (frameSpace (conn.paced nowUs) maxLen)
      nowUs = some b) : conn.Loads env maxLen nowUs control streams := by
  refine ⟨⟨.application, nextPnLen conn, ?_⟩, fun f member => ?_⟩
  · rw [← laid.layout]
    exact .packet waiting built
  · cases laid.kinds _ member

end Nxp
