import Nxp.Core.StreamIds

/-! The number of streams the peer has opened stays within the announced limits exactly as long as
the peer keeps to them. -/

namespace Nxp

/-- Whether data flows in one direction only. -/
def isUnidirectional (streamId : UInt64) : Bool := streamId &&& 2 != 0

/-- Streams of one direction that the peer has opened. -/
def Conn.peerStreams (conn : Conn) (unidirectional : Bool) : Finset UInt64 :=
  conn.ids.filter fun id =>
    streamIdIsLocal id conn.isServer = false ∧ isUnidirectional id = unidirectional

/-- How many streams of one direction the peer was told it may open. -/
def Conn.localMaxStreams (conn : Conn) (unidirectional : Bool) : UInt32 :=
  if unidirectional then conn.localMaxStreamsUni else conn.localMaxStreamsBidi

/-- The peer has opened no more streams than it was told it may. -/
def WithinStreamLimits (conn : Conn) : Prop :=
  ∀ unidirectional,
    (conn.peerStreams unidirectional).card ≤ (conn.localMaxStreams unidirectional).toNat

/-- A frame opens a stream, for which there is memory, beyond the limit of its direction. -/
def Exceeds (env : Env) (conn : Conn) (f : FrameStream) : Prop :=
  conn.stream f.streamId = none ∧ streamIdIsLocal f.streamId conn.isServer = false ∧
    env.allocStream f.streamId = true ∧ env.allocMap f.streamId = true ∧
    (conn.localMaxStreams (isUnidirectional f.streamId)).toNat ≤
      (conn.peerStreams (isUnidirectional f.streamId)).card

/-- No frame opens a stream beyond the limit. -/
def streamLimitTerms : Terms := ⟨fun env conn f => ¬ Exceeds env conn f, fun _ _ _ _ => True⟩

section Acts

variable {act : Act} {before after : Conn}

theorem Act.isServer (done : act.does before after) : after.isServer = before.isServer :=
  (Act.fixed done).1

theorem Act.localMaxStreams (done : act.does before after) (unidirectional : Bool) :
    after.localMaxStreams unidirectional = before.localMaxStreams unidirectional := by
  obtain ⟨-, -, bidi, uni⟩ := Act.fixed done
  cases unidirectional with
  | true => exact uni
  | false => exact bidi

theorem Act.peer_created (done : act.does before after) {unidirectional : Bool} {id : UInt64}
    (member : id ∈ after.peerStreams unidirectional)
    (new : id ∉ before.peerStreams unidirectional) :
    streamIdIsLocal id before.isServer = false ∧ isUnidirectional id = unidirectional ∧
      ∃ s, act.creates before id s := by
  unfold Conn.peerStreams at member new
  rw [Finset.mem_filter, Act.isServer done] at member
  obtain ⟨there, remote, direction⟩ := member
  refine ⟨remote, direction, Act.created done there fun known => new ?_⟩
  exact Finset.mem_filter.mpr ⟨known, remote, direction⟩

/-- An act within the terms keeps the limits. -/
theorem WithinStreamLimits.kept (permitted : streamLimitTerms.permit before act)
    (done : act.does before after) (within : WithinStreamLimits before) :
    WithinStreamLimits after := by
  intro unidirectional
  rw [Act.localMaxStreams done]
  by_cases grown : after.peerStreams unidirectional ⊆ before.peerStreams unidirectional
  · exact Nat.le_trans (Finset.card_le_card grown) (within unidirectional)
  · obtain ⟨id, member, new⟩ := Finset.not_subset.mp grown
    obtain ⟨remote, direction, s, made⟩ := Act.peer_created done member new
    cases act with
    | taken env f =>
      -- There was room for one more, and one more is what there is.
      obtain ⟨rfl, absent, -, memory, room, -⟩ := made
      have below : (before.peerStreams unidirectional).card <
          (before.localMaxStreams unidirectional).toNat := by
        by_contra full
        rw [← direction] at full
        exact permitted ⟨absent, remote, memory, room, by omega⟩
      have one : after.peerStreams unidirectional ⊆
          insert f.streamId (before.peerStreams unidirectional) := by
        intro other there
        by_cases known : other ∈ before.peerStreams unidirectional
        · exact Finset.mem_insert_of_mem known
        · obtain ⟨-, -, _, made⟩ := Act.peer_created done there known
          rw [made.1]
          exact Finset.mem_insert_self _ _
      have size := (Finset.card_le_card one).trans (Finset.card_insert_le _ _)
      omega
    | opened env type direction =>
      -- A stream this side opens is its own.
      rw [made.1, nextStreamId, makeStreamId_local] at remote
      cases remote
    | _ => exact made.elim

end Acts

/-- A frame keeps the limits exactly if it does not open a stream beyond them. -/
theorem recvStreamFrame_within_iff {env : Env} {conn : Conn} {f : FrameStream}
    (within : WithinStreamLimits conn) :
    WithinStreamLimits (recvStreamFrame env conn f).2 ↔ ¬ Exceeds env conn f := by
  have done : (Act.taken env f).does conn (recvStreamFrame env conn f).2 := rfl
  constructor
  · rintro after ⟨absent, remote, memory, room, full⟩
    have found := (recvStreamFrame_created absent remote memory room).2
    -- The new stream comes on top of those that already reach the limit.
    have more : insert f.streamId (conn.peerStreams (isUnidirectional f.streamId)) ⊆
        (recvStreamFrame env conn f).2.peerStreams (isUnidirectional f.streamId) := by
      intro id member
      unfold Conn.peerStreams
      rw [Finset.mem_filter, Act.isServer done]
      rcases Finset.mem_insert.mp member with rfl | known
      · exact ⟨Conn.mem_ids.mpr ⟨_, found⟩, remote, rfl⟩
      · obtain ⟨there, kind⟩ := Finset.mem_filter.mp known
        exact ⟨Act.ids_subset done there, kind⟩
    have new : f.streamId ∉ conn.peerStreams (isUnidirectional f.streamId) := by
      intro member
      exact Conn.not_mem_ids.mpr absent (Finset.mem_filter.mp member).1
    have size := Finset.card_le_card more
    rw [Finset.card_insert_of_notMem new] at size
    have bound := after (isUnidirectional f.streamId)
    rw [Act.localMaxStreams done] at bound
    omega
  · intro fine
    have permitted : streamLimitTerms.permit conn (.taken env f) := fine
    exact within.kept permitted done

/-- In every run in which no frame opens a stream beyond the announced limits, the peer has opened
no more streams than that; and in every state such a run reaches, a frame keeps the limits exactly
if it does not open a stream beyond them. -/
theorem peer_streams_limited {evp : Evp} {config : ConnConfig} {isServer allocCc : Bool}
    {inputs : List (Env × ConnOp)} {final : Conn}
    (kept : Machine.Throughout (connStep evp) (streamLimitTerms.met evp)
      (connCreate config isServer allocCc) inputs)
    (reached : Machine.attempt (connStep evp) (connCreate config isServer allocCc) inputs =
      some final) :
    WithinStreamLimits final ∧
      ∀ env f, WithinStreamLimits (recvStreamFrame env final f).2 ↔ ¬ Exceeds env final f := by
  have within : WithinStreamLimits final :=
    Machine.attempt_invariant (streamLimitTerms.met evp) WithinStreamLimits
      (fun _ _ _ within met stepped =>
        (connStep_acts met stepped).preserve
          (fun _ _ _ permitted done within => within.kept permitted done) within)
      (fun _ => Nat.zero_le _) kept reached
  exact ⟨within, fun _ _ => recvStreamFrame_within_iff within⟩

/-- A configuration that lets the peer open one stream of each direction. -/
def oneStreamConfig : ConnConfig := ⟨ConnId.empty, Addr.zero, 0, 0, 0, 1, 1⟩

/-- A server that is established by hand. -/
def oneStreamServer : Conn := connSetEstablished (connCreate oneStreamConfig true true) ConnId.empty

/-- A packet with one octet of the client's first stream. -/
def firstStreamPacket : Bytes := [0x40, 0x00, 0x0A, 0x00, 0x01, 0x07]

/-- A packet with one octet of each of the client's first two streams. -/
def twoStreamsPacket : Bytes := firstStreamPacket ++ [0x0A, 0x10, 0x01, 0x07]

theorem firstStream_met :
    streamLimitTerms.met plainEvp oneStreamServer (plainEnv, .recv firstStreamPacket 0) := by
  intro pktNum payload event opens _
  have opened : openDatagram plainEvp oneStreamServer firstStreamPacket =
      some (some 0, [0x0A, 0x00, 0x01, 0x07]) := by decide +kernel
  cases opened.symm.trans opens
  have frames : leadingFrames [0x0A, 0x00, 0x01, 0x07] =
      [.stream ⟨0, 0, 1, false, true, false, some [7], by decide⟩] := by decide
  rw [frames]
  refine ⟨fun f same => ?_, fun _ => trivial⟩
  cases same
  -- The server has no stream yet.
  rintro ⟨-, -, -, -, full⟩
  have none : ¬ (oneStreamServer.localMaxStreams false).toNat ≤
      (oneStreamServer.peerStreams false).card := by decide +kernel
  exact none full

/-- One stream is within a limit of one. -/
theorem peer_streams_limited_one :
    ∃ final, Machine.attempt (connStep plainEvp) (connCreate oneStreamConfig true true)
        [(plainEnv, .setEstablished ConnId.empty), (plainEnv, .recv firstStreamPacket 0)] =
        some final ∧ final.ids = {0} ∧ WithinStreamLimits final := by
  have kept : Machine.Throughout (connStep plainEvp) (streamLimitTerms.met plainEvp)
      (connCreate oneStreamConfig true true)
      [(plainEnv, .setEstablished ConnId.empty), (plainEnv, .recv firstStreamPacket 0)] := by
    refine ⟨trivial, fun next stepped => ?_⟩
    cases stepped
    exact ⟨firstStream_met, fun _ _ => trivial⟩
  exact ⟨(connRecv plainEvp plainEnv oneStreamServer firstStreamPacket 0).2, rfl,
    by decide +kernel, (peer_streams_limited kept rfl).1⟩

/-- A packet that opens two streams is accepted where one is allowed. -/
theorem two_streams_accepted :
    ∃ final, Machine.attempt (connStep plainEvp) (connCreate oneStreamConfig true true)
        [(plainEnv, .setEstablished ConnId.empty), (plainEnv, .recv twoStreamsPacket 0)] =
        some final ∧
      (connRecv plainEvp plainEnv oneStreamServer twoStreamsPacket 0).1 = .ok ∧
      final.localMaxStreamsBidi = 1 ∧ (final.peerStreams false).card = 2 ∧
      ¬ WithinStreamLimits final := by
  have run : (connRecv plainEvp plainEnv oneStreamServer twoStreamsPacket 0).1 = .ok ∧
      (connRecv plainEvp plainEnv oneStreamServer twoStreamsPacket 0).2.localMaxStreamsBidi = 1 ∧
      ((connRecv plainEvp plainEnv oneStreamServer twoStreamsPacket 0).2.peerStreams false).card =
        2 := by decide +kernel
  obtain ⟨accepted, limit, count⟩ := run
  refine ⟨(connRecv plainEvp plainEnv oneStreamServer twoStreamsPacket 0).2, rfl, accepted, limit,
    count, fun within => ?_⟩
  have bound := within false
  rw [count] at bound
  unfold Conn.localMaxStreams at bound
  rw [if_neg Bool.false_ne_true, limit] at bound
  exact absurd bound (by decide)

end Nxp
