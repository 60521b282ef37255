import Nxp.Core.StreamMoves
import Mathlib.Data.Finset.Card

/-! Which streams a connection has, and who opened them. -/

namespace Nxp

variable {conn : Conn} {unidirectional : Bool} {env : Env} {f : FrameStream}

/-- Identifiers of the streams of a connection. -/
def Conn.ids (conn : Conn) : Finset UInt64 := conn.streams.keys.toFinset

/-- An identifier is there when its stream is. -/
theorem Conn.mem_ids {id : UInt64} : id ∈ conn.ids ↔ ∃ s, conn.stream id = some s := by
  unfold Conn.ids Conn.stream
  rw [List.mem_toFinset, ← AList.mem_keys, ← AList.lookup_isSome, Option.isSome_iff_exists]

/-- An identifier is not there when its stream is not. -/
theorem Conn.not_mem_ids {id : UInt64} : id ∉ conn.ids ↔ conn.stream id = none := by
  rw [Conn.mem_ids, ← Option.isSome_iff_exists, Bool.not_eq_true, Option.isSome_eq_false_iff,
    Option.isNone_iff_eq_none]

theorem connCreate_ids (config : ConnConfig) (isServer allocCc : Bool) :
    (connCreate config isServer allocCc).ids = ∅ := rfl

section Acts

variable {act : Act} {before after : Conn} {id : UInt64}

/-- No stream is ever dropped. -/
theorem Act.ids_subset (done : act.does before after) : before.ids ⊆ after.ids := by
  intro id member
  obtain ⟨s, found⟩ := Conn.mem_ids.mp member
  have step := Act.streams done id
  rw [found] at step
  generalize next : after.stream id = now at step
  cases step with
  | moved => exact Conn.mem_ids.mpr ⟨_, next⟩
  | created => exact Conn.mem_ids.mpr ⟨_, next⟩

/-- A stream that was not there before was created. -/
theorem Act.created (done : act.does before after) (member : id ∈ after.ids)
    (new : id ∉ before.ids) : ∃ s, act.creates before id s := by
  obtain ⟨s, found⟩ := Conn.mem_ids.mp member
  have step := Act.streams done id
  rw [found, Conn.not_mem_ids.mp new] at step
  cases step with
  | created _ made => exact ⟨s, made⟩

/-- Acts that create no stream leave the identifiers as they are. -/
theorem Act.ids_eq (done : act.does before after) (none : ∀ id s, ¬ act.creates before id s) :
    after.ids = before.ids := by
  apply Finset.Subset.antisymm _ (Act.ids_subset done)
  intro id member
  by_contra new
  obtain ⟨s, made⟩ := Act.created done member new
  exact none id s made

end Acts

/-- The lowest four bits of an identifier: its class, its direction and who opened it. -/
def streamKind (type : StreamType) (unidirectional isServer : Bool) : UInt64 :=
  (streamTypeNum type <<< 2) ||| (if unidirectional then 2 else 0) ||| (if isServer then 1 else 0)

theorem makeStreamId_toNat (seq : UInt64) (type : StreamType) (unidirectional isServer : Bool) :
    (makeStreamId seq type unidirectional isServer).toNat =
      seq.toNat % 2 ^ 60 * 16 + (streamKind type unidirectional isServer).toNat := by
  have low : (streamKind type unidirectional isServer).toNat < 2 ^ 4 := by
    cases type <;> cases unidirectional <;> cases isServer <;> decide
  have parts : makeStreamId seq type unidirectional isServer =
      seq <<< 4 ||| streamKind type unidirectional isServer := by
    unfold makeStreamId streamKind
    rw [UInt64.or_assoc, UInt64.or_assoc, UInt64.or_assoc]
  have high : (seq <<< 4).toNat = (seq.toNat % 2 ^ 60) <<< 4 := by
    rw [UInt64.toNat_shiftLeft, Nat.shiftLeft_eq, Nat.shiftLeft_eq]
    have four : (4 : UInt64).toNat % 64 = 4 := rfl
    rw [four]
    omega
  rw [parts, UInt64.toNat_or, high, ← Nat.shiftLeft_add_eq_or_of_lt low, Nat.shiftLeft_eq]

/-- A stream this side opens is its own. -/
theorem makeStreamId_local (seq : UInt64) (type : StreamType) (unidirectional isServer : Bool) :
    streamIdIsLocal (makeStreamId seq type unidirectional isServer) isServer = true := by
  have whole := makeStreamId_toNat seq type unidirectional isServer
  generalize makeStreamId seq type unidirectional isServer = id at whole
  have parity : (id &&& 1).toNat = (streamKind type unidirectional isServer).toNat % 2 := by
    rw [UInt64.toNat_and]
    have one : (1 : UInt64).toNat = 1 := rfl
    rw [one, Nat.and_one_is_mod, whole]
    omega
  have bit : (streamKind type unidirectional isServer).toNat % 2 = isServer.toNat := by
    cases type <;> cases unidirectional <;> cases isServer <;> decide
  unfold streamIdIsLocal
  cases isServer with
  | true =>
    have odd : id &&& 1 ≠ 0 := by
      rw [ne_eq, ← UInt64.toNat_inj, parity, bit]
      decide
    simp [odd]
  | false =>
    have even : id &&& 1 = 0 := by
      rw [← UInt64.toNat_inj, parity, bit]
      rfl
    simp [even]

theorem makeStreamId_inj {seq seq' : UInt64} {type type' : StreamType}
    {unidirectional' isServer : Bool} (small : seq.toNat < 2 ^ 60) (small' : seq'.toNat < 2 ^ 60)
    (same : makeStreamId seq type unidirectional isServer =
      makeStreamId seq' type' unidirectional' isServer) :
    seq = seq' ∧ unidirectional = unidirectional' := by
  have low (type : StreamType) (unidirectional : Bool) :
      (streamKind type unidirectional isServer).toNat < 16 := by
    cases type <;> cases unidirectional <;> cases isServer <;> decide
  have numbers := congrArg UInt64.toNat same
  rw [makeStreamId_toNat, makeStreamId_toNat, Nat.mod_eq_of_lt small, Nat.mod_eq_of_lt small']
    at numbers
  have first := low type unidirectional
  have second := low type' unidirectional'
  have kinds : (streamKind type unidirectional isServer).toNat =
      (streamKind type' unidirectional' isServer).toNat := by omega
  refine ⟨UInt64.toNat_inj.mp (by omega), ?_⟩
  -- The direction is one of the lowest four bits.
  revert kinds
  cases type <;> cases type' <;> cases unidirectional <;> cases unidirectional' <;>
    cases isServer <;> decide

/-- The number of the next stream this side opens in a direction. -/
def Conn.nextSeq (conn : Conn) (unidirectional : Bool) : UInt64 :=
  if unidirectional then conn.nextUniId else conn.nextBidiId

/-- How many streams this side has open in a direction. -/
def Conn.openCount (conn : Conn) (unidirectional : Bool) : UInt32 :=
  if unidirectional then conn.openUniCount else conn.openBidiCount

/-- An identifier was made from a number that is used up. -/
def Conn.Given (conn : Conn) (id : UInt64) : Prop :=
  ∃ seq type unidirectional, id = makeStreamId seq type unidirectional conn.isServer ∧
    seq.toNat < (conn.nextSeq unidirectional).toNat

/-- Streams are numbered as they are counted, and a stream of this side has a number that was
given before. -/
structure Conn.Numbered (conn : Conn) : Prop where
  counted : ∀ unidirectional,
    (conn.nextSeq unidirectional).toNat = (conn.openCount unidirectional).toNat
  given : ∀ id ∈ conn.ids, streamIdIsLocal id conn.isServer = true → conn.Given id

theorem Conn.Numbered.small (numbered : conn.Numbered) (unidirectional : Bool) :
    (conn.nextSeq unidirectional).toNat < 2 ^ 32 := by
  rw [numbered.counted]
  exact (conn.openCount unidirectional).toNat_lt

/-- The next identifier was not given before. -/
theorem Conn.Numbered.unused (numbered : conn.Numbered) (type : StreamType) (unidirectional : Bool)
    : ¬ conn.Given (nextStreamId conn type unidirectional) := by
  rintro ⟨seq, type', unidirectional', same, before⟩
  have next := numbered.small unidirectional
  have bound := numbered.small unidirectional'
  obtain ⟨equal, direction⟩ := makeStreamId_inj (show (conn.nextSeq unidirectional).toNat < 2 ^ 60
    by omega) (by omega) same
  rw [← direction, ← equal] at before
  exact Nat.lt_irrefl _ before

/-- The next stream has an identifier that no stream has. -/
theorem Conn.Numbered.fresh (numbered : conn.Numbered) (type : StreamType) (unidirectional : Bool) :
    nextStreamId conn type unidirectional ∉ conn.ids := fun member =>
  numbered.unused type unidirectional (numbered.given _ member (makeStreamId_local _ _ _ _))

/-- What a count of streams goes up to when one more is opened. -/
theorem countOpened_counts (numbered : conn.Numbered)
    (more : streamsLeft conn unidirectional = true) (other : Bool) :
    ((countOpened conn unidirectional).nextSeq other).toNat =
        (conn.nextSeq other).toNat + (if other = unidirectional then 1 else 0) ∧
      ((countOpened conn unidirectional).openCount other).toNat =
        (conn.openCount other).toNat + (if other = unidirectional then 1 else 0) := by
  have small := numbered.small unidirectional
  -- A count below the peer's limit has room for one more.
  have room : (conn.openCount unidirectional).toNat + 1 < 2 ^ 32 := by
    unfold streamsLeft at more
    cases unidirectional with
    | true =>
      have below := UInt32.lt_iff_toNat_lt.mp (of_decide_eq_true more)
      have bound := conn.peerMaxStreamsUni.toNat_lt
      show conn.openUniCount.toNat + 1 < 2 ^ 32
      omega
    | false =>
      have below := UInt32.lt_iff_toNat_lt.mp (of_decide_eq_true more)
      have bound := conn.peerMaxStreamsBidi.toNat_lt
      show conn.openBidiCount.toNat + 1 < 2 ^ 32
      omega
  have seq : (conn.nextSeq unidirectional + 1).toNat = (conn.nextSeq unidirectional).toNat + 1 := by
    rw [UInt64.toNat_add]
    have one : (1 : UInt64).toNat = 1 := rfl
    omega
  have count : (conn.openCount unidirectional + 1).toNat =
      (conn.openCount unidirectional).toNat + 1 := by
    rw [UInt32.toNat_add]
    have one : (1 : UInt32).toNat = 1 := rfl
    omega
  cases other <;> cases unidirectional
  · exact ⟨seq, count⟩
  · exact ⟨rfl, rfl⟩
  · exact ⟨rfl, rfl⟩
  · exact ⟨seq, count⟩

theorem Conn.charter_counts {other : Conn} (same : conn.charter = other.charter)
    (unidirectional : Bool) :
    conn.nextSeq unidirectional = other.nextSeq unidirectional ∧
      conn.openCount unidirectional = other.openCount unidirectional := by
  cases unidirectional with
  | true => exact ⟨congrArg Charter.nextUniId same, congrArg Charter.openUniCount same⟩
  | false => exact ⟨congrArg Charter.nextBidiId same, congrArg Charter.openBidiCount same⟩

/-- Acts count streams as they number them, and use no number twice. -/
theorem Conn.Numbered.counts {act : Act} {before after : Conn} (numbered : before.Numbered)
    (done : act.does before after) (unidirectional : Bool) :
    (after.nextSeq unidirectional).toNat = (after.openCount unidirectional).toNat ∧
      (before.nextSeq unidirectional).toNat ≤ (after.nextSeq unidirectional).toNat := by
  rcases Act.charter done with same | ⟨_, _, opened, -, more, same⟩
  · obtain ⟨seq, count⟩ := Conn.charter_counts same unidirectional
    rw [seq, count]
    exact ⟨numbered.counted unidirectional, Nat.le_refl _⟩
  · obtain ⟨seq, count⟩ := Conn.charter_counts same unidirectional
    obtain ⟨seq', count'⟩ := countOpened_counts numbered more unidirectional
    rw [seq, count, seq', count', numbered.counted unidirectional]
    exact ⟨rfl, Nat.le_add_right _ _⟩

/-- What was given stays given. -/
theorem Conn.Numbered.given_kept {act : Act} {before after : Conn} (numbered : before.Numbered)
    (done : act.does before after) {id : UInt64} (given : before.Given id) : after.Given id := by
  obtain ⟨seq, type, unidirectional, same, below⟩ := given
  refine ⟨seq, type, unidirectional, by rw [(Act.fixed done).1]; exact same, ?_⟩
  exact Nat.lt_of_lt_of_le below (numbered.counts done unidirectional).2

/-- The identifier of a stream that is opened is given from then on. -/
theorem connOpenStream_given (numbered : conn.Numbered) {type : StreamType}
    (more : streamsLeft conn unidirectional = true)
    (memory : env.allocStream (nextStreamId conn type unidirectional) = true) :
    (connOpenStream env conn type unidirectional).2.Given (nextStreamId conn type unidirectional) := by
  have server := (Act.fixed (show (Act.opened env type unidirectional).does conn _ from rfl)).1
  refine ⟨conn.nextSeq unidirectional, type, unidirectional, by rw [server]; rfl, ?_⟩
  have charter : (connOpenStream env conn type unidirectional).2.nextSeq unidirectional =
      (countOpened conn unidirectional).nextSeq unidirectional := by
    unfold connOpenStream
    rw [if_neg (by simp [more]), if_neg (by simp [memory])]
    unfold storeStream countOpened Conn.nextSeq
    simp only
    repeat' split
    all_goals rfl
  rw [charter, (countOpened_counts numbered more unidirectional).1, if_pos rfl]
  exact Nat.lt_succ_self _

/-- No act numbers a stream out of turn. -/
theorem Conn.Numbered.kept {act : Act} {before after : Conn} (numbered : before.Numbered)
    (done : act.does before after) : after.Numbered := by
  refine ⟨fun unidirectional => (numbered.counts done unidirectional).1, fun id member mine => ?_⟩
  rw [(Act.fixed done).1] at mine
  by_cases old : id ∈ before.ids
  · exact numbered.given_kept done (numbered.given id old mine)
  · obtain ⟨s, made⟩ := Act.created done member old
    cases act with
    | taken env f =>
      -- A stream that a frame creates is the peer's.
      obtain ⟨-, -, remote, -⟩ := made
      rw [remote] at mine
      cases mine
    | opened env type unidirectional =>
      obtain ⟨rfl, more, memory, -⟩ := made
      cases done
      exact connOpenStream_given numbered more memory
    | _ => exact absurd made (by simp [Act.creates])

/-- A new connection has no stream to number. -/
theorem connCreate_numbered (config : ConnConfig) (isServer allocCc : Bool) :
    (connCreate config isServer allocCc).Numbered where
  counted unidirectional := by cases unidirectional <;> rfl
  given id member _ := by
    rw [connCreate_ids] at member
    cases member

/-- A stream that is there moves, and is not replaced by another. -/
theorem Conn.Numbered.moved {act : Act} {before after : Conn} (numbered : before.Numbered)
    (done : act.does before after) {id : UInt64} {s : Stream} (found : before.stream id = some s) :
    ∃ linked moved s', linked.unlinked = s.unlinked ∧ Move id linked act moved ∧
      s'.unlinked = moved.unlinked ∧ after.stream id = some s' := by
  have step := Act.streams done id
  rw [found] at step
  generalize next : after.stream id = now at step
  cases step with
  | moved links move relinks => exact ⟨_, _, _, links, move, relinks, rfl⟩
  | created _ made =>
    cases act with
    | taken env f =>
      rw [made.2.1] at found
      cases found
    | opened env type unidirectional =>
      have fresh := numbered.fresh type unidirectional
      rw [← made.1] at fresh
      exact absurd (Conn.mem_ids.mpr ⟨s, found⟩) fresh
    | _ => exact absurd made (by simp [Act.creates])

/-- A stream the peer opens takes the frame that opened it and is there afterwards. -/
theorem recvStreamFrame_created (absent : conn.stream f.streamId = none)
    (remote : streamIdIsLocal f.streamId conn.isServer = false)
    (memory : env.allocStream f.streamId = true) (room : env.allocMap f.streamId = true) :
    let fresh := streamCreate f.streamId .reliable conn.initialMaxStreamData
      conn.initialMaxStreamData
    (recvStreamFrame env conn f).1 = (streamOnRecv fresh f).1 ∧
      (recvStreamFrame env conn f).2.stream f.streamId = some (streamOnRecv fresh f).2 := by
  unfold recvStreamFrame openRemoteStream storeStream
  simp only [absent, remote, memory, room, Bool.not_true, Bool.false_eq_true, if_false, if_true,
    true_and]
  rw [Conn.stream_modifyStream, if_pos rfl, Conn.stream_told]
  show Option.map _ ((conn.setStream f.streamId _).stream f.streamId) = _
  rw [Conn.stream_setStream, if_pos rfl, Option.map_some]

/-- A frame of a known stream is taken by that stream. -/
theorem recvStreamFrame_known {s : Stream} (found : conn.stream f.streamId = some s) :
    recvStreamFrame env conn f =
      ((streamOnRecv s f).1, conn.setStream f.streamId (streamOnRecv s f).2) := by
  unfold recvStreamFrame
  rw [found]

/-- A frame leaves all other streams alone. -/
theorem recvStreamFrame_other (env : Env) (conn : Conn) {id : UInt64} (differs : id ≠ f.streamId) :
    (recvStreamFrame env conn f).2.stream id = conn.stream id := by
  unfold recvStreamFrame
  split
  · rw [Conn.stream_setStream, if_neg differs]
  · split
    · rfl
    · split
      · rfl
      · have told (stored : Conn) (event : ConnEvent) (asked : Bool) (other : UInt64) :
            (if asked then stored.observe event else stored).stream other =
              stored.stream other := by
          cases asked <;> rfl
        unfold openRemoteStream storeStream
        simp only
        rw [Conn.stream_modifyStream, if_neg differs, told]
        split
        · show (conn.setStream f.streamId _).stream id = _
          rw [Conn.stream_setStream, if_neg differs]
        · rfl

end Nxp
