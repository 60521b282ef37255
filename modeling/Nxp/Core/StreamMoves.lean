import Nxp.Core.ActLaws

/-! Every way an act can move a stream, and the rule for what holds of all streams. -/

namespace Nxp

variable {before after conn : Conn} {id : UInt64} {s s' : Stream}

/-- Every way an act moves the stream with an identifier, apart from its links. -/
inductive Move (id : UInt64) (s : Stream) : Act → Stream → Prop
  | retimed {act : Act} {s' : Stream} (only : s' = { s with
      rateLimit := s'.rateLimit, blocked := s'.blocked, onWritable := s'.onWritable }) :
      Move id s act s'
  | received (env : Env) {f : FrameStream} (named : f.streamId = id) :
      Move id s (.taken env f) (streamOnRecv s f).2
  | raised (maxData : UInt64) :
      Move id s (.raised id maxData) { s with flow := flowSetPeerMax s.flow maxData }
  | acked {rec : StreamFrameRecord} (named : rec.streamId = id) (blocked : Bool) :
      Move id s (.acked rec) { streamOnAck s rec.offset rec.len rec.fin with blocked := blocked }
  | lost {rec : StreamFrameRecord} (named : rec.streamId = id) :
      Move id s (.lost rec) (streamOnLoss s rec.offset rec.len rec.fin)
  | sent {space : Nat} {b b' : SendBuild} {limit : UInt64} {refreshed s' : Stream}
      {f : FrameStream} (only : refreshed = { s with rateLimit := refreshed.rateLimit })
      (filled : streamFillFrame refreshed limit = (some f, s')) :
      Move id s (.turned space b b') (chargeStream s' f.length)
  | written (data : Bytes) (fin : Bool) :
      Move id s (.written id data fin) (streamWrite s data fin).2
  | read (bufLen : UInt64) : Move id s (.read id bufLen) (streamRead s bufLen).2.2

theorem Move.refl (id : UInt64) (s : Stream) (act : Act) : Move id s act s := .retimed rfl

/-- Streams that an act creates, and how they are then. -/
def Act.creates (conn : Conn) : Act → UInt64 → Stream → Prop
  | .taken env f, id, s =>
    id = f.streamId ∧ conn.stream id = none ∧ streamIdIsLocal id conn.isServer = false ∧
      env.allocStream id = true ∧ env.allocMap id = true ∧
      s = (streamOnRecv (streamCreate id .reliable conn.initialMaxStreamData
        conn.initialMaxStreamData) f).2
  | .opened env type unidirectional, id, s =>
    id = nextStreamId conn type unidirectional ∧ streamsLeft conn unidirectional = true ∧
      env.allocStream id = true ∧ env.allocMap id = true ∧
      s = streamCreate id type conn.initialMaxStreamData conn.initialMaxStreamData
  | _, _, _ => False

/-- What an act makes of the stream with an identifier, whatever becomes of its links. -/
inductive StreamStep (act : Act) (conn : Conn) (id : UInt64) :
    Option Stream → Option Stream → Prop
  | absent : StreamStep act conn id none none
  | moved {s linked moved s' : Stream} (before : linked.unlinked = s.unlinked)
      (move : Move id linked act moved) (after : s'.unlinked = moved.unlinked) :
      StreamStep act conn id (some s) (some s')
  | created (old : Option Stream) {s : Stream} (made : act.creates conn id s) :
      StreamStep act conn id old (some s)

/-- Every stream takes a step. -/
def StreamSteps (act : Act) (before after : Conn) : Prop :=
  ∀ id, StreamStep act before id (before.stream id) (after.stream id)

namespace StreamSteps

variable {act : Act}

theorem of_links {before after : Option Stream}
    (same : after.map Stream.unlinked = before.map Stream.unlinked) :
    StreamStep act conn id before after := by
  cases before with
  | none =>
    rw [Option.map_none, Option.map_eq_none_iff] at same
    rw [same]
    exact .absent
  | some s =>
    obtain ⟨s', rfl, links⟩ := Option.map_eq_some_iff.mp same
    exact .moved rfl (Move.refl id s act) links

theorem of_relinks (links : Relinks before after) :
    StreamSteps act before after := fun id => of_links (links.streams id)

theorem of_streams (same : after.streams = before.streams) :
    StreamSteps act before after := by
  intro id
  have found : after.stream id = before.stream id := by
    unfold Conn.stream
    rw [same]
  rw [found]
  exact of_links rfl

theorem between {middle : Conn} (first : Relinks before middle) (found : middle.stream id = some s)
    (move : Move id s act s') (last : ∀ other, (after.stream other).map Stream.unlinked =
      ((middle.setStream id s').stream other).map Stream.unlinked) :
    StreamSteps act before after := by
  intro other
  have links := last other
  have old := first.streams other
  rw [Conn.stream_setStream] at links
  split at links
  · rename_i same
    subst same
    rw [found, Option.map_some] at old
    obtain ⟨start, was, unlinked⟩ := Option.map_eq_some_iff.mp old.symm
    obtain ⟨final, is, relinked⟩ := Option.map_eq_some_iff.mp links
    rw [was, is]
    exact .moved unlinked.symm move relinked
  · exact of_links (links.trans old)

theorem setStream (found : conn.stream id = some s) (move : Move id s act s') :
    StreamSteps act conn (conn.setStream id s') :=
  between (Relinks.refl conn) found move fun _ => rfl

theorem then_relinks (found : conn.stream id = some s) (move : Move id s act s')
    (links : Relinks (conn.setStream id s') after) : StreamSteps act conn after :=
  between (Relinks.refl conn) found move links.streams

/-- A stream the peer opens arrives, if there is memory for it. -/
theorem recvStreamFrame (env : Env) (conn : Conn) (f : FrameStream) :
    StreamSteps (.taken env f) conn (recvStreamFrame env conn f).2 := by
  unfold Nxp.recvStreamFrame
  split
  · rename_i s found
    exact setStream found (.received env rfl)
  · rename_i absent
    split
    · exact of_relinks (Relinks.refl conn)
    · rename_i remote
      split
      · exact of_relinks (Relinks.refl conn)
      · rename_i memory
        unfold openRemoteStream storeStream
        simp only
        generalize fresh : streamCreate f.streamId .reliable conn.initialMaxStreamData
          conn.initialMaxStreamData = s
        intro other
        rw [Conn.stream_modifyStream, Conn.stream_told, Conn.stream_told]
        split
        · rename_i same
          subst same
          rw [absent]
          split
          · rename_i room
            show StreamStep _ _ _ none (((conn.setStream f.streamId s).stream f.streamId).map _)
            rw [Conn.stream_setStream, if_pos rfl, Option.map_some, ← fresh]
            exact .created _ ⟨rfl, absent, by simpa using remote, by simpa using memory, room, rfl⟩
          · show StreamStep _ _ _ none ((conn.stream f.streamId).map _)
            rw [absent]
            exact .absent
        · rename_i differs
          split
          · show StreamStep _ _ _ _ ((conn.setStream f.streamId s).stream other)
            rw [Conn.stream_setStream, if_neg differs]
            exact of_links rfl
          · exact of_links rfl

/-- A stream this side opens is put in its place, if there is memory for it. -/
theorem connOpenStream (env : Env) (conn : Conn) (type : StreamType) (unidirectional : Bool) :
    StreamSteps (.opened env type unidirectional) conn
      (connOpenStream env conn type unidirectional).2 := by
  have counted (conn : Conn) (other : UInt64) :
      (countOpened conn unidirectional).stream other = conn.stream other := by
    unfold countOpened
    split <;> rfl
  unfold Nxp.connOpenStream
  split
  · exact of_relinks (Relinks.refl conn)
  · rename_i remains
    simp only
    split
    · exact of_relinks (Relinks.refl conn)
    · rename_i memory
      intro other
      rw [counted]
      unfold storeStream
      split
      · rename_i room
        rw [Conn.stream_setStream]
        split
        · rename_i same
          rw [← same] at memory room ⊢
          exact .created _ ⟨same, by simpa using remains, by simpa using memory, room, rfl⟩
        · exact of_links rfl
      · exact of_links rfl

/-- A frame that is put charges its stream, whatever becomes of the links. -/
theorem putStream (b : SendBuild) (id : UInt64) (s : Stream) (f : FrameStream) (bytes : Bytes)
    (other : UInt64) : ((b.putStream id s f bytes).conn.stream other).map Stream.unlinked =
      ((b.conn.setStream id (chargeStream s f.length)).stream other).map Stream.unlinked := by
  unfold SendBuild.putStream
  simp only
  split
  · exact (schedAdd_relinks _ _).streams other
  · rfl

theorem turned {space : Nat} {b b' : SendBuild} (turned : Turned space b b') :
    StreamSteps (.turned space b b') b.conn b'.conn := by
  cases turned with
  | relinked next => exact of_relinks (schedNext_links next)
  | kept next found only =>
    exact between (schedNext_links next) found (.retimed (by rw [only])) fun _ => rfl
  | sent next found able only budget limited filled encoded =>
    exact between (schedNext_links next) found (.sent only filled) (putStream _ _ _ _ _)

end StreamSteps

/-- Every stream takes a step in an act. -/
theorem Act.streams {act : Act} (done : act.does before after) :
    StreamSteps act before after := by
  cases act with
  | aside => exact StreamSteps.of_streams (congrArg Carriage.streams done)
  | granted maxData =>
    cases done
    exact StreamSteps.of_streams rfl
  | advertised =>
    cases done.2
    exact StreamSteps.of_streams rfl
  | taken env f =>
    cases done
    exact StreamSteps.recvStreamFrame env before f
  | raised streamId maxStreamData =>
    cases done
    unfold recvMaxStreamData
    split
    · exact StreamSteps.of_streams rfl
    · rename_i s found
      simp only
      split
      · exact StreamSteps.then_relinks found (.raised _) (schedAdd_relinks _ _)
      · exact StreamSteps.setStream found (.raised _)
  | acked rec =>
    cases done
    unfold ackRecord
    split
    · exact StreamSteps.of_streams rfl
    · rename_i s found
      simp only
      split
      · exact StreamSteps.between (Relinks.refl before) found (.acked rfl false) fun _ => rfl
      · exact StreamSteps.setStream found (.acked rfl _)
  | lost rec =>
    cases done
    unfold lossRecord
    split
    · exact StreamSteps.of_streams rfl
    · rename_i s found
      exact StreamSteps.then_relinks found (.lost rfl) (schedAdd_relinks _ _)
  | turned space b b' =>
    obtain ⟨rfl, rfl, turned⟩ := done
    exact StreamSteps.turned turned
  | asked =>
    cases done
    exact StreamSteps.of_relinks (schedNext_relinks before)
  | opened env type unidirectional =>
    cases done
    exact StreamSteps.connOpenStream env before type unidirectional
  | written streamId data fin =>
    cases done
    unfold connStreamSend
    split
    · exact StreamSteps.of_streams rfl
    · split
      · exact StreamSteps.of_streams rfl
      · rename_i s found
        have move : Move streamId s _ _ := .written data fin
        split
        · rename_i result
          rw [result] at move
          exact StreamSteps.setStream found move
        · rename_i result
          rw [result] at move
          simp only
          split
          · exact StreamSteps.then_relinks found move (schedAdd_relinks _ _)
          · exact StreamSteps.setStream found move
  | read streamId bufLen =>
    cases done
    unfold connStreamRecv
    split
    · exact StreamSteps.of_streams rfl
    · rename_i s found
      exact StreamSteps.setStream found (.read bufLen)
  | retuned streamId s s' =>
    obtain ⟨found, rfl, only⟩ := done
    exact StreamSteps.setStream found (.retimed (by rw [only]))

/-- Data from the peer leaves all but the streams, their count and the trace alone. -/
theorem recvStreamFrame_only (env : Env) (conn : Conn) (f : FrameStream) :
    (recvStreamFrame env conn f).2 = { conn with
      streams := (recvStreamFrame env conn f).2.streams
      stats := { conn.stats with streamsOpened := (recvStreamFrame env conn f).2.stats.streamsOpened }
      trace := (recvStreamFrame env conn f).2.trace } := by
  have opened : (openRemoteStream env conn f.streamId).2 = { conn with
      streams := (openRemoteStream env conn f.streamId).2.streams
      stats := { conn.stats with
        streamsOpened := (openRemoteStream env conn f.streamId).2.stats.streamsOpened }
      trace := (openRemoteStream env conn f.streamId).2.trace } := by
    unfold openRemoteStream storeStream
    simp only
    repeat' split
    all_goals rfl
  unfold recvStreamFrame
  split
  · rfl
  · split
    · rfl
    · split
      · rfl
      · simp only
        unfold Conn.modifyStream
        split
        · exact opened
        · rw [opened]
          rfl

/-- Whose side a connection is on, the limits it was created with, and the streams it counts. -/
structure Charter where
  isServer : Bool
  initialMaxStreamData : UInt64
  localMaxStreamsBidi : UInt32
  localMaxStreamsUni : UInt32
  nextBidiId : UInt64
  nextUniId : UInt64
  openBidiCount : UInt32
  openUniCount : UInt32

/-- What a connection is bound to. -/
def Conn.charter (conn : Conn) : Charter :=
  ⟨conn.isServer, conn.initialMaxStreamData, conn.localMaxStreamsBidi, conn.localMaxStreamsUni,
    conn.nextBidiId, conn.nextUniId, conn.openBidiCount, conn.openUniCount⟩

/-- What an act does to the charter of a connection: only a stream that is opened is counted. -/
theorem Act.charter {act : Act} (done : act.does before after) :
    after.charter = before.charter ∨
      ∃ env type unidirectional, act = .opened env type unidirectional ∧
        streamsLeft before unidirectional = true ∧
        after.charter = (countOpened before unidirectional).charter := by
  have streams {before after : Conn} (only : StreamsOnly before after) :
      after.charter = before.charter := by rw [only]; rfl
  cases act with
  | aside =>
    have same (field : Carriage → Charter) :
        field after.carriage = field before.carriage := congrArg field done
    exact .inl (same fun c =>
      ⟨c.isServer, c.initialMaxStreamData, c.localMaxStreamsBidi, c.localMaxStreamsUni,
        c.nextBidiId, c.nextUniId, c.openBidiCount, c.openUniCount⟩)
  | granted maxData =>
    cases done
    exact .inl rfl
  | advertised =>
    obtain ⟨-, rfl⟩ := done
    exact .inl rfl
  | taken env f =>
    cases done
    left
    rw [recvStreamFrame_only]
    rfl
  | raised streamId maxStreamData =>
    cases done
    exact .inl (streams (recvMaxStreamData_only before streamId maxStreamData))
  | acked rec =>
    cases done
    exact .inl (congrArg Conn.charter (Transfers.ackRecord before rec).only :)
  | lost rec =>
    cases done
    exact .inl (streams (lossRecord_only before rec))
  | turned space b b' =>
    obtain ⟨rfl, rfl, turned⟩ := done
    left
    rw [turned.only]
    rfl
  | asked =>
    cases done
    exact .inl (streams (schedNext_relinks before).only)
  | opened env type unidirectional =>
    cases done
    have counted (conn : Conn) (streams : StreamMap) :
        (countOpened { conn with streams := streams } unidirectional).charter =
          (countOpened conn unidirectional).charter := by
      unfold countOpened
      split <;> rfl
    unfold connOpenStream
    split
    · exact .inl rfl
    · rename_i more
      simp only
      split
      · exact .inl rfl
      · refine .inr ⟨env, type, unidirectional, rfl, by simpa using more, ?_⟩
        unfold storeStream
        split
        · exact counted before _
        · rfl
  | written streamId data fin =>
    cases done
    exact .inl (streams (connStreamSend_only before streamId data fin))
  | read streamId bufLen =>
    cases done
    left
    unfold connStreamRecv
    split <;> rfl
  | retuned streamId s s' =>
    obtain ⟨-, rfl, -⟩ := done
    exact .inl rfl

theorem countOpened_fixed (conn : Conn) (unidirectional : Bool) :
    (countOpened conn unidirectional).isServer = conn.isServer ∧
      (countOpened conn unidirectional).initialMaxStreamData = conn.initialMaxStreamData ∧
      (countOpened conn unidirectional).localMaxStreamsBidi = conn.localMaxStreamsBidi ∧
      (countOpened conn unidirectional).localMaxStreamsUni = conn.localMaxStreamsUni := by
  unfold countOpened
  split <;> exact ⟨rfl, rfl, rfl, rfl⟩

/-- No act changes the side or the limits a connection was created with. -/
theorem Act.fixed {act : Act} (done : act.does before after) :
    after.isServer = before.isServer ∧ after.initialMaxStreamData = before.initialMaxStreamData ∧
      after.localMaxStreamsBidi = before.localMaxStreamsBidi ∧
      after.localMaxStreamsUni = before.localMaxStreamsUni := by
  rcases Act.charter done with same | ⟨_, _, unidirectional, -, -, counted⟩
  · exact ⟨congrArg Charter.isServer same, congrArg Charter.initialMaxStreamData same,
      congrArg Charter.localMaxStreamsBidi same, congrArg Charter.localMaxStreamsUni same⟩
  · obtain ⟨server, limit, bidi, uni⟩ := countOpened_fixed before unidirectional
    exact ⟨(congrArg Charter.isServer counted :).trans server,
      (congrArg Charter.initialMaxStreamData counted :).trans limit,
      (congrArg Charter.localMaxStreamsBidi counted :).trans bidi,
      (congrArg Charter.localMaxStreamsUni counted :).trans uni⟩

/-- Something holds of every stream of a connection. -/
def Conn.Each (holds : UInt64 → Stream → Prop) (conn : Conn) : Prop :=
  ∀ id s, conn.stream id = some s → holds id s

/-- What holds of new streams, does not depend on links and survives every move holds of every
stream after an act if it did before. -/
theorem Conn.Each.act {holds : UInt64 → Stream → Prop} {act : Act}
    (linked : ∀ {id s t}, t.unlinked = s.unlinked → holds id s → holds id t)
    (fresh : ∀ id type limit, holds id (streamCreate id type limit limit))
    (moved : ∀ {id s act s'}, Move id s act s' → holds id s → holds id s')
    (done : act.does before after) (each : before.Each holds) : after.Each holds := by
  intro id s' found
  have step := Act.streams done id
  rw [found] at step
  generalize old : before.stream id = was at step
  cases step with
  | moved first move last =>
    exact linked last (moved move (linked first (each id _ old)))
  | created _ made =>
    cases act with
    | taken env f =>
      obtain ⟨named, -, -, -, -, rfl⟩ := made
      exact moved (.received env named.symm) (fresh id .reliable _)
    | opened env type unidirectional =>
      obtain ⟨-, -, -, -, rfl⟩ := made
      exact fresh id type _
    | _ => exact made.elim

end Nxp
