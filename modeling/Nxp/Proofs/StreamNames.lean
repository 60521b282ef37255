import Nxp.Core.StreamIds
import Nxp.Core.CreditLaws

/-! No two streams of a connection have one name, whoever opens them. -/

namespace Nxp

variable {evp : Evp} {input : Env × ConnOp}

/-- Every stream is stored under its own name. The name of the next stream of this side is its own
and free, and a frame leaves the streams that are there in place and makes only streams of the
peer. -/
structure Conn.Distinct (conn : Conn) : Prop where
  own : ∀ id s, conn.stream id = some s → s.id = id
  opened : ∀ type unidirectional,
    conn.stream (nextStreamId conn type unidirectional) = none ∧
      streamIdIsLocal (nextStreamId conn type unidirectional) conn.isServer = true
  known : ∀ env f s, conn.stream f.streamId = some s →
    (recvStreamFrame env conn f).2 = conn.setStream f.streamId (streamOnRecv s f).2
  created : ∀ env f id, id ∉ conn.ids → id ∈ (recvStreamFrame env conn f).2.ids →
    id = f.streamId ∧ streamIdIsLocal id conn.isServer = false

/-- A connection with the names of the streams that were opened on this side. -/
structure OpenTrace where
  conn : Conn
  opened : List UInt64

/-- The name that an operation hands out. -/
def openedBy (conn : Conn) : Env × ConnOp → List UInt64
  | (env, .openStream type unidirectional) =>
    match (connOpenStream env conn type unidirectional).1 with
    | .ok id => [id]
    | .error _ => []
  | _ => []

/-- Let an operation happen and note the name it hands out. -/
def openStep (evp : Evp) (t : OpenTrace) (input : Env × ConnOp) : Option OpenTrace :=
  (connStep evp t.conn input).map fun next => ⟨next, t.opened ++ openedBy t.conn input⟩

/-- The names handed out are used up, and no two of them are the same. -/
structure OpenTrace.Apart (t : OpenTrace) : Prop where
  sound : t.conn.Sound
  numbered : t.conn.Numbered
  given : ∀ id ∈ t.opened, t.conn.Given id
  nodup : t.opened.Nodup

theorem Conn.Numbered.distinct {conn : Conn} (numbered : conn.Numbered)
    (sound : conn.Sound) : conn.Distinct where
  own id s found := (sound.streams id s found).named
  opened type unidirectional :=
    ⟨Conn.not_mem_ids.mp (numbered.fresh type unidirectional), makeStreamId_local ..⟩
  known env f s found := congrArg Prod.snd (recvStreamFrame_known found)
  created env f id absent made := by
    -- The only stream a frame can make is the one it names.
    obtain ⟨_, named, -, remote, -⟩ :=
      Act.created (show (Act.taken env f).does conn _ from rfl) made absent
    exact ⟨named, remote⟩

theorem openedBy_given {conn next : Conn}
    (numbered : conn.Numbered) (stepped : connStep evp conn input = some next) :
    (openedBy conn input).Nodup ∧ ∀ id ∈ openedBy conn input, next.Given id ∧ ¬ conn.Given id := by
  obtain ⟨env, op⟩ := input
  cases op with
  | openStream type unidirectional =>
    cases stepped
    by_cases able : streamsLeft conn unidirectional = true ∧
        env.allocStream (nextStreamId conn type unidirectional) = true
    · have named : openedBy conn (env, .openStream type unidirectional) =
          [nextStreamId conn type unidirectional] := by
        simp [openedBy, connOpenStream, able]
      rw [named]
      refine ⟨List.nodup_singleton _, fun id member => ?_⟩
      rw [List.mem_singleton.mp member]
      exact ⟨connOpenStream_given numbered able.1 able.2, numbered.unused type unidirectional⟩
    · have none : openedBy conn (env, .openStream type unidirectional) = [] := by
        unfold openedBy connOpenStream
        by_cases more : streamsLeft conn unidirectional = true
        · have dry := Bool.eq_false_iff.mpr fun memory => able ⟨more, memory⟩
          simp [more, dry]
        · simp [more]
      rw [none]
      exact ⟨List.nodup_nil, fun _ member => nomatch member⟩
  | _ => exact ⟨List.nodup_nil, fun _ member => nomatch member⟩

/-- Every call keeps the identifiers opened apart. -/
theorem openStep_apart {t next : OpenTrace}
    (apart : t.Apart) (stepped : openStep evp t input = some next) : next.Apart := by
  obtain ⟨conn, moved, rfl⟩ := Option.map_eq_some_iff.mp stepped
  have acts := connStep_acts (Terms.free_met evp _ _) moved
  obtain ⟨sound, numbered, given⟩ := @Acts.preserve _
    (fun conn => conn.Sound ∧ conn.Numbered ∧ ∀ id ∈ t.opened, conn.Given id) _ _ acts
    (fun _ _ _ _ done kept => ⟨kept.1.act done, kept.2.1.kept done, fun id member =>
      kept.2.1.given_kept done (kept.2.2 id member)⟩)
    ⟨apart.sound, apart.numbered, apart.given⟩
  obtain ⟨once, new⟩ := openedBy_given apart.numbered moved
  refine ⟨sound, numbered, ?_, ?_⟩
  · intro id member
    rcases List.mem_append.mp member with old | here
    · exact given id old
    · exact (new id here).1
  · refine List.nodup_append.mpr ⟨apart.nodup, once, ?_⟩
    rintro id old _ here rfl
    exact (new id here).2 (apart.given id old)

/-- In every state of a run, also between the frames of a datagram, streams have their own names,
those opened here are free and local and those that a frame makes are the peer's, and no name is
handed out twice. -/
theorem stream_names_unique {evp : Evp} {config : ConnConfig} {isServer allocCc : Bool}
    {inputs : List (Env × ConnOp)} {t : OpenTrace}
    (reached : Machine.attempt (openStep evp) ⟨connCreate config isServer allocCc, []⟩ inputs =
      some t) :
    (∀ between, Acts Terms.free t.conn between → between.Distinct) ∧ t.opened.Nodup ∧
      ∀ id ∈ t.opened, streamIdIsLocal id t.conn.isServer = true := by
  have apart : t.Apart := Machine.attempt_preserves OpenTrace.Apart
    (fun _ _ _ apart stepped => openStep_apart apart stepped)
    ⟨connCreate_sound .., connCreate_numbered .., by simp, List.nodup_nil⟩ reached
  refine ⟨fun between acts => ?_, apart.nodup, fun id member => ?_⟩
  · obtain ⟨sound, numbered⟩ := acts.preserve
      (fun _ _ _ _ done kept => And.intro (kept.1.act done) (kept.2.kept done))
      (And.intro apart.sound apart.numbered)
    exact numbered.distinct sound
  · obtain ⟨seq, type, unidirectional, rfl, -⟩ := apart.given id member
    exact makeStreamId_local ..

/-- A client that opens a stream of each kind. -/
theorem stream_names_unique_two :
    ∃ t, Machine.attempt (openStep plainEvp) ⟨connCreate plainConfig false true, []⟩
        [(plainEnv, .setEstablished ConnId.empty), (plainEnv, .openStream .reliable false),
          (plainEnv, .openStream .reliable true)] = some t ∧
      t.opened = [0, 2] ∧ t.conn.Distinct := by
  obtain ⟨t, reached, names⟩ : ∃ t, Machine.attempt (openStep plainEvp)
      ⟨connCreate plainConfig false true, []⟩
      [(plainEnv, .setEstablished ConnId.empty), (plainEnv, .openStream .reliable false),
        (plainEnv, .openStream .reliable true)] = some t ∧ t.opened = [0, 2] := by
    decide +kernel
  exact ⟨t, reached, names,
    (stream_names_unique reached).1 t.conn Relation.ReflTransGen.refl⟩

end Nxp
