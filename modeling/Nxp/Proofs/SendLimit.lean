import Nxp.Core.CreditLaws
import Nxp.Core.Loading
import Nxp.Core.StreamIds

/-! A sender keeps to the limits its peer has set, and those limits only go up. -/

namespace Nxp

variable {evp : Evp} {conn next : Conn} {id limit nowUs : UInt64} {f : FrameStream}

/-- Neither the connection's limit nor that of a stream goes down. -/
structure LimitsGrow (before after : Conn) : Prop where
  whole : before.connFlow.peerMaxData ≤ after.connFlow.peerMaxData
  streams : ∀ id s, before.stream id = some s →
    ∃ s', after.stream id = some s' ∧ s.flow.peerMaxData ≤ s'.flow.peerMaxData

namespace LimitsGrow

theorem refl (conn : Conn) : LimitsGrow conn conn :=
  ⟨UInt64.le_refl _, fun _ s found => ⟨s, found, UInt64.le_refl _⟩⟩

theorem trans {first second third : Conn} (left : LimitsGrow first second)
    (right : LimitsGrow second third) : LimitsGrow first third := by
  refine ⟨UInt64.le_trans left.whole right.whole, fun id s found => ?_⟩
  obtain ⟨s', found', le⟩ := left.streams id s found
  obtain ⟨s'', found'', le'⟩ := right.streams id s' found'
  exact ⟨s'', found'', UInt64.le_trans le le'⟩

end LimitsGrow

theorem FlowStep.peerMaxData_le {fc fc' : FlowCtrl} (step : FlowStep fc fc') :
    fc.peerMaxData ≤ fc'.peerMaxData := by
  cases step with
  | kept => exact UInt64.le_refl _
  | granted maxData => exact (flowSetPeerMax_le fc maxData).2
  | advertised waiting => exact UInt64.le_refl _
  | charged length within => exact UInt64.le_refl _

/-- No act lowers a limit of the peer. -/
theorem Act.limits {act : Act} {before after : Conn} (numbered : before.Numbered)
    (done : act.does before after) : LimitsGrow before after := by
  refine ⟨(Act.flow done).peerMaxData_le, fun id s found => ?_⟩
  obtain ⟨linked, moved, s', links, move, relinks, next⟩ := numbered.moved done found
  have first : linked.flow = s.flow := (congrArg Stream.flow links :)
  have last : s'.flow = moved.flow := (congrArg Stream.flow relinks :)
  refine ⟨s', next, ?_⟩
  rw [last, ← first]
  exact move.peerMaxData_le

/-- Nor does a call. -/
theorem connStep_limits {input : Env × ConnOp}
    (numbered : conn.Numbered) (stepped : connStep evp conn input = some next) :
    next.Numbered ∧ LimitsGrow conn next := by
  have acts := connStep_acts (Terms.free_met evp conn input) stepped
  -- Both are carried along, because each act needs the streams to be numbered before it.
  have kept (before after : Conn) (act : Act) (_ : Terms.free.permit before act)
      (done : act.does before after) (held : before.Numbered ∧ LimitsGrow conn before) :
      after.Numbered ∧ LimitsGrow conn after :=
    ⟨held.1.kept done, held.2.trans (Act.limits held.1 done)⟩
  exact acts.preserve kept ⟨numbered, LimitsGrow.refl conn⟩

/-- The streams of two connections have the same limits. -/
def SameLimits (before after : Conn) : Prop :=
  ∀ id, (after.stream id).map (·.flow.peerMaxData) = (before.stream id).map (·.flow.peerMaxData)

theorem Turned.limits {space : Nat} {b b' : SendBuild} (turned : Turned space b b') :
    SameLimits b.conn b'.conn := by
  intro id
  have done : (Act.turned space b b').does b.conn b'.conn := ⟨rfl, rfl, turned⟩
  have step := Act.streams done id
  generalize b.conn.stream id = old at step ⊢
  generalize b'.conn.stream id = new at step ⊢
  cases step with
  | absent => rfl
  | created _ made => exact made.elim
  | @moved s linked moved s' links move relinks =>
    have first : linked.flow = s.flow := (congrArg Stream.flow links :)
    have last : s'.flow = moved.flow := (congrArg Stream.flow relinks :)
    rw [Option.map_some, Option.map_some, last, ← first]
    cases move with
    | retimed only => rw [only]
    | @sent _ _ _ limit refreshed filledStream f only filled =>
      have sent : filledStream.flow = refreshed.flow := by rw [streamFillFrame_only filled]
      have same : refreshed.flow = linked.flow := by rw [only]
      show some filledStream.flow.peerMaxData = some linked.flow.peerMaxData
      rw [sent, same]

/-- A stretch of a stream that ends within the limit the peer has set the stream. -/
def FrameStream.WithinLimit (conn : Conn) (f : FrameStream) : Prop :=
  ∃ s, conn.stream f.streamId = some s ∧
    f.offset.toNat + f.length.toNat ≤ s.flow.peerMaxData.toNat

theorem Stream.Sound.fills {s refreshed s' : Stream}
    (sound : s.Sound id) (only : refreshed = { s with rateLimit := refreshed.rateLimit })
    (filled : streamFillFrame refreshed limit = (some f, s')) :
    f.streamId = id ∧ f.offset.toNat + f.length.toNat ≤ s.flow.peerMaxData.toNat := by
  have ready : refreshed.Sound id := by
    rw [only]
    exact ⟨sound.named, sound.sent, sound.written⟩
  have flow : refreshed.flow = s.flow := (congrArg Stream.flow only :)
  obtain ⟨-, named, offset, -, -, -⟩ := streamFillFrame_frontier filled
  have within := (streamFillFrame_within filled ready.sent).2
  have written := ready.written
  refine ⟨named.trans ready.named, ?_⟩
  rw [offset, ← flow]
  exact Nat.le_trans within written

theorem turn_within {before middle : Conn} {s refreshed s' : Stream}
    (sound : before.Each Stream.Sound) (same : SameLimits conn before)
    (links : Relinks before middle) (found : middle.stream id = some s)
    (only : refreshed = { s with rateLimit := refreshed.rateLimit })
    (filled : streamFillFrame refreshed limit = (some f, s')) : f.WithinLimit conn := by
  have linked := links.streams id
  rw [found, Option.map_some] at linked
  obtain ⟨old, was, unlinked⟩ := Option.map_eq_some_iff.mp linked.symm
  have flow : s.flow = old.flow := (congrArg Stream.flow unlinked :).symm
  obtain ⟨named, within⟩ := ((sound id old was).linked unlinked.symm).fills only filled
  -- The limit is the one the stream had when the packet was begun.
  have limits := same id
  rw [was, Option.map_some] at limits
  obtain ⟨start, first, equal⟩ := Option.map_eq_some_iff.mp limits.symm
  refine ⟨start, by rw [named]; exact first, ?_⟩
  rw [equal, ← flow]
  exact within

/-- The stretches that are built for a packet end within the limits of their streams. -/
theorem buildFrames_within {turns space : Nat} {b : SendBuild}
    (sound : conn.Each Stream.Sound) (built : buildFrames turns conn space nowUs = some b) :
    ∃ control streams, Laid space b control streams ∧ ∀ f ∈ streams, f.WithinLimit conn := by
  obtain ⟨control, laid, -⟩ := putControl_laid conn space nowUs
  have controls := Controls.controls conn space nowUs
  have built := buildFrames_invariant
    (fun b => b.conn.Each Stream.Sound ∧ SameLimits conn b.conn ∧
      ∃ streams, Laid space b control streams ∧ ∀ f ∈ streams, f.WithinLimit conn)
    ⟨?_, ?_, [], laid, nofun⟩ ?_ built
  · obtain ⟨-, -, streams, laid, within⟩ := built
    exact ⟨control, streams, laid, within⟩
  · intro id s found
    exact sound id s (by rwa [Conn.stream, controls.streams] at found)
  · intro id
    rw [Conn.stream, controls.streams]
    rfl
  · rintro b b' more ⟨sound, same, streams, laid, within⟩ turned
    refine ⟨?_, fun id => (turned.limits id).trans (same id), ?_⟩
    · have done : (Act.turned space b b').does b.conn b'.conn := ⟨rfl, rfl, turned⟩
      exact Conn.Each.act Stream.Sound.linked Stream.Sound.fresh Stream.Sound.moved done sound
    · cases turned with
      | relinked next => exact ⟨streams, laid.moved _, within⟩
      | kept next => exact ⟨streams, laid.moved _, within⟩
      | @sent middle id limit s refreshed s' f bytes next found _ only _ _ filled encoded =>
        refine ⟨streams ++ [f], laid.put more encoded _ _ _, fun g member => ?_⟩
        rcases List.mem_append.mp member with old | new
        · exact within g old
        · rw [List.mem_singleton.mp new]
          exact turn_within sound same (schedNext_links next) found only filled

/-- The stretches of a datagram end within the limits of their streams. -/
theorem connSend_within {env : Env} {maxLen : Nat} {bytes : Bytes} (sound : conn.Each Stream.Sound)
    (called : connSend evp env conn maxLen nowUs = some (.datagram bytes, next)) :
    ∃ control streams, conn.Loads env maxLen nowUs control streams ∧
      ∀ f ∈ streams, f.WithinLimit conn := by
  cases connSend_dispatched called with
  | @handshake control _ _ loads => exact ⟨control, [], loads, nofun⟩
  | built waiting built =>
    -- Setting the pacer leaves the streams alone.
    have paced : (conn.paced nowUs).Each Stream.Sound := sound
    obtain ⟨control, streams, laid, within⟩ := buildFrames_within paced built
    exact ⟨control, streams, laid.loads waiting built, within⟩

/-- A configuration that grants two octets, for all streams together and for each. -/
def twoOctetsConfig : ConnConfig := ⟨ConnId.empty, Addr.zero, 0, 2, 2, 8, 8⟩

/-- A client with such limits that was to write three octets. -/
def twoOctetsClient : Conn :=
  (Machine.attempt (connStep plainEvp) (connCreate twoOctetsConfig false true) threeWritten).getD
    (connCreate twoOctetsConfig false true)

end Nxp
