import Nxp.Core.BuildLaws
import Nxp.Core.CreditLaws
import Nxp.Core.Lifecycle

/-! When a call to send that hands back no datagram keeps what waits to be sent. -/

namespace Nxp

variable {frame : Frame} {f : FrameStream} {nowUs : UInt64}

/-- What of the handshake is still to be sent. -/
def Handshake.waiting (hs : Handshake) : Nat × Bool := (hs.sendOffset, hs.sendHandshakeDone)

/-- How far a stream has been sent, and under which credit. -/
def Stream.progress (s : Stream) : UInt64 × Bool × FlowCtrl :=
  (s.send.sentOffset, s.send.finSent, s.flow)

/-- All that waits to be sent, and all credit. -/
structure Pending where
  handshake : Option (Nat × Bool)
  ackNeeded : Bool
  sendConnClose : Bool
  sendPing : Bool
  migration : MigrationState
  heartbeat : Heartbeat
  connFlow : FlowCtrl
  streams : UInt64 → Option (UInt64 × Bool × FlowCtrl)

/-- What waits on a connection. -/
def Conn.due (conn : Conn) : Pending :=
  ⟨conn.handshake.map Handshake.waiting, conn.ack.ackNeeded, conn.sendConnClose, conn.sendPing,
    conn.migration, conn.heartbeat, conn.connFlow, fun id => (conn.stream id).map Stream.progress⟩

/-- All that waits to be sent is the same, and so is all credit. -/
def SamePending (before after : Conn) : Prop := after.due = before.due

namespace SamePending

variable {before after conn : Conn} {id : UInt64} {s s' : Stream}

theorem trans {third : Conn} (left : SamePending before after)
    (right : SamePending after third) : SamePending before third :=
  Eq.trans right left

/-- Every stream is as far as it was. -/
theorem stream (same : SamePending before after) (id : UInt64) :
    (after.stream id).map Stream.progress = (before.stream id).map Stream.progress :=
  congrFun (congrArg Pending.streams same) id

/-- Where only streams changed, nothing else waits or has ceased to. -/
theorem of_streamsOnly (only : StreamsOnly before after)
    (streams : ∀ id, (after.stream id).map Stream.progress =
      (before.stream id).map Stream.progress) : SamePending before after := by
  unfold SamePending Conn.due
  rw [funext streams, only]

/-- Links do not matter to what waits. -/
theorem of_relinks (links : Relinks before after) : SamePending before after := by
  apply of_streamsOnly links.only
  intro id
  have same := congrArg (Option.map Stream.progress) (links.streams id)
  simp only [Option.map_map] at same
  exact same

/-- A stream that is as far as it was may change in any other way. -/
theorem setStream (found : conn.stream id = some s) (same : s'.progress = s.progress) :
    SamePending conn (conn.setStream id s') := by
  apply of_streamsOnly (StreamsOnly.setStream conn id s')
  intro other
  rw [Conn.stream_setStream]
  split
  · rename_i this
    rw [this, found, Option.map_some, Option.map_some, same]
  · rfl

end SamePending

/-- A stream frame that has data or ends its stream. -/
def StreamFrameRecord.Moves (rec : StreamFrameRecord) : Prop := rec.len ≠ 0 ∨ rec.fin = true

instance (rec : StreamFrameRecord) : Decidable rec.Moves := inferInstanceAs (Decidable (_ ∨ _))

/-- How many requests for control frames wait. -/
def Pending.flags (p : Pending) : Nat :=
  p.ackNeeded.toNat + p.sendConnClose.toNat + p.sendPing.toNat + p.connFlow.sendMaxData.toNat +
    p.migration.sendPathResponse.toNat + p.migration.sendPathChallenge.toNat +
    p.migration.pendingNewCids.length + p.migration.sendRetireCid.toNat +
    p.heartbeat.sendEcho.toNat + p.heartbeat.sendHeartbeat.toNat

theorem Clears.flags_lt {conn next : Conn} (clears : Clears conn frame next) :
    next.due.flags < conn.due.flags := by
  cases clears with
  | close due =>
    unfold setConnState
    split <;> simp [Pending.flags, Conn.due, due]
  | maxData due =>
    unfold flowShouldUpdate at due
    simp [Pending.flags, Conn.due, flowGetUpdate, due]
  | newCid due =>
    have waiting := List.length_pos_of_mem (List.mem_of_getLast? due)
    simp only [Pending.flags, Conn.due, SendBuild.dropNewCid, List.length_dropLast]
    omega
  | ack due => simp [Pending.flags, Conn.due, due]
  | ping due => simp [Pending.flags, Conn.due, due]
  | pathResponse due => simp [Pending.flags, Conn.due, due]
  | pathChallenge due => simp [Pending.flags, Conn.due, due]
  | retireCid due => simp [Pending.flags, Conn.due, due]
  | echo due => simp [Pending.flags, Conn.due, due]
  | heartbeat due => simp [Pending.flags, Conn.due, due]

theorem Clears.octets_ne {conn next : Conn} (clears : Clears conn frame next) :
    frame.octets ≠ [] := by
  cases clears <;> simp [Frame.octets]

section Stages

variable {space : Nat} {b b' : SendBuild}

theorem Stage.flags_lt (staged : Stage space b b') : b'.conn.due.flags < b.conn.due.flags := by
  cases staged with
  | put eliciting clears encoded => exact clears.flags_lt
  | taken waiting =>
    unfold flowShouldUpdate at waiting
    simp [Pending.flags, Conn.due, SendBuild.takeMaxData, flowGetUpdate, waiting]

theorem Stages.answered (staged : Stages space b b') :
    b' = b ∨ b'.conn.due.flags < b.conn.due.flags := by
  induction staged with
  | refl => exact .inl rfl
  | tail _ last ih =>
    have less := last.flags_lt
    rcases ih with rfl | fewer
    · exact .inr less
    · exact .inr (Nat.lt_trans less fewer)

theorem Stages.filled (staged : Stages space b b') (quiet : b.conn.connFlow.sendMaxData = false) :
    b' = b ∨ b'.frames ≠ [] := by
  induction staged with
  | refl => exact .inl rfl
  | tail _ last ih =>
    cases last with
    | put eliciting clears encoded =>
      -- A frame that is put has octets.
      refine .inr fun none => clears.octets_ne ?_
      rw [← (frameEncode_iff.mp encoded).1]
      exact (List.append_eq_nil_iff.mp none).2
    | taken waiting =>
      rcases ih with rfl | filled
      · rw [flowShouldUpdate, quiet] at waiting
        cases waiting
      · exact .inr filled

end Stages

section Turns

variable {space : Nat} {b b' : SendBuild}

/-- One stream has sent more than before, or the end of it. -/
def Ahead (before after : Conn) : Prop :=
  ∃ id s s', before.stream id = some s ∧ after.stream id = some s' ∧
    (s.send.sentOffset.toNat < s'.send.sentOffset.toNat ∨
      (s.send.finSent = false ∧ s'.send.finSent = true))

/-- What was ahead of a connection with as much pending is ahead of the connection. -/
theorem Ahead.since {first second third : Conn} (ahead : Ahead second third)
    (same : SamePending first second) : Ahead first third := by
  obtain ⟨id, s, s', was, is, more⟩ := ahead
  have progress := same.stream id
  rw [was, Option.map_some] at progress
  obtain ⟨s0, before, equal⟩ := Option.map_eq_some_iff.mp progress.symm
  have offset : s0.send.sentOffset = s.send.sentOffset := congrArg Prod.fst equal
  have mark : s0.send.finSent = s.send.finSent := congrArg (fun p => p.2.1) equal
  exact ⟨id, s0, s', before, is, by rw [offset, mark]; exact more⟩

/-- What is ahead of a connection does not wait the same. -/
theorem Ahead.not_same {before after : Conn} (ahead : Ahead before after) :
    ¬ SamePending before after := by
  intro same
  -- Otherwise the connection would be ahead of itself.
  obtain ⟨id, s, s', was, is, more⟩ := ahead.since same.symm
  cases was.symm.trans is
  rcases more with more | ⟨unsent, sent⟩
  · exact Nat.lt_irrefl _ more
  · rw [unsent] at sent
    cases sent

theorem Turned.flags (turned : Turned space b b') : b'.conn.due.flags = b.conn.due.flags := by
  rw [turned.only]
  rfl

/-- No turn takes back what a stream has sent. -/
theorem Turned.forward (turned : Turned space b b') {id : UInt64} {s : Stream}
    (found : b.conn.stream id = some s) :
    ∃ s', b'.conn.stream id = some s' ∧ s.send.sentOffset.toNat ≤ s'.send.sentOffset.toNat ∧
      (s.send.finSent = true → s'.send.finSent = true) := by
  have act : (Act.turned space b b').does b.conn b'.conn := ⟨rfl, rfl, turned⟩
  have step := Act.streams act id
  rw [found] at step
  generalize b'.conn.stream id = now at step
  cases step with
  | @moved _ t t' s' first move last =>
    -- Links do not matter for what was sent.
    have before : t.send = s.send := (congrArg Stream.send first :)
    have after : s'.send = t'.send := (congrArg Stream.send last :)
    refine ⟨_, rfl, ?_⟩
    rw [after, ← before]
    cases move with
    | retimed only =>
      rw [only]
      exact ⟨Nat.le_refl _, fun sent => sent⟩
    | sent only filled =>
      obtain ⟨-, -, -, -, frontier, mark⟩ := streamFillFrame_frontier filled
      rw [only] at frontier mark
      refine ⟨Nat.le.intro frontier.symm, fun sent => mark.trans ?_⟩
      simp [sent]
  | created _ made => exact made.elim

theorem Ahead.turned {conn : Conn} (ahead : Ahead conn b.conn) (turned : Turned space b b') :
    Ahead conn b'.conn := by
  obtain ⟨id, s, s', was, is, more⟩ := ahead
  obtain ⟨s'', now, further, marked⟩ := turned.forward is
  refine ⟨id, s, s'', was, now, more.imp (fun less => Nat.lt_of_lt_of_le less further) ?_⟩
  exact fun ⟨unsent, sent⟩ => ⟨unsent, marked sent⟩

/-- A frame that says its stream ends is the first to say so. -/
theorem streamFillFrame_ends {s s' : Stream} {limit : UInt64}
    (filled : streamFillFrame s limit = (some f, s')) (ends : f.fin = true) :
    s.send.finSent = false := by
  have fin := (streamFillFrame_fills filled).fin
  rw [ends] at fin
  have pending := (Bool.and_eq_true_iff.mp fin.symm).1
  unfold streamFinPending at pending
  simp only [Bool.and_eq_true, Bool.not_eq_true'] at pending
  exact pending.2

/-- A frame without data that does not end its stream changes nothing that waits. -/
theorem SamePending.putStream {id : UInt64} {s s' : Stream}
    (found : b.conn.stream id = some s) (same : s'.progress = s.progress) (empty : f.length = 0)
    (bytes : Bytes) : SamePending b.conn (b.putStream id s' f bytes).conn := by
  have flow : flowOnSend b.conn.connFlow f.length = b.conn.connFlow := by
    rw [empty]
    simp [flowOnSend]
  have charged : (chargeStream s' f.length).progress = s.progress := by
    rw [← same, empty]
    simp [chargeStream, flowOnSend, Stream.progress]
  have stored : SamePending b.conn (b.conn.setStream id (chargeStream s' f.length)) :=
    SamePending.setStream found charged
  unfold SendBuild.putStream
  simp only [flow]
  split
  · exact stored.trans (SamePending.of_relinks (schedAdd_relinks _ _))
  · exact stored

/-- A turn leaves everything pending, but for a frame with data or the end of a stream. -/
theorem Turned.pending (turned : Turned space b b') (more : b.records.hasRoom = true)
    (sound : b.conn.Each Stream.Sound) :
    (b'.records.records = b.records.records ∧ SamePending b.conn b'.conn) ∨
      ∃ rec, b'.records.records = b.records.records ++ [rec] ∧
        (¬ rec.Moves ∧ SamePending b.conn b'.conn ∨ rec.Moves ∧ Ahead b.conn b'.conn) := by
  cases turned with
  | relinked next => exact .inl ⟨rfl, SamePending.of_relinks (schedNext_links next)⟩
  | kept next found only =>
    refine .inl ⟨rfl, (SamePending.of_relinks (schedNext_links next)).trans
      (SamePending.setStream found ?_)⟩
    rw [only]
    rfl
  | @sent conn turn limit s0 refreshed s1 f bytes next here able only budget limited filled =>
    refine .inr ⟨f.record, FrameRecords.push_hasRoom more _, ?_⟩
    have links := schedNext_links next
    -- The stream is the one the connection had, but for its links.
    have old := links.streams turn
    rw [here, Option.map_some] at old
    obtain ⟨s, was, linked⟩ := Option.map_eq_some_iff.mp old.symm
    have send : s0.send = s.send := (congrArg Stream.send linked :).symm
    have ready : refreshed.send = s.send := by rw [only, ← send]
    obtain ⟨-, -, -, -, frontier, mark⟩ := streamFillFrame_frontier filled
    have short := (streamFillFrame_leaves filled
      (by rw [ready]; exact (sound turn s was).sent)).1
    have size : f.record.len.toNat = f.length.toNat := by
      show f.length.toUInt32.toNat = f.length.toNat
      rw [UInt64.toNat_toUInt32]
      omega
    by_cases moves : f.record.Moves
    · refine .inr ⟨moves, ?_⟩
      have put := StreamSteps.putStream { b with conn := conn } turn s1 f bytes turn
      rw [Conn.stream_setStream, if_pos rfl] at put
      obtain ⟨final, is, relinked⟩ := Option.map_eq_some_iff.mp put
      have sent : final.send = s1.send := (congrArg Stream.send relinked :)
      refine ⟨turn, s, final, was, is, ?_⟩
      rw [sent, ← ready]
      rcases moves with data | ends
      · left
        rw [ne_eq, ← UInt32.toNat_inj, size] at data
        have positive := Nat.pos_of_ne_zero data
        omega
      · exact .inr ⟨streamFillFrame_ends filled ends, by
          rw [mark, show f.fin = true from ends, Bool.or_true]⟩
    · refine .inl ⟨moves, (SamePending.of_relinks links).trans ?_⟩
      simp only [StreamFrameRecord.Moves, not_or, not_not, Bool.not_eq_true] at moves
      have empty : f.length = 0 := by
        rw [← UInt64.toNat_inj, ← size, moves.1]
        rfl
      refine SamePending.putStream (b := { b with conn := conn }) here ?_ empty bytes
      -- The stream is sent no further, and its credit is the same.
      have offset : s1.send.sentOffset = s0.send.sentOffset := by
        rw [← UInt64.toNat_inj, frontier, empty, ready, send]
        rfl
      have fin : s1.send.finSent = s0.send.finSent := by
        rw [mark, ready, send, show f.fin = false from moves.2, Bool.or_false]
      have flow : s1.flow = s0.flow := by
        rw [streamFillFrame_only filled, only]
      simp only [Stream.progress, offset, fin, flow]

end Turns

/-- Building a packet takes nothing from what is pending exactly if it puts no control frame and no
stream frame that has data or ends its stream. -/
theorem buildFrames_same_iff {turns space : Nat} {conn : Conn}
    {b : SendBuild} (built : buildFrames turns conn space nowUs = some b) (sound : conn.Sound) :
    SamePending conn b.conn ↔ (conn.controls space nowUs).frames = [] ∧
      ∀ rec ∈ b.records.records, ¬ rec.Moves := by
  have staged : Stages space _ (conn.controls space nowUs) := Stages.putControl _ nowUs
  by_cases control : (conn.controls space nowUs).frames = []
  · -- Nothing was staged, so all frames are ones of streams.
    have same : conn.controls space nowUs = _ :=
      (staged.filled sound.flow.quiet).resolve_right (not_not_intro control)
    have loop := buildFrames_invariant
      (fun b => b.conn.Sound ∧
        ((∀ rec ∈ b.records.records, ¬ rec.Moves) ∧ SamePending conn b.conn ∨
          (∃ rec ∈ b.records.records, rec.Moves) ∧ Ahead conn b.conn)) ?_ ?_ built
    · constructor
      · intro still
        exact ⟨control, (loop.2.resolve_right fun ahead => ahead.2.not_same still).1⟩
      · rintro ⟨-, idle⟩
        exact (loop.2.resolve_right fun ⟨⟨rec, mem, moves⟩, _⟩ => idle rec mem moves).2
    · rw [same]
      exact ⟨sound, .inl ⟨List.forall_mem_nil _, rfl⟩⟩
    · rintro middle next more ⟨well, before⟩ turned
      have act : (Act.turned space middle next).does middle.conn next.conn := ⟨rfl, rfl, turned⟩
      refine ⟨well.act act, ?_⟩
      rcases before with ⟨idle, still⟩ | ⟨⟨rec, mem, moves⟩, ahead⟩
      · rcases turned.pending more well.streams with ⟨records, still'⟩ |
          ⟨rec, records, ⟨stays, still'⟩ | ⟨moves, ahead⟩⟩
        · exact .inl ⟨by rw [records]; exact idle, still.trans still'⟩
        · refine .inl ⟨?_, still.trans still'⟩
          rw [records, List.forall_mem_append]
          exact ⟨idle, List.forall_mem_singleton.mpr stays⟩
        · exact .inr ⟨⟨rec, by simp [records], moves⟩, ahead.since still⟩
      · refine .inr ⟨⟨rec, ?_, moves⟩, ahead.turned turned⟩
        rcases turned.pending more well.streams with ⟨records, -⟩ | ⟨_, records, -⟩ <;>
          simp [records, mem]
  · -- A request that was answered waits no more.
    have fewer : (conn.controls space nowUs).conn.due.flags < conn.due.flags :=
      staged.answered.resolve_left fun same => control (by rw [same])
    have flags : b.conn.due.flags < conn.due.flags :=
      buildFrames_invariant (fun b => b.conn.due.flags < conn.due.flags) fewer
        (fun _ _ _ before turned => by rw [turned.flags]; exact before) built
    refine ⟨fun same => ?_, fun idle => absurd idle.1 control⟩
    rw [show b.conn.due = conn.due from same] at flags
    exact absurd flags (Nat.lt_irrefl _)

/-- A packet without frames took nothing from what is pending. -/
theorem buildFrames_void {turns space : Nat} {conn : Conn} {b : SendBuild}
    (built : buildFrames turns conn space nowUs = some b) (sound : conn.Sound)
    (void : b.frames = []) : SamePending conn b.conn := by
  refine (buildFrames_same_iff built sound).mpr ?_
  obtain ⟨control, laid, -⟩ := putControl_laid conn space nowUs
  have idle := buildFrames_invariant (fun b => b.frames = [] →
      (conn.controls space nowUs).frames = [] ∧
        b.records.records = []) (fun none => ⟨none, laid.records⟩) ?_ built void
  · rw [idle.2]
    exact ⟨idle.1, List.forall_mem_nil _⟩
  · intro b b' _ before turned empty
    cases turned with
    | relinked | kept => exact before empty
    | @sent conn turn limit s0 refreshed s1 f bytes _ _ _ _ _ _ _ encoded =>
      -- A stream frame has octets even if it has no data.
      have whole := (frameEncodeStream_iff.mp encoded).1
      have shown : b.frames ++ bytes = [] := empty
      rw [(List.append_eq_nil_iff.mp shown).2] at whole
      simp [Frame.octets] at whole

/-- Handshake bytes are to be sent under keys that exist. -/
def CryptoDue (conn : Conn) : Prop :=
  ∃ hs, conn.handshake = some hs ∧ hs.sendOffset < hs.sendBuf.length ∧
    ¬ (hs.sendHandshakeDone ∧ handshakeSendLevel hs = .application) ∧
    (longSpace hs (handshakeSendLevel hs)).2.1.available = true

section Handshake

variable {evp : Evp} {conn next : Conn} {hs : Handshake} {maxLen : Nat} {result : SendResult}

/-- Handshake bytes are taken off the queue as they are filled into a frame. -/
theorem handshakeFillCrypto_moves (due : hs.sendOffset < hs.sendBuf.length) :
    (handshakeFillCrypto hs 512).2.2.sendOffset ≠ hs.sendOffset := by
  have length : (handshakeFillCrypto hs 512).2.1.length =
      min 512 (hs.sendBuf.length - hs.sendOffset) := by
    rw [handshakeFillCrypto, List.length_take, List.length_drop]
  show hs.sendOffset + (handshakeFillCrypto hs 512).2.1.length ≠ hs.sendOffset
  omega

/-- What the handshake does without a datagram keeps all that is pending exactly if no bytes of its
were due. -/
theorem HandshakeSent.same_iff (present : conn.handshake = some hs)
    (waiting : handshakeHasData hs = true) (sent : HandshakeSent evp conn hs maxLen result next)
    (quiet : ∀ bytes, result ≠ .datagram bytes) : SamePending conn next ↔ ¬ CryptoDue conn := by
  cases sent with
  | still _ unable =>
    refine iff_of_true rfl ?_
    rintro ⟨hs', present', -, early, available⟩
    cases present.symm.trans present'
    exact unable.elim early fun keyless => by rw [available] at keyless; cases keyless
  | taken _ early available =>
    have due : hs.sendOffset < hs.sendBuf.length := by
      by_contra empty
      -- Only the notice would wait, and it is sent on its own.
      have notice : hs.sendHandshakeDone = true := by simpa [handshakeHasData, empty] using waiting
      exact early ⟨notice, by rw [handshakeSendLevel, if_neg empty]⟩
    refine iff_of_false (fun same => ?_) (not_not_intro ⟨hs, present, due, early, available⟩)
    have waits : some _ = conn.handshake.map _ := congrArg Pending.handshake same
    rw [present, Option.map_some, Option.some.injEq] at waits
    exact handshakeFillCrypto_moves due (congrArg Prod.fst waits)
  | done => exact absurd rfl (quiet _)
  | crypto => exact absurd rfl (quiet _)

end Handshake

/-- The packet that a connection builds has a control frame, or data or the end of a stream. -/
def Conn.Burdened (env : Env) (conn : Conn) (maxLen : Nat) (nowUs : UInt64) : Prop :=
  (SendBuild.putControl ⟨conn.paced nowUs, [], false, FrameRecords.empty⟩
      (frameSpace (conn.paced nowUs) maxLen) nowUs).frames ≠ [] ∨
    ∃ b, buildFrames env.turns (conn.paced nowUs) (frameSpace (conn.paced nowUs) maxLen) nowUs =
        some b ∧ ∃ rec ∈ b.records.records, rec.Moves

/-- What becomes of a client that is to send its hello into a buffer of ten octets. -/
def crampedHello : SendResult × Conn :=
  (connSend plainEvp plainEnv startedClient 10 0).getD (.nothing, startedClient)

end Nxp
