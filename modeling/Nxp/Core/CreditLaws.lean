import Nxp.Core.StreamMoves

/-! What acts make of the credit of a connection and of its streams. -/

namespace Nxp

variable {limit : UInt64} {f : FrameStream} {fc fc' : FlowCtrl} {before after conn : Conn}

/-- Receiving a frame touches the lifecycle, the receiving direction and what is counted there. -/
theorem streamOnRecv_only (s : Stream) (f : FrameStream) :
    (streamOnRecv s f).2 = { s with
      state := (streamOnRecv s f).2.state
      recv := (streamOnRecv s f).2.recv
      flow := { s.flow with dataRecv := (streamOnRecv s f).2.flow.dataRecv } } := by
  have data : recvData s f = { s with
      recv := (recvData s f).recv
      flow := { s.flow with dataRecv := (recvData s f).flow.dataRecv } } := by
    unfold recvData
    split
    · rfl
    · split <;> rfl
  have mark (s : Stream) : recvFin s f = { s with
      state := (recvFin s f).state, recv := (recvFin s f).recv } := by
    unfold recvFin setStreamState
    simp only
    repeat' split
    all_goals rfl
  unfold streamOnRecv
  split
  · rfl
  · split
    · rfl
    · simp only
      rw [mark, data]

/-- An acknowledgement touches the lifecycle and the sending direction. -/
theorem streamOnAck_only (s : Stream) (offset : UInt64) (len : UInt32) (fin : Bool) :
    streamOnAck s offset len fin = { s with
      state := (streamOnAck s offset len fin).state
      send := (streamOnAck s offset len fin).send } := by
  unfold streamOnAck setStreamState
  simp only
  repeat' split
  all_goals rfl

/-- Reading touches the receiving direction and the limit to be advertised. -/
theorem streamRead_only (s : Stream) (bufLen : UInt64) :
    (streamRead s bufLen).2.2 = { s with
      recv := (streamRead s bufLen).2.2.recv
      flow := { s.flow with
        maxDataNext := (streamRead s bufLen).2.2.flow.maxDataNext
        sendMaxData := (streamRead s bufLen).2.2.flow.sendMaxData } } := by
  unfold streamRead flowOnConsume
  simp only
  repeat' split
  all_goals rfl

/-- Filling a frame touches the sending direction. -/
theorem streamFillFrame_only {s s' : Stream} (filled : streamFillFrame s limit = (some f, s')) :
    s' = { s with send := s'.send } := by
  obtain ⟨rfl, -⟩ := streamFillFrame_fills filled
  rfl

/-- A filled frame ends within what was written. -/
theorem streamFillFrame_within {s s' : Stream} (filled : streamFillFrame s limit = (some f, s'))
    (ordered : s.send.sentOffset.toNat ≤ s.send.writeOffset.toNat) :
    s'.send.writeOffset = s.send.writeOffset ∧
      s.send.sentOffset.toNat + f.length.toNat ≤ s.send.writeOffset.toNat := by
  obtain ⟨rfl, -, -, -, -, length, -⟩ := streamFillFrame_fills filled
  have cut := streamFillLen_toNat s limit
  refine ⟨rfl, ?_⟩
  rw [length]
  omega

/-- What a filled frame takes off a stream. -/
theorem streamFillFrame_leaves {s s' : Stream} (filled : streamFillFrame s limit = (some f, s'))
    (ordered : s.send.sentOffset.toNat ≤ s.send.writeOffset.toNat) :
    f.length.toNat ≤ 65536 ∧
      (streamUnsent s').toNat = (streamUnsent s).toNat - f.length.toNat ∧
      streamFinPending s' = (streamFinPending s && f.length.toNat != (streamUnsent s).toNat) := by
  obtain ⟨sameEnd, within⟩ := streamFillFrame_within filled ordered
  obtain ⟨-, -, -, -, frontier, -⟩ := streamFillFrame_frontier filled
  obtain ⟨rfl, -, -, -, -, length, -, fin⟩ := streamFillFrame_fills filled
  have size := streamFillLen_toNat s limit
  have unsent := streamUnsent_toNat s
  refine ⟨by rw [length]; omega, ?_, ?_⟩
  · rw [streamUnsent_toNat, sameEnd, frontier]
    omega
  · -- The frame reaches the end of the data exactly if it takes all that is unsent.
    have last : (s.send.sentOffset + f.length == s.send.writeOffset) =
        (f.length.toNat == (streamUnsent s).toNat) := by
      have bound := s.send.writeOffset.toNat_lt
      rw [Bool.eq_iff_iff, beq_iff_eq, beq_iff_eq, ← UInt64.toNat_inj, UInt64.toNat_add, unsent]
      omega
    rw [last] at fin
    unfold streamFinPending at fin ⊢
    simp only [fin, bne]
    cases s.send.fin <;> cases s.send.finSent <;> simp

/-- A limit announced by the peer is adopted or ignored. -/
theorem flowSetPeerMax_only (fc : FlowCtrl) (maxData : UInt64) :
    flowSetPeerMax fc maxData =
      { fc with peerMaxData := (flowSetPeerMax fc maxData).peerMaxData } := by
  unfold flowSetPeerMax
  split <;> rfl

namespace Move

variable {id : UInt64} {act : Act} {s s' : Stream}

/-- A moved stream keeps its identifier and the limit on what it may receive. -/
theorem fixed (move : Move id s act s') :
    s'.id = s.id ∧ s'.flow.localMaxData = s.flow.localMaxData := by
  cases move with
  | retimed only => rw [only]; exact ⟨rfl, rfl⟩
  | @received env f named => rw [streamOnRecv_only]; exact ⟨rfl, rfl⟩
  | raised maxData => rw [flowSetPeerMax_only]; exact ⟨rfl, rfl⟩
  | acked named blocked => rw [streamOnAck_only]; exact ⟨rfl, rfl⟩
  | lost named => rw [streamOnLoss_send]; exact ⟨rfl, rfl⟩
  | sent only filled =>
    unfold chargeStream
    rw [streamFillFrame_only filled, only]
    exact ⟨rfl, rfl⟩
  | written data fin =>
    rcases streamWrite_cases s data fin with refused | accepted
    · rw [refused]; exact ⟨rfl, rfl⟩
    · rw [accepted]; exact ⟨rfl, rfl⟩
  | read bufLen => rw [streamRead_only]; exact ⟨rfl, rfl⟩

/-- No move lowers the limit on what a stream may send. -/
theorem peerMaxData_le (move : Move id s act s') : s.flow.peerMaxData ≤ s'.flow.peerMaxData := by
  cases move with
  | retimed only => rw [only]; exact UInt64.le_refl _
  | @received env f named => rw [streamOnRecv_only]; exact UInt64.le_refl _
  | raised maxData => exact (flowSetPeerMax_le s.flow maxData).2
  | acked named blocked => rw [streamOnAck_only]; exact UInt64.le_refl _
  | lost named => rw [streamOnLoss_send]; exact UInt64.le_refl _
  | sent only filled =>
    unfold chargeStream
    rw [streamFillFrame_only filled, only]
    exact UInt64.le_refl _
  | written data fin =>
    rcases streamWrite_cases s data fin with refused | accepted
    · rw [refused]; exact UInt64.le_refl _
    · rw [accepted]; exact UInt64.le_refl _
  | read bufLen => rw [streamRead_only]; exact UInt64.le_refl _

end Move

/-- A stream that is called by its identifier, has sent only what was written, and was given only
what the peer's limit lets it send. -/
structure Stream.Sound (id : UInt64) (s : Stream) : Prop where
  named : s.id = id
  sent : s.send.sentOffset.toNat ≤ s.send.writeOffset.toNat
  written : s.send.writeOffset.toNat ≤ s.flow.peerMaxData.toNat

namespace Stream.Sound

variable {id : UInt64} {s s' : Stream}

/-- Links do not matter. -/
theorem linked (same : s'.unlinked = s.unlinked) (sound : s.Sound id) : s'.Sound id := by
  have send : s'.send = s.send := (congrArg Stream.send same :)
  have flow : s'.flow = s.flow := (congrArg Stream.flow same :)
  refine ⟨(congrArg Stream.id same :).trans sound.named, ?_, ?_⟩
  · rw [send]
    exact sound.sent
  · rw [send, flow]
    exact sound.written

/-- A new stream has nothing written. -/
theorem fresh (id : UInt64) (type : StreamType) (limit : UInt64) :
    (streamCreate id type limit limit).Sound id :=
  ⟨rfl, Nat.le_refl _, Nat.zero_le _⟩

/-- What is written stays within the peer's limit. -/
theorem write (sound : s.Sound id) (data : Bytes) (fin : Bool) :
    (streamWrite s data fin).2.Sound id := by
  rcases streamWrite_cases s data fin with refused | accepted
  · rw [refused]
    exact sound
  · rw [accepted]
    have cut : (streamWriteCount s (UInt64.ofNat data.length)).toNat ≤
        s.flow.peerMaxData.toNat - s.send.writeOffset.toNat := by
      unfold streamWriteCount streamWriteAvail
      simp only [gt_iff_lt, Word.toNat_min_guarded, Word.toNat_sub_guarded]
      omega
    have within := sound.written
    have bound := s.flow.peerMaxData.toNat_lt
    -- The sum cannot wrap, because it stays within the peer's limit.
    have whole : (s.send.writeOffset + streamWriteCount s (UInt64.ofNat data.length)).toNat =
        s.send.writeOffset.toNat + (streamWriteCount s (UInt64.ofNat data.length)).toNat := by
      rw [UInt64.toNat_add]
      omega
    refine ⟨sound.named, ?_, ?_⟩
    · show s.send.sentOffset.toNat ≤ _
      rw [whole]
      have sent := sound.sent
      omega
    · show _ ≤ s.flow.peerMaxData.toNat
      rw [whole]
      omega

/-- No move makes a stream unsound. -/
theorem moved {act : Act} (move : Move id s act s') (sound : s.Sound id) : s'.Sound id := by
  have named : s'.id = id := move.fixed.1.trans sound.named
  cases move with
  | retimed only => rw [only]; exact ⟨sound.named, sound.sent, sound.written⟩
  | @received env f named =>
    rw [streamOnRecv_only]
    exact ⟨sound.named, sound.sent, sound.written⟩
  | raised maxData =>
    have raised := (flowSetPeerMax_le s.flow maxData).2
    rw [UInt64.le_iff_toNat_le] at raised
    exact ⟨named, sound.sent, Nat.le_trans sound.written raised⟩
  | acked named blocked =>
    rw [streamOnAck_only, streamOnAck_send]
    exact ⟨sound.named, sound.sent, sound.written⟩
  | lost named =>
    rw [streamOnLoss_send]
    refine ⟨sound.named, ?_, sound.written⟩
    have sent := sound.sent
    simp only
    split
    · rename_i behind
      rw [UInt64.lt_iff_toNat_lt] at behind
      omega
    · exact sent
  | @sent space b b' limit refreshed filledStream f only filled =>
    have ready : refreshed.Sound id := by
      rw [only]
      exact ⟨sound.named, sound.sent, sound.written⟩
    obtain ⟨sameId, -, -, -, frontier, -⟩ := streamFillFrame_frontier filled
    obtain ⟨sameEnd, within⟩ := streamFillFrame_within filled ready.sent
    have flow : filledStream.flow = refreshed.flow := by rw [streamFillFrame_only filled]
    refine ⟨named, ?_, ?_⟩
    · show filledStream.send.sentOffset.toNat ≤ filledStream.send.writeOffset.toNat
      rw [sameEnd, frontier]
      exact within
    · show filledStream.send.writeOffset.toNat ≤ filledStream.flow.peerMaxData.toNat
      rw [sameEnd, flow]
      exact ready.written
  | written data fin => exact sound.write data fin
  | read bufLen =>
    rw [streamRead_only]
    exact ⟨sound.named, sound.sent, sound.written⟩

end Stream.Sound

/-- Every way the credit of a connection changes. -/
inductive FlowStep (fc : FlowCtrl) : FlowCtrl → Prop
  | kept : FlowStep fc fc
  | granted (maxData : UInt64) : FlowStep fc (flowSetPeerMax fc maxData)
  | advertised (waiting : flowShouldUpdate fc = true) : FlowStep fc (flowGetUpdate fc).2
  | charged (length : UInt64) (within : length.toNat ≤ (flowRemain fc).toNat) :
      FlowStep fc (flowOnSend fc length)

theorem FlowStep.of_eq (same : fc' = fc) : FlowStep fc fc' := by
  rw [same]
  exact .kept

theorem FlowStep.of_streamsOnly (only : StreamsOnly before after) :
    FlowStep before.connFlow after.connFlow := .of_eq (congrArg Conn.connFlow only :)

/-- The connection is charged for a frame that is put into a packet. -/
theorem SendBuild.putStream_flow (b : SendBuild) (id : UInt64) (s : Stream) (f : FrameStream)
    (bytes : Bytes) :
    (b.putStream id s f bytes).conn.connFlow = flowOnSend b.conn.connFlow f.length := by
  unfold SendBuild.putStream
  simp only
  split
  · exact (congrArg Conn.connFlow (schedAdd_relinks _ _).only :)
  · rfl

/-- A frame that is filled within the limits of a turn is within what the connection's limit
leaves. -/
theorem streamFillFrame_remain {s s' : Stream} {avail : Nat}
    (limited : limit = rateDataLimit s (frameDataLimit conn avail))
    (filled : streamFillFrame s limit = (some f, s')) :
    f.length.toNat ≤ (flowRemain conn.connFlow).toNat := by
  obtain ⟨-, -, -, short, -, -⟩ := streamFillFrame_frontier filled
  have bound := (turnLimit_le s conn avail).2
  rw [← limited] at bound
  exact Nat.le_trans short bound

theorem Turned.flow {space : Nat} {b b' : SendBuild} (turned : Turned space b b') :
    FlowStep b.conn.connFlow b'.conn.connFlow := by
  cases turned with
  | relinked next => exact .of_streamsOnly (schedNext_links next).only
  | kept next =>
    exact .of_streamsOnly ((schedNext_links next).only.trans (StreamsOnly.setStream _ _ _))
  | @sent conn id limit s refreshed s' f bytes next found able only budget limited filled encoded =>
    have same : conn.connFlow = b.conn.connFlow :=
      (congrArg Conn.connFlow (schedNext_links next).only :)
    rw [SendBuild.putStream_flow, ← same]
    exact .charged _ (streamFillFrame_remain limited filled)

/-- Outside a call to send, the credit of the connection is left alone or raised. -/
theorem Act.flow_received {act : Act} (done : act.does before after)
    (received : act.sending.getD false = false) :
    after.connFlow = before.connFlow ∨
      ∃ maxData, after.connFlow = flowSetPeerMax before.connFlow maxData := by
  have streams {before after : Conn} (only : StreamsOnly before after) :
      after.connFlow = before.connFlow := (congrArg Conn.connFlow only :)
  cases act with
  | aside => exact .inl (congrArg Carriage.connFlow done :)
  | granted maxData =>
    cases done
    exact .inr ⟨maxData, rfl⟩
  | advertised | turned | asked => cases received
  | taken env f =>
    cases done
    exact .inl (congrArg Conn.connFlow (recvStreamFrame_only env before f) :)
  | raised streamId maxStreamData =>
    cases done
    exact .inl (streams (recvMaxStreamData_only before streamId maxStreamData))
  | acked rec =>
    cases done
    exact .inl (congrArg Conn.connFlow (Transfers.ackRecord before rec).only :)
  | lost rec =>
    cases done
    exact .inl (streams (lossRecord_only before rec))
  | opened env type unidirectional =>
    cases done
    left
    unfold connOpenStream storeStream countOpened
    simp only
    repeat' split
    all_goals rfl
  | written streamId data fin =>
    cases done
    exact .inl (streams (connStreamSend_only before streamId data fin))
  | read streamId bufLen =>
    cases done
    left
    unfold connStreamRecv
    split <;> rfl
  | retuned streamId s s' =>
    obtain ⟨-, rfl, -⟩ := done
    exact .inl rfl

/-- How an act changes the credit of the connection. -/
theorem Act.flow {act : Act} (done : act.does before after) :
    FlowStep before.connFlow after.connFlow := by
  by_cases received : act.sending.getD false = false
  · rcases Act.flow_received done received with same | ⟨maxData, raised⟩
    · exact .of_eq same
    · rw [raised]
      exact .granted maxData
  · cases act with
    | advertised =>
      obtain ⟨waiting, rfl⟩ := done
      exact .advertised waiting
    | turned space b b' =>
      obtain ⟨rfl, rfl, turned⟩ := done
      exact turned.flow
    | asked =>
      cases done
      exact .of_streamsOnly (schedNext_relinks before).only
    | _ => exact absurd rfl received

/-- Credit that is not overdrawn, and of which none waits to be advertised. -/
structure FlowCtrl.Sound (fc : FlowCtrl) : Prop where
  sent : fc.dataSent.toNat ≤ fc.peerMaxData.toNat
  quiet : fc.sendMaxData = false

/-- A charge within what the limit leaves does not wrap. -/
theorem FlowCtrl.Sound.charge (sound : fc.Sound) {length : UInt64}
    (within : length.toNat ≤ (flowRemain fc).toNat) :
    (flowOnSend fc length).dataSent.toNat = fc.dataSent.toNat + length.toNat ∧
      (flowOnSend fc length).dataSent.toNat ≤ fc.peerMaxData.toNat := by
  have remain : (flowRemain fc).toNat = fc.peerMaxData.toNat - fc.dataSent.toNat :=
    Word.toNat_sub_guarded _ _
  have bound := fc.peerMaxData.toNat_lt
  have sent := sound.sent
  unfold flowOnSend
  rw [UInt64.toNat_add]
  omega

/-- A flow step keeps the counters in order. -/
theorem FlowCtrl.Sound.step (step : FlowStep fc fc') (sound : fc.Sound) :
    fc'.Sound := by
  cases step with
  | kept => exact sound
  | granted maxData =>
    have raised := (flowSetPeerMax_le fc maxData).2
    rw [UInt64.le_iff_toNat_le] at raised
    rw [flowSetPeerMax_only]
    exact ⟨Nat.le_trans sound.sent raised, sound.quiet⟩
  | advertised waiting =>
    -- A limit that waits would have been noticed.
    rw [flowShouldUpdate, sound.quiet] at waiting
    cases waiting
  | charged length within => exact ⟨(sound.charge within).2, sound.quiet⟩

/-- All streams of a connection are sound, and so is its credit. -/
structure Conn.Sound (conn : Conn) : Prop where
  streams : conn.Each Stream.Sound
  flow : conn.connFlow.Sound

/-- No act makes a connection unsound. -/
theorem Conn.Sound.act {act : Act} (done : act.does before after) (sound : before.Sound) :
    after.Sound :=
  ⟨Conn.Each.act Stream.Sound.linked Stream.Sound.fresh Stream.Sound.moved done sound.streams,
    sound.flow.step (Act.flow done)⟩

/-- Credit that does not wait to be advertised is not changed by an act. -/
theorem Act.localMaxData {act : Act} (done : act.does before after) (sound : before.Sound) :
    after.connFlow.localMaxData = before.connFlow.localMaxData := by
  have step := Act.flow done
  generalize after.connFlow = flow at step
  cases step with
  | kept => rfl
  | granted maxData => rw [flowSetPeerMax_only]
  | advertised waiting =>
    rw [flowShouldUpdate, sound.flow.quiet] at waiting
    cases waiting
  | charged length within => rfl

/-- A new connection is sound. -/
theorem connCreate_sound (config : ConnConfig) (isServer allocCc : Bool) :
    (connCreate config isServer allocCc).Sound :=
  ⟨fun _ _ found => (by cases found), ⟨Nat.zero_le _, rfl⟩⟩

/-- Every connection that is reached is sound. -/
theorem reached_sound {evp : Evp} {config : ConnConfig} {isServer allocCc : Bool}
    {inputs : List (Env × ConnOp)}
    (reached : Machine.attempt (connStep evp) (connCreate config isServer allocCc) inputs =
      some conn) : conn.Sound :=
  acts_invariant Conn.Sound (fun _ _ _ done sound => sound.act done)
    (connCreate_sound config isServer allocCc) reached

end Nxp
