import Nxp.Core.ConnLaws
import Nxp.Core.FrameCodec
import Nxp.Core.PacketLaws
import Nxp.Core.StreamLaws
import Mathlib.Logic.Relation

/-! What building and sending a datagram leaves alone, and every way a call to send can end. -/

namespace Nxp

variable {evp : Evp} {env : Env} {conn next : Conn} {maxLen turns : Nat} {nowUs : UInt64}
  {result : SendResult} {b b' : SendBuild} {hs : Handshake}

/-- Bytes of what was sent. -/
def SendResult.bytes : SendResult → Bytes
  | .datagram bytes => bytes
  | _ => []

/-- A call that returned and handed a datagram back. -/
theorem connSend_getD {result : SendResult × Conn}
    (returned : result = (connSend evp env conn maxLen nowUs).getD (.nothing, conn))
    (filled : result.1 = .datagram result.1.bytes) :
    connSend evp env conn maxLen nowUs = some (.datagram result.1.bytes, result.2) := by
  cases call : connSend evp env conn maxLen nowUs with
  | none =>
    rw [call, Option.getD_none] at returned
    rw [returned] at filled
    cases filled
  | some sent =>
    rw [call, Option.getD_some] at returned
    rw [← filled, returned]

/-- Only what the frames of a packet are taken from may differ, and idleness is not entered. -/
structure Assembles (before after : Conn) : Prop where
  only : after = { before with
    state := after.state
    ack := { before.ack with ackNeeded := after.ack.ackNeeded }
    migration := after.migration
    heartbeat := after.heartbeat
    streams := after.streams
    connFlow := after.connFlow
    schedHead := after.schedHead
    sendPing := after.sendPing
    sendConnClose := after.sendConnClose }
  idle : after.state = .idle → before.state = .idle

namespace Assembles

theorem refl (conn : Conn) : Assembles conn conn := ⟨rfl, id⟩

theorem trans {first second third : Conn} (left : Assembles first second)
    (right : Assembles second third) : Assembles first third := by
  refine ⟨?_, fun idle => left.idle (right.idle idle)⟩
  rw [right.only, left.only]

section Untouched

variable {before after : Conn} (assembles : Assembles before after)
include assembles

/-- Building is not seen. -/
theorem trace : after.trace = before.trace := (congrArg Conn.trace assembles.only :)

/-- Building counts no packet. -/
theorem number : after.nextPktNum = before.nextPktNum :=
  (congrArg Conn.nextPktNum assembles.only :)

/-- Building leaves the handshake alone. -/
theorem handshake : after.handshake = before.handshake :=
  (congrArg Conn.handshake assembles.only :)

/-- Building leaves the keys alone. -/
theorem crypto : after.crypto = before.crypto := (congrArg Conn.crypto assembles.only :)

/-- Building leaves the peer's identifier alone. -/
theorem dcid : after.dcid = before.dcid := (congrArg Conn.dcid assembles.only :)

end Untouched

end Assembles

/-- What putting a control frame into a packet clears, which was waiting before. -/
inductive Clears (conn : Conn) : Frame → Conn → Prop
  | ack {f : FrameAck} (due : conn.ack.ackNeeded = true) :
      Clears conn (.ack f) { conn with ack := { conn.ack with ackNeeded := false } }
  | close (due : conn.sendConnClose = true) :
      Clears conn (.connectionClose ⟨conn.closeErrorCode, 0, [], true⟩)
        (setConnState { conn with sendConnClose := false } .closing)
  | ping (due : conn.sendPing = true) : Clears conn .ping { conn with sendPing := false }
  | maxData (due : flowShouldUpdate conn.connFlow = true) :
      Clears conn (.maxData (flowGetUpdate conn.connFlow).1)
        { conn with connFlow := (flowGetUpdate conn.connFlow).2 }
  | pathResponse (due : conn.migration.sendPathResponse = true) :
      Clears conn (.pathResponse conn.migration.pendingResponseData)
        { conn with migration := { conn.migration with sendPathResponse := false } }
  | pathChallenge (due : conn.migration.sendPathChallenge = true) :
      Clears conn (.pathChallenge conn.migration.newPath.challengeData)
        { conn with migration := { conn.migration with sendPathChallenge := false } }
  | newCid {entry : CidEntry} (due : conn.migration.pendingNewCids.getLast? = some entry) :
      Clears conn (.newConnectionId ⟨entry.seqNum, 0, entry.cid, entry.statelessResetToken⟩)
        (SendBuild.dropNewCid conn)
  | retireCid (due : conn.migration.sendRetireCid = true) :
      Clears conn (.retireConnectionId conn.migration.retireSeq)
        { conn with migration := { conn.migration with sendRetireCid := false } }
  | echo (due : conn.heartbeat.sendEcho = true) :
      Clears conn (.heartbeat conn.heartbeat.echoTimestamp)
        { conn with heartbeat := { conn.heartbeat with sendEcho := false } }
  | heartbeat (due : conn.heartbeat.sendHeartbeat = true) :
      Clears conn (.heartbeat conn.heartbeat.pendingTimestamp)
        { conn with heartbeat := { conn.heartbeat with sendHeartbeat := false } }

/-- Every way a packet changes before stream data: a frame is put, or a limit is taken for a frame
that then does not fit. -/
inductive Stage (space : Nat) (b : SendBuild) : SendBuild → Prop
  | put {frame : Frame} {bytes : Bytes} {conn : Conn} (eliciting : Bool)
      (clears : Clears b.conn frame conn)
      (encoded : frameEncode frame (space - b.frames.length) = some bytes) :
      Stage space b
        { b with conn := conn, frames := b.frames ++ bytes, ackEliciting := eliciting }
  | taken (waiting : flowShouldUpdate b.conn.connFlow = true) : Stage space b b.takeMaxData

/-- Stages one after the other. -/
abbrev Stages (space : Nat) : SendBuild → SendBuild → Prop := Relation.ReflTransGen (Stage space)

namespace Stages

variable {space : Nat}

theorem put (b : SendBuild) {frame : Frame} (eliciting : Bool) {sent : Conn → Conn}
    (clears : Clears b.conn frame (sent b.conn)) :
    Stages space b (b.put space (frameEncode frame) eliciting sent) := by
  unfold SendBuild.put
  split
  · exact .refl
  · rename_i encoded
    exact .single (.put _ clears encoded)

theorem putWhen (b : SendBuild) {asked : Bool} {frame : Frame} {sent : Conn → Conn}
    (clears : asked = true → Clears b.conn frame (sent b.conn)) :
    Stages space b (b.putWhen asked space (frameEncode frame) sent) := by
  unfold SendBuild.putWhen
  split
  · rename_i asks
    exact put b true (clears asks)
  · exact .refl

theorem putAck (b : SendBuild) (nowUs : UInt64) : Stages space b
    (b.putAck space nowUs) := by
  unfold SendBuild.putAck
  split
  · rename_i due
    split
    · exact .refl
    · rename_i f _
      exact @put space b (.ack f) false _ (.ack due)
  · exact .refl

theorem putMaxData (b : SendBuild) : Stages space b (b.putMaxData space) := by
  unfold SendBuild.putMaxData
  split
  · rename_i waiting
    unfold SendBuild.put
    split
    · exact .single (.taken waiting)
    · rename_i encoded
      exact .single (@Stage.put space b (.maxData _) _ _ _ (.maxData waiting) encoded)
  · exact .refl

theorem putNewCids (count : Nat) (b : SendBuild) :
    Stages space b (SendBuild.putNewCids space count b) := by
  -- The induction is on how many identifiers may still be offered.
  induction count generalizing b with
  | zero => exact .refl
  | succ count ih =>
    unfold SendBuild.putNewCids
    split
    · exact .refl
    · rename_i entry due
      split
      · exact .refl
      · rename_i encoded
        exact .head (@Stage.put space b (.newConnectionId _) _ _ true (.newCid due) encoded) (ih _)

/-- All that goes before stream data. -/
theorem putControl (b : SendBuild) (nowUs : UInt64) :
    Stages space b (b.putControl space nowUs) := by
  -- Seven stages only clear the flag that asked for their frame.
  have closing (b : SendBuild) : Stages space b (b.putClose space) :=
    @putWhen space b _ (.connectionClose _) _ .close
  have ping (b : SendBuild) : Stages space b (b.putPing space) :=
    @putWhen space b _ .ping _ .ping
  have response (b : SendBuild) : Stages space b (b.putPathResponse space) :=
    @putWhen space b _ (.pathResponse _) _ .pathResponse
  have challenge (b : SendBuild) : Stages space b (b.putPathChallenge space) :=
    @putWhen space b _ (.pathChallenge _) _ .pathChallenge
  have retire (b : SendBuild) : Stages space b (b.putRetireCid space) :=
    @putWhen space b _ (.retireConnectionId _) _ .retireCid
  have echo (b : SendBuild) : Stages space b (b.putEcho space) :=
    @putWhen space b _ (.heartbeat _) _ .echo
  have beat (b : SendBuild) : Stages space b (b.putHeartbeat space) :=
    @putWhen space b _ (.heartbeat _) _ .heartbeat
  -- The stages follow one another in the order of the packet.
  have opening := (((putAck b nowUs).trans (closing _)).trans (ping _)).trans (putMaxData _)
  have paths := (opening.trans (response _)).trans (challenge _)
  exact (((paths.trans (putNewCids _ _)).trans (retire _)).trans (echo _)).trans (beat _)

end Stages

/-- A packet of a connection with the control frames that fit. -/
abbrev Conn.controls (conn : Conn) (space : Nat) (nowUs : UInt64) : SendBuild :=
  SendBuild.putControl ⟨conn, [], false, FrameRecords.empty⟩ space nowUs

/-- What holds of an empty packet and every stage preserves holds behind the control frames. -/
theorem Conn.controls_invariant {space : Nat} (invariant : SendBuild → Prop)
    (start : invariant ⟨conn, [], false, FrameRecords.empty⟩)
    (preserved : ∀ b b', invariant b → Stage space b b' → invariant b') :
    invariant (conn.controls space nowUs) := by
  have stages : Stages space _ (conn.controls space nowUs) := Stages.putControl _ nowUs
  generalize conn.controls space nowUs = b at stages ⊢
  -- The induction is on the frames that were put.
  induction stages with
  | refl => exact start
  | tail _ staged ih => exact preserved _ _ ih staged

/-- Adding control frames builds on the packet and leaves its streams and stretches alone. -/
structure Controls (before after : SendBuild) : Prop where
  assembles : Assembles before.conn after.conn
  streams : after.conn.streams = before.conn.streams
  records : after.records = before.records

namespace Controls

theorem refl (b : SendBuild) : Controls b b := ⟨Assembles.refl b.conn, rfl, rfl⟩

theorem trans {first second third : SendBuild} (left : Controls first second)
    (right : Controls second third) : Controls first third :=
  ⟨left.assembles.trans right.assembles, right.streams.trans left.streams,
    right.records.trans left.records⟩

theorem stage {space : Nat} (staged : Stage space b b') :
    Controls b b' := by
  cases staged with
  | put eliciting clears encoded =>
    cases clears with
    | close due =>
      -- The notice of closing moves between states, and never to idleness.
      refine ⟨?_, ?_, rfl⟩
      · unfold setConnState
        split
        · exact ⟨rfl, id⟩
        · exact ⟨rfl, fun idle => by cases idle⟩
      · unfold setConnState
        split <;> rfl
    | _ => exact ⟨⟨rfl, id⟩, rfl, rfl⟩
  | taken waiting => exact ⟨⟨rfl, id⟩, rfl, rfl⟩

/-- All frames that go before stream data are control frames. -/
theorem controls (conn : Conn) (space : Nat) (nowUs : UInt64) :
    Controls ⟨conn, [], false, FrameRecords.empty⟩ (conn.controls space nowUs) :=
  Conn.controls_invariant (Controls _) (refl _) fun _ _ before staged => before.trans (stage staged)

end Controls

/-- There is room for one more stretch behind the others. -/
theorem FrameRecords.push_hasRoom {records : FrameRecords} (room : records.hasRoom = true)
    (rec : StreamFrameRecord) : (records.push rec).records = records.records ++ [rec] := by
  unfold hasRoom at room
  unfold push
  rw [dif_pos (by simpa using room)]

/-- Every way a turn of the stream loop can end: the ring moves on, and then the stream in turn is
left as it was but for its rate, or it sends a frame. -/
inductive Turned (space : Nat) (b : SendBuild) : SendBuild → Prop
  | relinked {turn : Option UInt64} {conn : Conn} (next : schedNext b.conn = (turn, conn)) :
      Turned space b { b with conn := conn }
  | kept {conn : Conn} {id : UInt64} {s s' : Stream} (next : schedNext b.conn = (some id, conn))
      (found : conn.stream id = some s)
      (only : s' = { s with rateLimit := s'.rateLimit, blocked := s'.blocked }) :
      Turned space b { b with conn := conn.setStream id s' }
  | sent {conn : Conn} {id limit : UInt64} {s refreshed s' : Stream} {f : FrameStream}
      {bytes : Bytes} (next : schedNext b.conn = (some id, conn)) (found : conn.stream id = some s)
      (able : ¬ (streamUnsent s > 0 ∧ !flowCanSend conn.connFlow 1))
      (only : refreshed = { s with rateLimit := refreshed.rateLimit })
      (budget : ¬ (refreshed.rateLimit.enabled ∧ streamRateBudget refreshed.rateLimit = 0))
      (limited : limit = rateDataLimit refreshed
        (frameDataLimit conn (space - b.frames.length)))
      (filled : streamFillFrame refreshed limit = (some f, s'))
      (encoded : frameEncodeStream f (space - b.frames.length) = some bytes) :
      Turned space b (SendBuild.putStream { b with conn := conn } id s' f bytes)

/-- Moving the ring on changes links only. -/
theorem schedNext_links {turn : Option UInt64} (moved : schedNext conn = (turn, next)) :
    Relinks conn next := by
  have links := schedNext_relinks conn
  rw [moved] at links
  exact links

theorem frameDataLimit_le (conn : Conn) (avail : Nat) :
    (frameDataLimit conn avail).toNat ≤ avail := by
  unfold frameDataLimit
  have bounded : (UInt64.ofNat (if avail > 20 then avail - 20 else 0)).toNat ≤ avail := by
    rw [UInt64.toNat_ofNat']
    apply Nat.le_trans (Nat.mod_le _ _)
    split <;> omega
  simp only
  generalize UInt64.ofNat (if avail > 20 then avail - 20 else 0) = maxData at bounded ⊢
  split
  · rename_i above
    rw [gt_iff_lt, UInt64.lt_iff_toNat_lt] at above
    omega
  · exact bounded

theorem frameDataLimit_le_remain (conn : Conn) (avail : Nat) :
    (frameDataLimit conn avail).toNat ≤ (flowRemain conn.connFlow).toNat := by
  unfold frameDataLimit
  simp only
  generalize UInt64.ofNat (if avail > 20 then avail - 20 else 0) = maxData
  split
  · exact Nat.le_refl _
  · rename_i within
    rw [gt_iff_lt, UInt64.lt_iff_toNat_lt] at within
    omega

theorem rateDataLimit_le (s : Stream) (maxData : UInt64) :
    (rateDataLimit s maxData).toNat ≤ maxData.toNat := by
  unfold rateDataLimit
  split
  · rename_i above
    have lower := above.2
    rw [gt_iff_lt, UInt64.lt_iff_toNat_lt] at lower
    omega
  · exact Nat.le_refl _

/-- Refreshing a rate touches nothing else. -/
theorem refreshRate_only (s : Stream) (nowUs : UInt64) :
    refreshRate s nowUs = { s with rateLimit := (refreshRate s nowUs).rateLimit } := by
  unfold refreshRate
  split <;> rfl

/-- The limit of a turn stays within the room and within the connection's limit. -/
theorem turnLimit_le (s : Stream) (conn : Conn) (avail : Nat) :
    (rateDataLimit s (frameDataLimit conn avail)).toNat ≤ avail ∧
      (rateDataLimit s (frameDataLimit conn avail)).toNat ≤ (flowRemain conn.connFlow).toNat := by
  have room := frameDataLimit_le conn avail
  have remain := frameDataLimit_le_remain conn avail
  have cut := rateDataLimit_le s (frameDataLimit conn avail)
  omega

/-- How the turn of a stream can end. -/
theorem fillTurn_turned {id : UInt64} {s : Stream} {space : Nat}
    (next : schedNext b.conn = (some id, conn)) (found : conn.stream id = some s)
    (able : ¬ (streamUnsent s > 0 ∧ !flowCanSend conn.connFlow 1)) (nowUs : UInt64) :
    Turned space b (fillTurn space nowUs { b with conn := conn } id s).2 := by
  have only := refreshRate_only s nowUs
  have still : refreshRate s nowUs = { s with
      rateLimit := (refreshRate s nowUs).rateLimit, blocked := (refreshRate s nowUs).blocked } := by
    rw [only]
  unfold fillTurn
  simp only
  split
  · exact .kept next found (by rw [only])
  · rename_i budget
    split
    · -- Nothing was filled, and filling nothing changes nothing.
      rename_i filled
      obtain ⟨rfl, -⟩ := streamFillFrame_idle filled
      exact .kept next found still
    · rename_i f s' filled
      split
      · rw [streamOnLoss_filled filled]
        exact .kept next found still
      · rename_i bytes encoded
        exact .sent next found able only budget rfl filled encoded

/-- How a turn of the stream loop can end. -/
theorem streamTurn_turned (space : Nat) (nowUs : UInt64) (b : SendBuild) :
    Turned space b (streamTurn space nowUs b).2 := by
  unfold streamTurn
  split
  · rename_i next
    exact .relinked next
  · rename_i id conn next
    split
    · exact .relinked next
    · rename_i found
      split
      · exact .relinked next
      · rename_i able
        exact fillTurn_turned next found able nowUs

/-- What every turn preserves, the stream loop preserves. -/
theorem streamLoop_invariant {space : Nat} (invariant : SendBuild → Prop)
    (preserved : ∀ b b', b.records.hasRoom = true → invariant b → Turned space b b' → invariant b')
    (start : invariant b) (looped : streamLoop space nowUs turns b = some b') :
    invariant b' := by
  -- The induction is on the turns that are left.
  induction turns generalizing b with
  | zero => cases looped
  | succ turns ih =>
    unfold streamLoop at looped
    split at looped
    · rename_i going
      have next := preserved b _ going.2 start (streamTurn_turned space nowUs b)
      split at looped
      · rename_i result
        rw [result] at next
        cases looped
        exact next
      · rename_i result
        rw [result] at next
        exact ih next looped
    · cases looped
      exact start

/-- A turn touches the streams and what the connection has sent. -/
theorem Turned.only {space : Nat} (turned : Turned space b b') : b'.conn = { b.conn with
    streams := b'.conn.streams
    schedHead := b'.conn.schedHead
    connFlow := { b.conn.connFlow with dataSent := b'.conn.connFlow.dataSent } } := by
  have streams {before after : Conn} (only : StreamsOnly before after) : after = { before with
      streams := after.streams
      schedHead := after.schedHead
      connFlow := { before.connFlow with dataSent := after.connFlow.dataSent } } := by
    rw [only]
  cases turned with
  | relinked next => exact streams (schedNext_links next).only
  | kept next => exact streams ((schedNext_links next).only.trans (StreamsOnly.setStream _ _ _))
  | @sent conn id limit s refreshed s' f bytes next =>
    have links := (schedNext_links next).only
    have put : (SendBuild.putStream { b with conn := conn } id s' f bytes).conn = { conn with
        streams := (SendBuild.putStream { b with conn := conn } id s' f bytes).conn.streams
        schedHead := (SendBuild.putStream { b with conn := conn } id s' f bytes).conn.schedHead
        connFlow := flowOnSend conn.connFlow f.length } := by
      unfold SendBuild.putStream
      simp only
      split
      · exact (schedAdd_relinks _ _).only
      · rfl
    rw [put, links]
    rfl

/-- A turn is building. -/
theorem Turned.assembles {space : Nat} (turned : Turned space b b') :
    Assembles b.conn b'.conn := by
  have only := turned.only
  refine ⟨by rw [only], ?_⟩
  rw [(congrArg Conn.state only :)]
  exact id

/-- What the control frames establish and every turn preserves holds of the frames built. -/
theorem buildFrames_invariant {space : Nat} (invariant : SendBuild → Prop)
    (start : invariant (conn.controls space nowUs))
    (preserved : ∀ b b', b.records.hasRoom = true → invariant b → Turned space b b' → invariant b')
    (built : buildFrames turns conn space nowUs = some b) : invariant b := by
  unfold buildFrames at built
  simp only at built
  split at built
  · exact streamLoop_invariant invariant preserved start built
  · cases built
    exact start

/-- Building frames is building. -/
theorem buildFrames_assembles {space : Nat}
    (built : buildFrames turns conn space nowUs = some b) : Assembles conn b.conn :=
  buildFrames_invariant (fun b => Assembles conn b.conn)
    (Controls.controls conn space nowUs).assembles
    (fun _ _ _ before turned => before.trans turned.assembles) built

/-- Closing a packet is at most seen. -/
theorem closePacket_seen {hdr frames bytes : Bytes} {pnLen : Nat}
    (closed : closePacket evp conn hdr pnLen frames = some (bytes, next)) :
    next = { conn with trace := next.trace } ∧ (next.trace = conn.trace ∨
      ∃ keys, next.trace = conn.trace ++ [.packetSealed .application keys conn.nextPktNum]) := by
  unfold closePacket at closed
  split at closed
  · obtain ⟨_, _, pair⟩ := Option.map_eq_some_iff.mp closed
    cases pair
    exact ⟨rfl, .inr ⟨_, rfl⟩⟩
  · cases closed
    exact ⟨rfl, .inl rfl⟩

/-- Length of the next packet's number on the wire. -/
def nextPnLen (conn : Conn) : Nat := pktNumLen conn.nextPktNum conn.ack.largestRecvPn

/-- Header of the next application packet. -/
def nextShortHeader (conn : Conn) : Bytes :=
  shortHeader conn.dcid (nextPnLen conn) conn.nextPktNum

/-- Where a header has its reserved room, it is encoded. -/
theorem nextShortHeader_fits (roomy : shortOverhead conn < maxLen) :
    pktEncodeShortHeader conn.dcid false false conn.nextPktNum (nextPnLen conn) maxLen =
      some (nextShortHeader conn) := by
  have bounds := pktNumLen_bounds conn.nextPktNum conn.ack.largestRecvPn
  apply pktEncodeShortHeader_fits _ _ bounds.1 bounds.2
  unfold shortOverhead at roomy
  omega

/-- Every way a call to send an application packet can end. -/
inductive ShortSent (evp : Evp) (env : Env) (conn : Conn) (maxLen : Nat) (nowUs : UInt64) :
    SendResult → Conn → Prop
  | cramped (short : maxLen ≤ shortOverhead conn) :
      ShortSent evp env conn maxLen nowUs .nothing conn
  | empty {b : SendBuild}
      (built : buildFrames env.turns conn (frameSpace conn maxLen) nowUs = some b)
      (roomy : shortOverhead conn < maxLen) (void : b.frames = []) :
      ShortSent evp env conn maxLen nowUs .nothing b.conn
  | refused {b : SendBuild}
      (built : buildFrames env.turns conn (frameSpace conn maxLen) nowUs = some b)
      (roomy : shortOverhead conn < maxLen) (filled : b.frames ≠ [])
      (closed : closePacket evp b.conn (nextShortHeader conn) (nextPnLen conn) b.frames = none) :
      ShortSent evp env conn maxLen nowUs .failed b.conn
  | sent {b : SendBuild} {bytes : Bytes} {next : Conn}
      (built : buildFrames env.turns conn (frameSpace conn maxLen) nowUs = some b)
      (roomy : shortOverhead conn < maxLen) (filled : b.frames ≠ [])
      (closed : closePacket evp b.conn (nextShortHeader conn) (nextPnLen conn) b.frames =
        some (bytes, next)) :
      ShortSent evp env conn maxLen nowUs (.datagram bytes)
        (accountSent env { b with conn := next } bytes.length nowUs)

/-- How a call to send an application packet can end. -/
theorem sendShortPacket_sent
    (called : sendShortPacket evp env conn maxLen nowUs = some (result, next)) :
    ShortSent evp env conn maxLen nowUs result next := by
  unfold sendShortPacket at called
  simp only at called
  split at called
  · cases called
    exact .cramped (by omega)
  · rename_i roomy
    rw [Option.bind_eq_bind, Option.bind_eq_some_iff] at called
    obtain ⟨b, built, called⟩ := called
    have roomy : shortOverhead conn < maxLen := by omega
    have assembles := buildFrames_assembles built
    split at called
    · rename_i void
      cases called
      exact .empty built roomy (by simpa using void)
    · rename_i filled
      -- Building leaves the identifier and the number alone, so the header has its reserved room.
      have headed := nextShortHeader_fits roomy
      unfold nextPnLen at headed
      rw [assembles.dcid, assembles.number, headed] at called
      simp only at called
      split at called
      · rename_i refused
        cases called
        exact .refused built roomy (by simpa using filled) refused
      · rename_i closed
        cases called
        exact .sent built roomy (by simpa using filled) closed

/-- Frames that were built and closed behind their header go out. -/
theorem sendShortPacket_of_built {bytes : Bytes} (roomy : shortOverhead conn < maxLen)
    (built : buildFrames env.turns conn (frameSpace conn maxLen) nowUs = some b)
    (filled : b.frames ≠ [])
    (closed : closePacket evp b.conn (nextShortHeader conn) (nextPnLen conn) b.frames =
      some (bytes, next)) :
    sendShortPacket evp env conn maxLen nowUs =
      some (.datagram bytes, accountSent env { b with conn := next } bytes.length nowUs) := by
  have assembles := buildFrames_assembles built
  have headed := nextShortHeader_fits roomy
  unfold nextPnLen at headed closed
  unfold sendShortPacket
  simp only
  rw [if_neg (by omega), built, Option.bind_eq_bind, Option.bind_some,
    if_neg (by simpa using filled), assembles.dcid, assembles.number, headed]
  simp only [closed]

/-- A connection without handshake data that may send and is not held back sends a packet. -/
theorem connSend_eq_short (evp : Evp) (env : Env) (maxLen : Nat)
    (quiet : conn.handshake.filter handshakeHasData = none)
    (live : conn.state = .established ∨ conn.state = .closing)
    (free : heldBack (conn.paced nowUs) = false) :
    connSend evp env conn maxLen nowUs =
      sendShortPacket evp env (conn.paced nowUs) maxLen nowUs := by
  unfold connSend
  simp only [quiet]
  rw [if_neg, free, if_neg Bool.false_ne_true]
  rcases live with state | state <;> simp [state]

/-- Whatever the handshake has left to send is the notice that it is done. -/
def Handshake.OnlyNotice (hs : Handshake) : Prop :=
  hs.sendHandshakeDone = true ∧ handshakeSendLevel hs = .application

/-- Every way a call to send something of the handshake can end. -/
inductive HandshakeSent (evp : Evp) (conn : Conn) (hs : Handshake) (maxLen : Nat) :
    SendResult → Conn → Prop
  | still {result : SendResult} (quiet : ∀ bytes, result ≠ .datagram bytes)
      (due : hs.OnlyNotice ∨ (longSpace hs (handshakeSendLevel hs)).2.1.available = false) :
      HandshakeSent evp conn hs maxLen result conn
  | taken {result : SendResult} (quiet : ∀ bytes, result ≠ .datagram bytes)
      (early : ¬ hs.OnlyNotice)
      (available : (longSpace hs (handshakeSendLevel hs)).2.1.available = true) :
      HandshakeSent evp conn hs maxLen result
        { conn with handshake := some (handshakeFillCrypto hs 512).2.2 }
  | done {bytes : Bytes} (last : hs.OnlyNotice) (available : hs.appKeys.available = true)
      (room : 1 + conn.dcid.len + 1 + 4 + aeadTagLen ≤ maxLen)
      (closed : sealPacket evp hs.appKeys (shortHeader conn.dcid 1 conn.nextPktNum) 1
        conn.nextPktNum (handshakeDoneFrames 1) = some bytes) :
      HandshakeSent evp conn hs maxLen (.datagram bytes)
        { conn.observe (.packetSealed .application hs.appKeys.send conn.nextPktNum) with
          nextPktNum := conn.nextPktNum + 1
          handshake := some { hs with sendHandshakeDone := false } }
  | crypto {level : CryptoLevel} {keys : CryptoState} {type : PacketType} {pktNum : UInt64}
      {frames hdr bytes : Bytes} (early : ¬ hs.OnlyNotice)
      (space : longSpace hs (handshakeSendLevel hs) = (level, keys, type, pktNum))
      (available : keys.available = true) (waiting : hs.sendOffset < hs.sendBuf.length)
      (encoded : frameEncodeCrypto (UInt64.ofNat (handshakeFillCrypto hs 512).1)
        (handshakeFillCrypto hs 512).2.1 1024 = some frames)
      (headed : pktEncodeLongHeader type versionCurrent conn.dcid conn.scid []
        (UInt64.ofNat (frames.length + aeadTagLen + 1)) pktNum 1 maxLen = some hdr)
      (closed : sealPacket evp keys hdr 1 pktNum frames = some bytes) :
      HandshakeSent evp conn hs maxLen (.datagram bytes)
        { conn.observe (.packetSealed level keys.send pktNum) with
          handshake := some (countLong (handshakeFillCrypto hs 512).2.2 level) }

theorem sendHandshakeDonePacket_sent (evp : Evp) (conn : Conn) (maxLen : Nat)
    (last : hs.OnlyNotice) :
    HandshakeSent evp conn hs maxLen (sendHandshakeDonePacket evp conn hs maxLen).1
      (sendHandshakeDonePacket evp conn hs maxLen).2 := by
  unfold sendHandshakeDonePacket
  simp only
  split
  · exact .still (by simp) (.inl last)
  · rename_i available
    split
    · exact .still (by simp) (.inl last)
    · rename_i room
      rw [pktEncodeShortHeader_fits _ _ (by decide) (by decide) (by omega)]
      simp only
      split
      · exact .still (by simp) (.inl last)
      · rename_i closed
        exact .done last (by simpa using available) (by omega) closed

/-- How a call to send handshake bytes can end. -/
theorem sendCryptoPacket_sent (evp : Evp) (conn : Conn) (maxLen : Nat) (early : ¬ hs.OnlyNotice) :
    HandshakeSent evp conn hs maxLen
      (sendCryptoPacket evp conn hs (handshakeSendLevel hs) maxLen).1
      (sendCryptoPacket evp conn hs (handshakeSendLevel hs) maxLen).2 := by
  unfold sendCryptoPacket
  rcases space : longSpace hs (handshakeSendLevel hs) with ⟨level, keys, type, pktNum⟩
  simp only
  split
  · rename_i keyless
    exact .still (by simp) (.inr (by simpa [space] using keyless))
  · rename_i keyed
    have available : keys.available = true := by simpa using keyed
    have taken {result : SendResult} (quiet : ∀ bytes, result ≠ .datagram bytes) :
        HandshakeSent evp conn hs maxLen result
          { conn with handshake := some (handshakeFillCrypto hs 512).2.2 } :=
      .taken quiet early (by rw [space]; exact available)
    split
    · exact taken (by simp)
    · rename_i found
      -- There was something to take, so the queue was not at its end.
      have waiting : hs.sendOffset < hs.sendBuf.length := by
        by_contra done
        have spent : hs.sendBuf.drop hs.sendOffset = [] := List.drop_of_length_le (by omega)
        simp [handshakeFillCrypto, spent] at found
      split
      · exact taken (by simp)
      · rename_i encoded
        split
        · exact taken (by simp)
        · rename_i headed
          split
          · exact taken (by simp)
          · rename_i closed
            exact .crypto early space available waiting encoded headed closed

/-- How a call to send something of the handshake can end. -/
theorem sendHandshakePacket_sent {hs : Handshake}
    (called : sendHandshakePacket evp conn hs maxLen = (result, next)) :
    HandshakeSent evp conn hs maxLen result next := by
  unfold sendHandshakePacket at called
  simp only at called
  split at called
  · rename_i last
    have sent := sendHandshakeDonePacket_sent evp conn maxLen last
    rwa [called] at sent
  · rename_i early
    have sent := sendCryptoPacket_sent evp conn maxLen early
    rwa [called] at sent

/-- Every way a call to send can end. -/
inductive ConnSent (evp : Evp) (env : Env) (conn : Conn) (maxLen : Nat) (nowUs : UInt64) :
    SendResult → Conn → Prop
  | handshake {hs : Handshake} {result : SendResult} {next : Conn}
      (waiting : conn.handshake.filter handshakeHasData = some hs)
      (sent : HandshakeSent evp { conn with lastActivityUs := nowUs } hs maxLen result next) :
      ConnSent evp env conn maxLen nowUs result next
  | closed (quiet : conn.handshake.filter handshakeHasData = none)
      (idle : conn.state ≠ .established ∧ conn.state ≠ .closing) :
      ConnSent evp env conn maxLen nowUs .nothing conn
  | held (quiet : conn.handshake.filter handshakeHasData = none)
      (busy : conn.state = .established ∨ conn.state = .closing)
      (paced : heldBack (conn.paced nowUs) = true) :
      ConnSent evp env conn maxLen nowUs .nothing (conn.paced nowUs)
  | short {result : SendResult} {next : Conn}
      (quiet : conn.handshake.filter handshakeHasData = none)
      (busy : conn.state = .established ∨ conn.state = .closing)
      (free : heldBack (conn.paced nowUs) = false)
      (sent : ShortSent evp env (conn.paced nowUs) maxLen nowUs result next) :
      ConnSent evp env conn maxLen nowUs result next

/-- How a call to send can end. -/
theorem connSend_sent (called : connSend evp env conn maxLen nowUs = some (result, next)) :
    ConnSent evp env conn maxLen nowUs result next := by
  unfold connSend at called
  split at called
  · rename_i waiting
    exact .handshake waiting (sendHandshakePacket_sent (Option.some.inj called))
  · rename_i quiet
    split at called
    · rename_i idle
      cases called
      exact .closed quiet idle
    · rename_i state
      have busy : conn.state = .established ∨ conn.state = .closing := by
        by_contra other
        rw [not_or] at other
        exact state other
      split at called
      · rename_i paced
        cases called
        exact .held quiet busy paced
      · rename_i free
        exact .short quiet busy (by simpa using free) (sendShortPacket_sent called)

/-- Telling the controller about a packet moves rates and the links of streams. -/
theorem ccOnSent_only (conn : Conn) (total : Nat) : ccOnSent conn total = { conn with
    cc := (ccOnSent conn total).cc
    pacer := (ccOnSent conn total).pacer
    streams := (ccOnSent conn total).streams
    schedHead := (ccOnSent conn total).schedHead
    deliveryRate := (ccOnSent conn total).deliveryRate } := by
  unfold ccOnSent
  split
  · rfl
  · rename_i bbr _
    have links := (schedNext_relinks { conn with
      cc := some (bbrOnSent bbr conn.ack.bytesInFlight)
      pacer := pacerOnSend conn.pacer (UInt32.ofNat total) }).only
    simp only
    -- Asking the ring for its next stream may move links, and nothing else.
    split
    all_goals
      rename_i asked result
      rw [result] at links
      have only : StreamsOnly _ asked := links
      rw [only]

/-- Remembering a packet counts it and moves what packets are counted and paced with. -/
theorem accountSent_only (env : Env) (b : SendBuild) (total : Nat) (nowUs : UInt64) :
    accountSent env b total nowUs = { b.conn with
      nextPktNum := b.conn.nextPktNum + 1
      ack := (accountSent env b total nowUs).ack
      cc := (accountSent env b total nowUs).cc
      pacer := (accountSent env b total nowUs).pacer
      deliveryRate := (accountSent env b total nowUs).deliveryRate
      streams := (accountSent env b total nowUs).streams
      schedHead := (accountSent env b total nowUs).schedHead
      stats := { b.conn.stats with
        bytesSent := b.conn.stats.bytesSent + UInt64.ofNat total } } := by
  unfold accountSent
  simp only
  rw [ccOnSent_only]

/-- Only what application packets are made of, counted and paced with may differ. -/
def ShipsOnly (before after : Conn) : Prop :=
  after = { before with
    nextPktNum := after.nextPktNum
    state := after.state
    ack := after.ack
    migration := after.migration
    heartbeat := after.heartbeat
    connFlow := after.connFlow
    sendPing := after.sendPing
    sendConnClose := after.sendConnClose
    cc := after.cc
    pacer := after.pacer
    deliveryRate := after.deliveryRate
    streams := after.streams
    schedHead := after.schedHead
    stats := { before.stats with bytesSent := after.stats.bytesSent }
    trace := after.trace }

/-- A call to send an application packet touches nothing else. -/
theorem ShortSent.ships (sent : ShortSent evp env conn maxLen nowUs result next) :
    ShipsOnly conn next := by
  have building {b : SendBuild}
      (built : buildFrames env.turns conn (frameSpace conn maxLen) nowUs = some b) :
      ShipsOnly conn b.conn := by
    unfold ShipsOnly
    rw [(buildFrames_assembles built).only]
  cases sent with
  | cramped => rfl
  | empty built => exact building built
  | refused built => exact building built
  | @sent b bytes closing built _ _ closed =>
    have assembled := building built
    unfold ShipsOnly at assembled ⊢
    rw [accountSent_only, (closePacket_seen closed).1, assembled]

/-- At most one packet is counted, at one level; if one is seen to be sealed, it is the next one of
its level and it is counted. -/
structure Counts (before after : Conn) : Prop where
  counted : ∃ level,
    (∀ other ≠ level, sealCounter after other = sealCounter before other) ∧
    ((after.trace = before.trace ∧ (sealCounter after level = sealCounter before level ∨
        sealCounter after level = sealCounter before level + 1)) ∨
      ∃ keys, after.trace =
          before.trace ++ [.packetSealed level keys (sealCounter before level)] ∧
        sealCounter after level = sealCounter before level + 1)
  idle : after.state = .idle → before.state = .idle
  handshake : before.handshake = none → after.handshake = none

theorem Counts.none {before after : Conn} (trace : after.trace = before.trace)
    (counters : ∀ level, sealCounter after level = sealCounter before level)
    (idle : after.state = .idle → before.state = .idle)
    (handshake : before.handshake = none → after.handshake = none) : Counts before after :=
  ⟨⟨.initial, fun other _ => counters other, .inl ⟨trace, .inl (counters .initial)⟩⟩, idle,
    handshake⟩

theorem Assembles.counts {before after : Conn} (assembles : Assembles before after) :
    Counts before after := by
  refine Counts.none assembles.trace (fun level => ?_) assembles.idle ?_
  · unfold sealCounter
    rw [assembles.handshake, assembles.number]
  · rw [assembles.handshake]
    exact id

theorem HandshakeSent.counts (present : conn.handshake = some hs)
    (sent : HandshakeSent evp conn hs maxLen result next) : Counts conn next := by
  have absurdity : conn.handshake = none → next.handshake = none := by
    rw [present]
    exact fun absent => by cases absent
  cases sent with
  | still => exact Counts.none rfl (fun _ => rfl) id id
  | taken =>
    refine Counts.none rfl (fun level => ?_) id absurdity
    cases level <;> simp [sealCounter, present, handshakeFillCrypto]
  | done last available room closed =>
    refine ⟨⟨.application, fun other differs => ?_, .inr ⟨_, rfl, rfl⟩⟩, id, absurdity⟩
    cases other with
    | application => exact absurd rfl differs
    | initial => simp [sealCounter, present]
    | handshake => simp [sealCounter, present]
  | @crypto level keys type pktNum _ _ _ early space =>
    -- The number is the one that is counted at the level of the packet.
    have counter : pktNum = sealCounter conn level ∧ level ≠ .application := by
      revert space
      cases handshakeSendLevel hs <;> rintro ⟨⟩ <;> simp [sealCounter, present]
    obtain ⟨rfl, early⟩ := counter
    refine ⟨⟨level, fun other differs => ?_, .inr ⟨keys.send, rfl, ?_⟩⟩, id, absurdity⟩
    · cases level <;> cases other <;>
        simp_all [sealCounter, countLong, Conn.observe, handshakeFillCrypto]
    · cases level <;> simp_all [sealCounter, countLong, handshakeFillCrypto]

/-- An application packet is counted, and sealed under its number if it is sealed. -/
theorem ShortSent.counts (sent : ShortSent evp env conn maxLen nowUs result next) :
    Counts conn next := by
  cases sent with
  | cramped => exact Counts.none rfl (fun _ => rfl) id id
  | empty built => exact (buildFrames_assembles built).counts
  | refused built => exact (buildFrames_assembles built).counts
  | @sent b bytes closing built _ _ closed =>
    have assembles := buildFrames_assembles built
    obtain ⟨only, seen⟩ := closePacket_seen closed
    have account := accountSent_only env { b with conn := closing } bytes.length nowUs
    generalize accountSent env { b with conn := closing } bytes.length nowUs = next at account ⊢
    have number : closing.nextPktNum = conn.nextPktNum :=
      (congrArg Conn.nextPktNum only :).trans assembles.number
    have counted : sealCounter next .application = sealCounter conn .application + 1 :=
      (congrArg Conn.nextPktNum account :).trans (congrArg (· + 1) number)
    have untouched : next.handshake = conn.handshake := (congrArg Conn.handshake account :).trans
      ((congrArg Conn.handshake only :).trans assembles.handshake)
    have state : next.state = b.conn.state :=
      (congrArg Conn.state account :).trans (congrArg Conn.state only :)
    refine ⟨⟨.application, fun other differs => ?_, ?_⟩, ?_, ?_⟩
    · cases other with
      | application => exact absurd rfl differs
      | initial => simp only [sealCounter, untouched]
      | handshake => simp only [sealCounter, untouched]
    · rw [show next.trace = closing.trace from (congrArg Conn.trace account :)]
      rcases seen with seen | ⟨keys, seen⟩
      · exact .inl ⟨seen.trans assembles.trace, .inr counted⟩
      · refine .inr ⟨keys, ?_, counted⟩
        rw [seen, assembles.trace, assembles.number]
        rfl
    · rw [state]
      exact assembles.idle
    · rw [untouched]
      exact id

/-- A call to send counts at most one packet. -/
theorem ConnSent.counts (sent : ConnSent evp env conn maxLen nowUs result next) :
    Counts conn next := by
  cases sent with
  | @handshake hs _ _ waiting sent =>
    have touched : { conn with lastActivityUs := nowUs }.handshake = some hs :=
      (Option.filter_eq_some_iff.mp waiting).1
    have counts := sent.counts touched
    exact ⟨counts.counted, counts.idle, counts.handshake⟩
  | closed => exact Counts.none rfl (fun _ => rfl) id id
  | held => exact Counts.none rfl (fun level => by cases level <;> rfl) id id
  | short _ _ _ sent =>
    have counts := sent.counts
    exact ⟨counts.counted, counts.idle, counts.handshake⟩

/-- What the control frames about paths and heartbeats are taken from. -/
def Conn.asides (conn : Conn) : MigrationState × Heartbeat := (conn.migration, conn.heartbeat)

section Asides

variable (invariant : Conn → Prop)
  (aside : ∀ {before after : Conn}, invariant before → after.asides = before.asides →
    invariant after)
  (clears : ∀ {before after : Conn} {frame : Frame}, invariant before →
    Clears before frame after → invariant after)
include aside clears

theorem buildFrames_asides {space : Nat}
    (built : buildFrames turns conn space nowUs = some b) (start : invariant conn) :
    invariant b.conn := by
  refine buildFrames_invariant (fun b => invariant b.conn) ?_
    (fun _ _ _ before turned => aside before (congrArg Conn.asides turned.only :)) built
  refine Conn.controls_invariant (fun b => invariant b.conn) start fun b b' before staged => ?_
  cases staged with
  | put eliciting cleared encoded => exact clears before cleared
  | taken waiting => exact aside before rfl

/-- What control frames keep, a call to send keeps. -/
theorem ConnSent.asides (sent : ConnSent evp env conn maxLen nowUs result next)
    (start : invariant conn) : invariant next := by
  cases sent with
  | handshake waiting sent => cases sent <;> exact aside start rfl
  | closed => exact start
  | held => exact aside start rfl
  | short quiet busy free sent =>
    have paced : invariant (conn.paced nowUs) := aside start rfl
    cases sent with
    | cramped short => exact paced
    | empty built roomy void => exact buildFrames_asides invariant aside clears built paced
    | refused built roomy filled closed => exact buildFrames_asides invariant aside clears built paced
    | @sent b bytes after built roomy filled closed =>
      refine aside (buildFrames_asides invariant aside clears built paced) ?_
      rw [accountSent_only, (closePacket_seen closed).1]
      rfl

end Asides

end Nxp
