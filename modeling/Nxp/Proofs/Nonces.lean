import Nxp.Core.RecvLaws
import Nxp.Core.SendLaws
import Nxp.Crypto.SealLaws
import Nxp.Lib.Counter

/-! That no two packets are sealed under the same keys with the same nonce. -/

namespace Nxp

variable {calls space : Nat} {conn next : Conn} {evp : Evp} {env : Env}

/-- Keys and number of a packet sealed at a level. -/
def ConnEvent.sealedAt (level : CryptoLevel) : ConnEvent → Option (CryptoKeys × UInt64)
  | .packetSealed stage keys pktNum => if stage = level then some (keys, pktNum) else none
  | _ => none

/-- The packets sealed at a level, in the order of their sealing. -/
def sealedPackets (level : CryptoLevel) (trace : List ConnEvent) : List (CryptoKeys × UInt64) :=
  trace.filterMap (ConnEvent.sealedAt level)

/-- Keys and nonce of every packet sealed at a level. -/
def sealedNonces (level : CryptoLevel) (trace : List ConnEvent) : List (CryptoKeys × Nonce) :=
  (sealedPackets level trace).map fun packet => (packet.1, cryptoMakeNonce packet.1.iv packet.2)

/-- After some calls to send, the numbers of every level were issued by its counter, and a
connection that can start a handshake has none. -/
structure Numbered (calls : Nat) (conn : Conn) : Prop where
  unstarted : conn.state = .idle → conn.handshake = none
  issued : ∀ level, Counter.Issued ((sealedPackets level conn.trace).map (·.2))
    (sealCounter conn level) calls

theorem sealedPackets_append {level : CryptoLevel} {trace events : List ConnEvent}
    (silent : ∀ event ∈ events, ∀ level keys pktNum, event ≠ .packetSealed level keys pktNum) :
    sealedPackets level (trace ++ events) = sealedPackets level trace := by
  have unsealed : events.filterMap (ConnEvent.sealedAt level) = [] := by
    rw [List.filterMap_eq_nil_iff]
    intro event member
    cases event with
    | packetSealed stage keys pktNum => exact absurd rfl (silent _ member stage keys pktNum)
    | _ => rfl
  unfold sealedPackets
  rw [List.filterMap_append, unsealed, List.append_nil]

theorem sealedPackets_snoc (level : CryptoLevel) (trace : List ConnEvent) (event : ConnEvent) :
    sealedPackets level (trace ++ [event]) =
      sealedPackets level trace ++ (event.sealedAt level).toList := by
  unfold sealedPackets
  rw [List.filterMap_append]
  cases found : event.sealedAt level <;> simp [found]

/-- Events that seal nothing leave the packets numbered. -/
theorem Numbered.emits {allowed : ConnEvent → Prop} (numbered : Numbered calls conn)
    (emits : Emits allowed conn next) (silent : ∀ event, allowed event → ∀ level keys pktNum,
      event ≠ .packetSealed level keys pktNum) : Numbered calls next := by
  obtain ⟨events, trace, sound⟩ := emits.events
  refine ⟨fun idle => emits.handshake (numbered.unstarted (emits.idle idle)), fun level => ?_⟩
  rw [trace, sealedPackets_append fun event member => silent event (sound event member),
    emits.counters]
  exact numbered.issued level

/-- Sending issues at most the next number of one level. -/
theorem Numbered.counts (numbered : Numbered calls conn) (few : calls + 1 < 2 ^ 64)
    (counts : Counts conn next) : Numbered (calls + 1) next := by
  refine ⟨fun idle => counts.handshake (numbered.unstarted (counts.idle idle)), fun level => ?_⟩
  have before := numbered.issued level
  obtain ⟨moved, others, ⟨same, still | counted⟩ | ⟨keys, trace, counted⟩⟩ := counts.counted
  · -- Nothing was sealed and nothing counted.
    rw [same]
    by_cases here : level = moved
    · rw [here, still, ← here]
      exact before.wait
    · rw [others level here]
      exact before.wait
  · rw [same]
    by_cases here : level = moved
    · rw [here, counted, ← here]
      exact before.skip few
    · rw [others level here]
      exact before.wait
  · -- One packet was sealed under the number that its level had next.
    rw [trace, sealedPackets_snoc, List.map_append]
    by_cases here : level = moved
    · subst here
      rw [counted]
      simpa [ConnEvent.sealedAt] using before.issue few
    · rw [others level here]
      simpa [ConnEvent.sealedAt, Ne.symm here] using before.wait

theorem handshakeStartClient_numbers (evp : Evp) (hs : Handshake) (serverDcid : ConnId) :
    (handshakeStartClient evp hs serverDcid).2.initialPn = hs.initialPn ∧
      (handshakeStartClient evp hs serverDcid).2.handshakePn = hs.handshakePn := by
  unfold handshakeStartClient
  split
  · exact ⟨rfl, rfl⟩
  · simp only
    split
    · exact ⟨rfl, rfl⟩
    · unfold openClient
      simp only
      split <;> exact ⟨rfl, rfl⟩

theorem handshakeStartServer_numbers (evp : Evp) (hs : Handshake) (localScid : ConnId) :
    (handshakeStartServer evp hs localScid).2.initialPn = hs.initialPn ∧
      (handshakeStartServer evp hs localScid).2.handshakePn = hs.handshakePn := by
  unfold handshakeStartServer
  split
  · exact ⟨rfl, rfl⟩
  · simp only
    split <;> exact ⟨rfl, rfl⟩

/-- A handshake opened on an idle connection numbers no packet and leaves the idle state. -/
theorem openHandshake_numbers (evp : Evp) (idle : conn.state = .idle) (hs : Handshake)
    (peerCid : ConnId) :
    (openHandshake evp conn hs peerCid).1.2.initialPn = hs.initialPn ∧
      (openHandshake evp conn hs peerCid).1.2.handshakePn = hs.handshakePn ∧
      (openHandshake evp conn hs peerCid).2.handshake = conn.handshake ∧
      (openHandshake evp conn hs peerCid).2.state = .handshakeInitial := by
  have moved {conn : Conn} (idle : conn.state = .idle) :
      setConnState conn .handshakeInitial = { conn with state := .handshakeInitial } := by
    unfold setConnState
    rw [idle]
    rfl
  unfold openHandshake
  split
  · rw [moved idle]
    exact ⟨(handshakeStartServer_numbers evp hs peerCid).1,
      (handshakeStartServer_numbers evp hs peerCid).2, rfl, rfl⟩
  · rw [moved (by exact idle)]
    exact ⟨(handshakeStartClient_numbers evp hs peerCid).1,
      (handshakeStartClient_numbers evp hs peerCid).2, rfl, rfl⟩

/-- A connection that asks for a handshake either keeps the one it has or leaves the idle state with
a new one. -/
theorem connStartHandshake_begins (evp : Evp) (env : Env) (conn : Conn) (peerCid : ConnId) :
    ((connStartHandshake evp env conn peerCid).2.handshake = conn.handshake ∧
        ((connStartHandshake evp env conn peerCid).2.state = .idle → conn.state = .idle)) ∨
      (conn.state = .idle ∧
        (connStartHandshake evp env conn peerCid).2.state = .handshakeInitial ∧
        ∃ hs, (connStartHandshake evp env conn peerCid).2.handshake = some hs ∧
          hs.initialPn = 0 ∧ hs.handshakePn = 0) := by
  unfold connStartHandshake
  split
  · exact .inl ⟨rfl, id⟩
  · rename_i idle
    have idle := not_not.mp idle
    split
    · exact .inl ⟨rfl, id⟩
    · rename_i privkey _
      split
      · exact .inl ⟨rfl, id⟩
      · obtain ⟨initialPn, handshakePn, kept, state⟩ := openHandshake_numbers evp idle
          (handshakeSetLocalParams (handshakeCreate evp conn.isServer privkey)
            (localTransportParams conn)) peerCid
        simp only
        split
        · rename_i result
          rw [result] at initialPn handshakePn state
          exact .inr ⟨idle, state, _, rfl, initialPn, handshakePn⟩
        · rename_i result
          rw [result] at kept
          refine .inl ⟨?_, fun _ => idle⟩
          unfold setConnState
          split
          · exact kept
          · exact kept

/-- So does the start of a handshake. -/
theorem connStartHandshake_numbered {peerCid : ConnId} (numbered : Numbered calls conn) :
    Numbered calls (connStartHandshake evp env conn peerCid).2 := by
  have only := connStartHandshake_only evp env conn peerCid
  have number : (connStartHandshake evp env conn peerCid).2.nextPktNum = conn.nextPktNum :=
    (congrArg Conn.nextPktNum only :)
  rcases connStartHandshake_begins evp env conn peerCid with
    ⟨kept, idle⟩ | ⟨idle, state, hs, begun, initialPn, handshakePn⟩
  · refine ⟨fun still => kept.trans (numbered.unstarted (idle still)), fun level => ?_⟩
    have counter : sealCounter (connStartHandshake evp env conn peerCid).2 level =
        sealCounter conn level := by
      cases level <;> simp [sealCounter, kept, number]
    rw [only.trace, counter]
    exact numbered.issued level
  · have begins : (connStartHandshake evp env conn peerCid).2.state ≠ .idle := by
      rw [state]
      decide
    refine ⟨fun still => absurd still begins, fun level => ?_⟩
    -- No handshake and a new one have the same counters.
    have counter : sealCounter (connStartHandshake evp env conn peerCid).2 level =
        sealCounter conn level := by
      cases level <;> simp [sealCounter, begun, numbered.unstarted idle, initialPn, handshakePn,
        number]
    rw [only.trace, counter]
    exact numbered.issued level

/-- How many packets an operation may seal. -/
def ConnOp.sends : ConnOp → Nat
  | .send _ _ => 1
  | _ => 0

/-- Every operation keeps the numbers issued. -/
theorem connStep_numbered {op : ConnOp}
    (numbered : Numbered calls conn) (few : calls + op.sends < 2 ^ 64)
    (stepped : connStep evp conn (env, op) = some next) : Numbered (calls + op.sends) next := by
  have reports (event : ConnEvent) (report : event.Report) (level : CryptoLevel)
      (keys : CryptoKeys) (pktNum : UInt64) : event ≠ .packetSealed level keys pktNum := by
    rintro rfl
    exact report
  by_cases here : op.Local
  · have same : op.sends = 0 := by cases op <;> first | rfl | exact here.elim
    rw [same]
    exact numbered.emits (connStep_local here stepped) reports
  · cases op with
    | startHandshake peerCid =>
      cases stepped
      exact connStartHandshake_numbered numbered
    | recv data nowUs =>
      cases stepped
      let unsealing (event : ConnEvent) : Prop :=
        ∀ level keys pktNum, event ≠ .packetSealed level keys pktNum
      have emits : Emits unsealing conn (connRecv evp env conn data nowUs).2 :=
        connRecv_emits reports evp env conn data nowUs fun _ _ _ _ _ _ _ _ _ _ _ => nofun
      exact numbered.emits emits fun _ allowed => allowed
    | send maxLen nowUs =>
      simp only [connStep, Option.map_eq_some_iff] at stepped
      obtain ⟨⟨result, _⟩, sent, rfl⟩ := stepped
      exact numbered.counts few (connSend_sent sent).counts
    | _ => exact absurd trivial here

/-- While there are fewer than 2^64 calls to send, the packets of a level have ever larger numbers
and no two of them share keys and nonce. -/
theorem sealed_numbers_increasing (evp : Evp) (config : ConnConfig) (isServer allocCc : Bool)
    (inputs : List (Env × ConnOp)) (final : Conn)
    (few : (inputs.map fun input => input.2.sends).sum < 2 ^ 64)
    (reached : Machine.attempt (connStep evp) (connCreate config isServer allocCc) inputs =
      some final) (level : CryptoLevel) :
    ((sealedPackets level final.trace).map (·.2)).Pairwise (· < ·) ∧
      (sealedNonces level final.trace).Nodup := by
  have start : Numbered 0 (connCreate config isServer allocCc) := by
    refine ⟨fun _ => rfl, fun level => ?_⟩
    cases level <;> exact Counter.Issued.start
  have numbered : Numbered (0 + (inputs.map fun input => input.2.sends).sum) final :=
    Machine.attempt_counted (fun input => input.2.sends) Numbered
      (fun _ _ _ _ few numbered stepped => connStep_numbered numbered few stepped) start
      (by omega) reached
  have increasing := (numbered.issued level).increasing
  refine ⟨increasing, ?_⟩
  -- Equal nonces under equal keys come from equal numbers, and no number is used twice.
  unfold sealedNonces
  rw [List.pairwise_map] at increasing
  rw [List.nodup_iff_pairwise_ne, List.pairwise_map]
  refine increasing.imp fun {earlier later} smaller same => ?_
  obtain ⟨keys, nonce⟩ := Prod.mk.inj same
  rw [keys] at nonce
  rw [cryptoMakeNonce_injective _ nonce] at smaller
  exact UInt64.lt_irrefl _ smaller

/-- A connection with keys that has nothing to send. -/
structure Idling (conn : Conn) : Prop where
  keys : conn.crypto.available = true
  handshake : conn.handshake.filter handshakeHasData = none
  state : conn.state = .established ∨ conn.state = .closing
  ack : conn.ack.ackNeeded = false
  ping : conn.sendPing = false
  limit : conn.connFlow.sendMaxData = false
  migration : migrationHasPending conn.migration = false
  heartbeat : heartbeatHasPending conn.heartbeat = false
  controller : conn.cc = none
  ring : conn.schedHead = none

namespace Idling

theorem allowed (idling : Idling conn) : ccAllows conn = true := by
  unfold ccAllows
  rw [idling.controller]

theorem noTurn (idling : Idling conn) : schedNext conn = (none, conn) := by
  unfold schedNext
  rw [idling.ring]

theorem paced (idling : Idling conn) (nowUs : UInt64) : Idling
    (conn.paced nowUs) :=
  ⟨idling.keys, idling.handshake, idling.state, idling.ack, idling.ping, idling.limit,
    idling.migration, idling.heartbeat, idling.controller, idling.ring⟩

theorem room (idling : Idling conn) :
    shortOverhead conn ≤ 41 ∧ 4 ≤ frameSpace conn 1536 := by
  have overhead : shortOverhead conn ≤ 41 := by
    have long := conn.dcid.bounded
    have number := pktNumLen_bounds conn.nextPktNum conn.ack.largestRecvPn
    unfold shortOverhead
    rw [idling.keys, if_pos rfl]
    unfold ConnId.len maxCidLen aeadTagLen at *
    omega
  refine ⟨overhead, ?_⟩
  unfold frameSpace packetBufSize
  exact Nat.le_min.mpr ⟨by omega, by decide⟩

end Idling

/-- The connection once it was asked to close. -/
def Conn.toClose (conn : Conn) : Conn := { conn with sendConnClose := true, closeErrorCode := 0 }

/-- The connection after it has announced that it closes. -/
def Conn.announced (conn : Conn) : Conn :=
  { conn with sendConnClose := false, closeErrorCode := 0, state := .closing }

/-- The only frame of an idle connection that closes is the one that says so. -/
theorem putControl_close (idling : Idling conn) (room : 3 ≤ space) (nowUs : UInt64) :
    SendBuild.putControl ⟨conn.toClose, [], false, FrameRecords.empty⟩ space nowUs =
      ⟨conn.announced, [0x1D, 0, 0], true, FrameRecords.empty⟩ := by
  have moved : setConnState { conn with sendConnClose := false, closeErrorCode := 0 } .closing =
      conn.announced := by
    unfold setConnState
    rcases idling.state with state | state
    · rw [if_neg (by rw [state]; decide)]
      rfl
    · rw [if_pos (by rw [state]; rfl)]
      unfold Conn.announced
      rw [state]
  have frame : frameEncodeConnectionClose ⟨0, 0, [], true⟩ space = some [0x1D, 0, 0] := by
    have first : ¬ space = 0 := by omega
    have second : ¬ space ≤ 1 := by omega
    have third : ¬ space ≤ 2 := by omega
    have room1 : ¬ space - 1 = 0 := by omega
    have room2 : ¬ space - 2 = 0 := by omega
    simp [frameEncodeConnectionClose, encodeVarints, encodeVarint, varintEncode, first, second,
      third, room1, room2]
  have migration := idling.migration
  have heartbeat := idling.heartbeat
  simp only [migrationHasPending, Bool.or_eq_false_iff, Bool.not_eq_false', List.isEmpty_iff]
    at migration
  simp only [heartbeatHasPending, Bool.or_eq_false_iff] at heartbeat
  -- Nothing else is asked for, so every other frame is passed over.
  simp only [Conn.toClose, SendBuild.putControl, SendBuild.putAck, SendBuild.putClose, SendBuild.putPing,
    SendBuild.putMaxData, SendBuild.putPathResponse, SendBuild.putPathChallenge,
    SendBuild.putRetireCid, SendBuild.putEcho, SendBuild.putHeartbeat, SendBuild.putWhen,
    SendBuild.put, idling.ack, List.length_nil, Nat.sub_zero, frame, moved, Bool.false_eq_true,
    if_true, if_false]
  simp [Conn.announced, idling.ping, flowShouldUpdate, idling.limit, migration, heartbeat,
    SendBuild.putNewCids]

theorem Idling.announced (idling : Idling conn) : Idling conn.announced :=
  ⟨idling.keys, idling.handshake, .inr rfl, idling.ack, idling.ping, idling.limit,
    idling.migration, idling.heartbeat, idling.controller, idling.ring⟩

/-- An idle connection that closes builds CONNECTION_CLOSE alone. -/
theorem buildFrames_close (idling : Idling conn) (room : 4 ≤ space) (nowUs : UInt64) :
    buildFrames plainEnv.turns conn.toClose space nowUs =
      some ⟨conn.announced, [0x1D, 0, 0], true, FrameRecords.empty⟩ := by
  unfold buildFrames
  simp only [putControl_close idling (Nat.le_of_succ_le room) nowUs]
  rw [if_pos idling.announced.allowed]
  -- The ring is empty, so the first turn ends the loop.
  show streamLoop space nowUs (7 + 1) _ = _
  unfold streamLoop
  rw [if_pos ⟨room, rfl⟩]
  unfold streamTurn
  simp only [idling.announced.noTurn]

/-- An idle connection that closes seals one packet under its next number. -/
theorem connSend_close (idling : Idling conn) (cipher : getCipher conn.crypto.algo = true)
    (nowUs : UInt64) :
    ∃ b bytes, connSend plainEvp plainEnv conn.toClose 1536 nowUs =
        some (.datagram bytes, accountSent plainEnv b bytes.length nowUs) ∧
      Idling b.conn ∧ b.conn.crypto = conn.crypto ∧ b.conn.nextPktNum = conn.nextPktNum ∧
      b.conn.trace =
        conn.trace ++ [.packetSealed .application conn.crypto.send conn.nextPktNum] := by
  have paced := idling.paced nowUs
  obtain ⟨overhead, room⟩ := paced.room
  -- What is to be sent is not subject to pacing.
  have free : heldBack (conn.toClose.paced nowUs) = false := by
    simp [heldBack, hasControlFrames, Conn.toClose, Conn.paced]
  have quiet : conn.toClose.handshake.filter handshakeHasData = none := idling.handshake
  rw [connSend_eq_short plainEvp plainEnv 1536 quiet idling.state free]
  have overhead : shortOverhead (conn.toClose.paced nowUs) < 1536 := by
    have same : shortOverhead (conn.toClose.paced nowUs) = shortOverhead (conn.paced nowUs) := rfl
    omega
  have built : buildFrames plainEnv.turns (conn.toClose.paced nowUs)
      (frameSpace (conn.toClose.paced nowUs) 1536) nowUs =
      some ⟨(conn.paced nowUs).announced, [0x1D, 0, 0], true, FrameRecords.empty⟩ :=
    buildFrames_close paced room nowUs
  obtain ⟨bytes, closed⟩ : ∃ bytes, closePacket plainEvp (conn.paced nowUs).announced
      (nextShortHeader (conn.toClose.paced nowUs)) (nextPnLen (conn.toClose.paced nowUs))
      [0x1D, 0, 0] = some (bytes, (conn.paced nowUs).announced.observe
        (.packetSealed .application conn.crypto.send conn.nextPktNum)) := by
    unfold closePacket sealPacket aeadEncrypt
    rw [if_pos (by exact idling.keys), if_pos (by exact cipher)]
    exact ⟨_, rfl⟩
  have still := paced.announced
  exact ⟨_, bytes, sendShortPacket_of_built overhead built (by simp) closed,
    ⟨still.keys, still.handshake, still.state, still.ack, still.ping, still.limit,
      still.migration, still.heartbeat, still.controller, still.ring⟩, rfl, rfl, rfl⟩

theorem Idling.accountSent {b : SendBuild} (idling : Idling b.conn) (env : Env) (total : Nat)
    (nowUs : UInt64) :
    Idling (accountSent env b total nowUs) ∧
      (Nxp.accountSent env b total nowUs).crypto = b.conn.crypto ∧
      (Nxp.accountSent env b total nowUs).nextPktNum = b.conn.nextPktNum + 1 ∧
      (Nxp.accountSent env b total nowUs).trace = b.conn.trace := by
  have tracked (pkt : SentPkt) : (ackOnPktSent b.conn.ack pkt env.allocSent).ackNeeded = false := by
    unfold ackOnPktSent
    split <;> exact idling.ack
  unfold Nxp.accountSent ccOnSent
  -- There is no controller to be told.
  simp only [idling.controller]
  exact ⟨⟨idling.keys, idling.handshake, idling.state, tracked _, idling.ping, idling.limit,
    idling.migration, idling.heartbeat, rfl, idling.ring⟩, trivial, trivial, trivial⟩

/-- One round: ask for the connection to be closed, and send. -/
def closingRound : List (Env × ConnOp) := [(plainEnv, .initiateClose 0), (plainEnv, .send 1536 0)]

/-- Each round of closing seals one packet. -/
theorem closingRound_seals (idling : Idling conn) (cipher : getCipher conn.crypto.algo = true) :
    ∃ next, Machine.attempt (connStep plainEvp) conn closingRound = some next ∧ Idling next ∧
      next.crypto = conn.crypto ∧ next.nextPktNum = conn.nextPktNum + 1 ∧
      next.trace =
        conn.trace ++ [.packetSealed .application conn.crypto.send conn.nextPktNum] := by
  have asked : (connInitiateClose conn 0).2 = conn.toClose := by
    unfold connInitiateClose
    rw [if_neg]
    · rfl
    · rcases idling.state with state | state <;> simp [state]
  obtain ⟨b, bytes, sent, still, crypto, number, trace⟩ := connSend_close idling cipher 0
  obtain ⟨idle, keptCrypto, counted, seen⟩ := still.accountSent plainEnv bytes.length 0
  refine ⟨_, ?_, idle, keptCrypto.trans crypto, ?_, seen.trans trace⟩
  · simp only [closingRound, Machine.attempt_cons, connStep, asked, sent, Option.bind_some,
      Option.map_some, Machine.attempt_nil]
  · rw [counted, number]

/-- Rounds without end seal under one number after the other, the counter going around. -/
theorem closingRounds_seal (rounds : Nat) (idling : Idling conn)
    (cipher : getCipher conn.crypto.algo = true) :
    ∃ next, Machine.attempt (connStep plainEvp) conn
        (List.replicate rounds closingRound).flatten = some next ∧
      next.trace = conn.trace ++ (List.range rounds).map fun i =>
        .packetSealed .application conn.crypto.send (conn.nextPktNum + UInt64.ofNat i) := by
  -- The induction is on the rounds, each starting where the one before it ended.
  induction rounds generalizing conn with
  | zero => exact ⟨conn, rfl, by simp⟩
  | succ rounds ih =>
    obtain ⟨middle, first, still, crypto, number, trace⟩ := closingRound_seals idling cipher
    obtain ⟨next, rest, ends⟩ := ih still (by rw [crypto]; exact cipher)
    refine ⟨next, ?_, ?_⟩
    · rw [List.replicate_succ, List.flatten_cons, Machine.attempt_append, first, Option.bind_some,
        rest]
    · rw [ends, trace, crypto, number, List.range_succ_eq_map, List.map_cons, List.map_map,
        List.append_assoc, List.singleton_append]
      congr 2
      · simp
      · apply List.map_congr_left
        intro i _
        simp only [Function.comp_apply]
        congr 1
        rw [UInt64.add_assoc]
        congr 1
        apply UInt64.toNat_inj.mp
        simp [Nat.add_comm]

/-- The first datagram of a client. -/
def firstHello : Bytes :=
  ((connSend plainEvp plainEnv startedClient 1200 0).map fun sent => sent.1.bytes).getD []

/-- A server that has answered a client and confirmed the handshake. -/
def servingRun : List (Env × ConnOp) :=
  [(plainEnv, .startHandshake ConnId.empty), (plainEnv, .recv firstHello 0),
    (plainEnv, .send 1200 0), (plainEnv, .send 1200 0)]

/-- The server where that run ends. -/
def servingServer : Conn :=
  (Machine.attempt (connStep plainEvp) (connCreate plainConfig true false) servingRun).getD
    (connCreate plainConfig true false)

/-- A run reaches the serving server. -/
theorem servingServer_reached :
    Machine.attempt (connStep plainEvp) (connCreate plainConfig true false) servingRun =
      some servingServer := by
  have returns : (Machine.attempt (connStep plainEvp) (connCreate plainConfig true false)
      servingRun).isSome = true := by decide +kernel
  obtain ⟨conn, reached⟩ := Option.isSome_iff_exists.mp returns
  unfold servingServer
  rw [reached, Option.getD_some]

theorem servingServer_idling : Idling servingServer := by
  have all : servingServer.crypto.available = true ∧
      servingServer.handshake.filter handshakeHasData = none ∧
      servingServer.state = .established ∧ servingServer.ack.ackNeeded = false ∧
      servingServer.sendPing = false ∧ servingServer.connFlow.sendMaxData = false ∧
      migrationHasPending servingServer.migration = false ∧
      heartbeatHasPending servingServer.heartbeat = false ∧ servingServer.cc = none ∧
      servingServer.schedHead = none := by decide +kernel
  obtain ⟨keys, handshake, state, ack, ping, limit, migration, heartbeat, cc, ring⟩ := all
  exact ⟨keys, handshake, .inl state, ack, ping, limit, migration, heartbeat, cc, ring⟩

/-- The server that then closes numbers its notice and its close one after the other. -/
theorem sealed_numbers_increasing_closed :
    ∃ final, Machine.attempt (connStep plainEvp) (connCreate plainConfig true false)
        (servingRun ++ closingRound) = some final ∧
      (sealedPackets .application final.trace).map (·.2) = [0, 1] ∧
      ((sealedPackets .application final.trace).map (·.2)).Pairwise (· < ·) ∧
      (sealedNonces .application final.trace).Nodup := by
  have ran : (Machine.attempt (connStep plainEvp) (connCreate plainConfig true false)
      (servingRun ++ closingRound)).map
        (fun final => (sealedPackets .application final.trace).map (·.2)) = some [0, 1] := by
    decide +kernel
  obtain ⟨final, reached, numbers⟩ := Option.map_eq_some_iff.mp ran
  exact ⟨final, reached, numbers, sealed_numbers_increasing plainEvp plainConfig true false
    _ final (by decide) reached .application⟩

/-- A server asked to close more than 2^64 times seals two packets under the same keys and nonce. -/
theorem closing_reuses_nonce :
    ∃ inputs final, Machine.attempt (connStep plainEvp) (connCreate plainConfig true false) inputs =
        some final ∧
      ¬ ((sealedPackets .application final.trace).map (·.2)).Pairwise (· < ·) ∧
      ¬ (sealedNonces .application final.trace).Nodup := by
  obtain ⟨rounds, many⟩ : ∃ rounds : Nat, 2 ^ 64 < rounds := ⟨_, Nat.lt_succ_self _⟩
  obtain ⟨final, reached, trace⟩ := closingRounds_seal rounds servingServer_idling
    (by decide +kernel)
  refine ⟨servingRun ++ (List.replicate rounds closingRound).flatten, final, ?_, ?_⟩
  · rw [Machine.attempt_append, servingServer_reached, Option.bind_some, reached]
  have packets : sealedPackets .application final.trace =
      sealedPackets .application servingServer.trace ++ (List.range rounds).map fun i =>
        (servingServer.crypto.send, servingServer.nextPktNum + UInt64.ofNat i) := by
    rw [trace]
    unfold sealedPackets
    rw [List.filterMap_append, List.filterMap_map]
    simp [ConnEvent.sealedAt, Function.comp_def, List.filterMap_eq_map']
  -- The counter goes around, so both the numbers and the nonces repeat.
  constructor
  · intro increasing
    have distinct : ((sealedPackets .application final.trace).map (·.2)).Nodup :=
      increasing.imp fun smaller => UInt64.ne_of_lt smaller
    rw [packets, List.map_append, List.map_map] at distinct
    exact Counter.not_nodup_of_many id _ servingServer.nextPktNum many distinct
  · unfold sealedNonces
    rw [packets, List.map_append, List.map_map]
    exact Counter.not_nodup_of_many (fun pktNum =>
      (servingServer.crypto.send, cryptoMakeNonce servingServer.crypto.send.iv pktNum)) _
      servingServer.nextPktNum many

end Nxp
