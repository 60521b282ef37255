import Nxp.Core.Payload
import Nxp.Core.RecvLaws
import Nxp.Core.SendLaws

/-! The elementary acts on streams, ring and credit that every operation of a connection consists
of. -/

namespace Nxp

variable {before after next : Conn} {evp : Evp} {nowUs : UInt64} {space : Nat} {b : SendBuild}
  {env : Env} {input : Env × ConnOp}

/-- The part of a connection that the transfer of stream data depends on. -/
structure Carriage where
  streams : StreamMap
  schedHead : Option UInt64
  connFlow : FlowCtrl
  isServer : Bool
  initialMaxStreamData : UInt64
  localMaxStreamsBidi : UInt32
  localMaxStreamsUni : UInt32
  nextBidiId : UInt64
  nextUniId : UInt64
  openBidiCount : UInt32
  openUniCount : UInt32

/-- What a connection's transfers depend on. -/
def Conn.carriage (conn : Conn) : Carriage where
  streams := conn.streams
  schedHead := conn.schedHead
  connFlow := conn.connFlow
  isServer := conn.isServer
  initialMaxStreamData := conn.initialMaxStreamData
  localMaxStreamsBidi := conn.localMaxStreamsBidi
  localMaxStreamsUni := conn.localMaxStreamsUni
  nextBidiId := conn.nextBidiId
  nextUniId := conn.nextUniId
  openBidiCount := conn.openBidiCount
  openUniCount := conn.openUniCount

/-- The kinds of elementary acts. -/
inductive Act where
  | aside
  | granted (maxData : UInt64)
  | advertised
  | taken (env : Env) (f : FrameStream)
  | raised (streamId maxStreamData : UInt64)
  | acked (rec : StreamFrameRecord)
  | lost (rec : StreamFrameRecord)
  | turned (space : Nat) (b b' : SendBuild)
  | asked
  | opened (env : Env) (type : StreamType) (unidirectional : Bool)
  | written (streamId : UInt64) (data : Bytes) (fin : Bool)
  | read (streamId bufLen : UInt64)
  | retuned (streamId : UInt64) (s s' : Stream)

/-- What an act does. -/
def Act.does : Act → Conn → Conn → Prop
  | .aside, before, after => after.carriage = before.carriage
  | .granted maxData, before, after =>
    after = { before with connFlow := flowSetPeerMax before.connFlow maxData }
  | .advertised, before, after =>
    flowShouldUpdate before.connFlow = true ∧
      after = { before with connFlow := (flowGetUpdate before.connFlow).2 }
  | .taken env f, before, after => after = (recvStreamFrame env before f).2
  | .raised streamId maxStreamData, before, after =>
    after = recvMaxStreamData before streamId maxStreamData
  | .acked rec, before, after => after = ackRecord before rec
  | .lost rec, before, after => after = lossRecord before rec
  | .turned space b b', before, after =>
    before = b.conn ∧ after = b'.conn ∧ Turned space b b'
  | .asked, before, after => after = (schedNext before).2
  | .opened env type unidirectional, before, after =>
    after = (connOpenStream env before type unidirectional).2
  | .written streamId data fin, before, after => after = (connStreamSend before streamId data fin).2
  | .read streamId bufLen, before, after => after = (connStreamRecv before streamId bufLen).2
  | .retuned streamId s s', before, after =>
    before.stream streamId = some s ∧ after = before.setStream streamId s' ∧
      s' = { s with rateLimit := s'.rateLimit, onWritable := s'.onWritable }

/-- What is asked of the frames a connection takes and of the writes it accepts. -/
structure Terms where
  taken : Env → Conn → FrameStream → Prop
  written : Conn → UInt64 → Bytes → Bool → Prop

namespace Terms

/-- Nothing is asked. -/
def free : Terms := ⟨fun _ _ _ => True, fun _ _ _ _ => True⟩

/-- Whether an act is within the terms. -/
def permit (terms : Terms) (conn : Conn) : Act → Prop
  | .taken env f => terms.taken env conn f
  | .written streamId data fin => terms.written conn streamId data fin
  | _ => True

/-- Frames that are within the terms when they are taken one after the other. -/
def frames (terms : Terms) (env : Env) (nowUs : UInt64) : Conn → List Frame → Prop
  | _, [] => True
  | conn, frame :: rest =>
    (∀ f, frame = .stream f → terms.taken env conn f) ∧
      ((processFrame env conn frame nowUs).1 = .ok →
        frames terms env nowUs (processFrame env conn frame nowUs).2 rest)

/-- A connection that has recorded a packet's number and is about to take its frames. -/
def opening (conn : Conn) (len : Nat) (pktNum : UInt64) (event : ConnEvent) (nowUs : UInt64) :
    Conn :=
  let conn := noteRecv conn len nowUs
  { conn with ack := ackOnPktRecv conn.ack pktNum nowUs true }.observe event

/-- An operation that is within the terms. -/
def met (terms : Terms) (evp : Evp) (conn : Conn) : Env × ConnOp → Prop
  | (env, .recv data nowUs) =>
    ∀ pktNum payload event, openDatagram evp conn data = some (some pktNum, payload) →
      conn.Listens →
      terms.frames env nowUs (opening conn data.length pktNum event nowUs) (leadingFrames payload)
  | (_, .streamSend streamId data fin) => terms.written conn streamId data fin
  | _ => True

end Terms

/-- Acts within the terms, one after the other. -/
def Acts (terms : Terms) : Conn → Conn → Prop :=
  Relation.ReflTransGen fun before after => ∃ act, terms.permit before act ∧ act.does before after

namespace Acts

variable {terms : Terms}

/-- What every act within the terms preserves, acts preserve. -/
theorem preserve {invariant : Conn → Prop} {before after : Conn} (acts : Acts terms before after)
    (preserved : ∀ before after act, terms.permit before act → act.does before after →
      invariant before → invariant after) (start : invariant before) : invariant after := by
  induction acts with
  | refl => exact start
  | tail _ last ih =>
    obtain ⟨act, permitted, done⟩ := last
    exact preserved _ _ act permitted done ih

end Acts

/-- Whether an act belongs to a call to send or to the other operations, if not to both. -/
def Act.sending : Act → Option Bool
  | .aside => none
  | .advertised | .turned .. | .asked => some true
  | _ => some false

/-- Acts within the terms, one after the other, which belong to a call to send or to the other
operations. -/
def Performs (terms : Terms) (sends : Bool) : Conn → Conn → Prop :=
  Relation.ReflTransGen fun before after => ∃ act : Act,
    act.sending.getD sends = sends ∧ terms.permit before act ∧ act.does before after

namespace Performs

variable {terms : Terms} {sends : Bool} {conn : Conn}

theorem refl (conn : Conn) : Performs terms sends conn conn := Relation.ReflTransGen.refl

theorem trans {first second third : Conn} (left : Performs terms sends first second)
    (right : Performs terms sends second third) : Performs terms sends first third :=
  Relation.ReflTransGen.trans left right

theorem one (act : Act) (belongs : act.sending.getD sends = sends)
    (permitted : terms.permit before act) (done : act.does before after) :
    Performs terms sends before after :=
  .single ⟨act, belongs, permitted, done⟩

/-- Acts that are performed are acts. -/
theorem acts (performed : Performs terms sends before after) :
    Acts terms before after :=
  performed.lift id fun _ _ ⟨act, _, permitted, done⟩ => ⟨act, permitted, done⟩

/-- What relates the two ends of every act that may be performed, and carries over, relates the two
ends of all. -/
theorem relate (relation : Conn → Conn → Prop) (performed : Performs terms sends before after)
    (reflexive : ∀ conn, relation conn conn)
    (transitive : ∀ first second third, relation first second → relation second third →
      relation first third) (related : ∀ before after (act : Act), act.sending.getD sends = sends →
      act.does before after → relation before after) : relation before after := by
  induction performed with
  | refl => exact reflexive _
  | tail _ last ih =>
    obtain ⟨act, belongs, _, done⟩ := last
    exact transitive _ _ _ ih (related _ _ act belongs done)

/-- A change outside the carriage is no act. -/
theorem aside (same : after.carriage = before.carriage) :
    Performs terms sends before after := one .aside rfl trivial same

theorem prepared {middle : Conn} (acts : Performs terms sends middle after)
    (same : middle.carriage = before.carriage) : Performs terms sends before after :=
  (aside same).trans acts

theorem setConnState (conn : Conn) (target : ConnState) :
    Performs terms sends conn (setConnState conn target) := by
  exact aside (congrArg Conn.carriage (setConnState_only conn target) :)

theorem onPacketAcked (ack : AckState) (pkt : SentPkt) (conn : Conn) :
    Performs terms false conn (onPacketAcked ack pkt conn) := by
  have noted : Performs terms false conn (noteAcked conn pkt) := aside rfl
  have released := Machine.run_preserves (Performs terms false conn)
    (fun _ rec before => before.trans (one (.acked rec) rfl trivial rfl)) pkt.frames.records noted
  refine released.trans (aside ?_)
  unfold Nxp.onPacketAcked ccOnAck
  split <;> rfl

theorem onPacketLost (ack : AckState) (pkt : SentPkt) (conn : Conn) :
    Performs terms false conn (onPacketLost ack pkt conn) := by
  have noted : Performs terms false conn (noteLost conn pkt) := aside rfl
  have returned := Machine.run_preserves (Performs terms false conn)
    (fun _ rec before => before.trans (one (.lost rec) rfl trivial rfl)) pkt.frames.records noted
  exact returned.trans (aside rfl)

theorem recvAckFrame (conn : Conn) (frame : FrameAck) (nowUs : UInt64) :
    Performs terms false conn (recvAckFrame conn frame nowUs) := by
  have walked := ackOnAckRecv_invariant (fun _ => Performs terms false conn)
    (fun _ pkt _ ack _ before => before.trans (onPacketAcked ack pkt _))
    (fun _ _ _ _ _ before => before)
    (fun _ _ _ ack _ _ before => before.trans (onPacketLost ack _ _)) conn.ack frame nowUs
    (refl conn)
  exact walked.trans (aside rfl)

theorem lossTimer (conn : Conn) (nowUs : UInt64) :
    Performs terms false conn (lossTimer conn nowUs) := by
  have walked := ackOnLossTimeout_invariant (fun _ => Performs terms false conn)
    (fun _ _ _ _ _ before => before)
    (fun _ _ _ ack _ _ before => before.trans (onPacketLost ack _ _)) conn.ack nowUs (refl conn)
  unfold Nxp.lossTimer
  simp only
  split
  · split <;> exact walked.trans (aside rfl)
  · exact refl conn

/-- What is negotiated grants credit at most. -/
theorem negotiated (negotiates : Negotiates before after) :
    Performs terms false before after := by
  obtain ⟨limits, flow⟩ := negotiates.granted
  have raised : Performs terms false before
      { before with connFlow := limits.foldl flowSetPeerMax before.connFlow } := by
    clear flow
    induction limits using List.reverseRecOn with
    | nil => exact refl before
    | append_singleton limits limit ih =>
      rw [List.foldl_append]
      exact ih.trans (one (.granted limit) rfl trivial rfl)
  rw [← flow] at raised
  exact raised.trans (aside (congrArg Conn.carriage negotiates.only :))

/-- A frame that is within the terms is an act or several. -/
theorem processFrame (env : Env) (conn : Conn) (frame : Frame) (nowUs : UInt64)
    (fine : ∀ f, frame = .stream f → terms.taken env conn f) :
    Performs terms false conn (processFrame env conn frame nowUs).2 := by
  cases frame with
  | ack f => exact recvAckFrame conn f nowUs
  | stream f => exact one (.taken env f) rfl (fine f rfl) rfl
  | maxData maxData => exact one (.granted maxData) rfl trivial rfl
  | maxStreamData streamId limit => exact one (.raised streamId limit) rfl trivial rfl
  | maxStreams limit isBidi => cases isBidi <;> exact aside rfl
  | connectionClose f => exact setConnState conn _
  | handshakeDone => exact negotiated (Negotiates.recvHandshakeDone conn)
  | pathResponse data => exact aside (congrArg Conn.carriage (recvPathResponse_only conn data) :)
  | newToken token => exact aside (congrArg Conn.carriage (recvNewToken_only conn token) :)
  | _ => exact aside rfl

/-- The frames of a packet perform acts of receiving. -/
theorem processEach (env : Env) (nowUs : UInt64) {conn : Conn} {frames : List Frame}
    (fine : terms.frames env nowUs conn frames) :
    Performs terms false conn (processEach env nowUs conn frames).2 := by
  induction frames generalizing conn with
  | nil => exact refl conn
  | cons frame rest ih =>
    obtain ⟨first, later⟩ := fine
    have taken : Performs terms false conn _ := processFrame env conn frame nowUs first
    unfold Nxp.processEach
    cases result : Nxp.processFrame env conn frame nowUs with
    | mk code next =>
      rw [result] at taken later
      cases code with
      | ok => exact taken.trans (ih (later rfl))
      | _ => exact taken

/-- A datagram that is within the terms consists of acts. -/
theorem connRecv {data : Bytes} (fine : terms.met evp conn (env, .recv data nowUs)) :
    Performs terms false conn (connRecv evp env conn data nowUs).2 := by
  cases data with
  | nil => exact refl conn
  | cons first rest =>
    by_cases deaf : conn.state = .closed ∨ conn.state = .draining
    · unfold Nxp.connRecv
      simp only [if_pos deaf]
      exact refl conn
    · have noted : Performs terms false conn (noteRecv conn (first :: rest).length nowUs) :=
        aside rfl
      unfold Nxp.connRecv
      simp only [if_neg deaf]
      split
      · exact noted.trans (negotiated (Negotiates.recvHandshakePacket evp _ _))
      · rename_i short
        cases read : readShort evp (noteRecv conn (first :: rest).length nowUs) (first :: rest) with
        | none =>
          rw [recvShortPacket_unread read]
          exact noted
        | some pair =>
          obtain ⟨pktNum, opened⟩ := pair
          by_cases long : (first :: rest).length > packetBufSize
          · unfold recvShortPacket
            rw [if_pos long]
            exact noted
          · obtain ⟨event, taken⟩ := recvShortPacket_read long read env nowUs
            rw [taken]
            cases opened with
            | none => exact noted.trans (aside rfl)
            | some payload =>
              -- The payload is the one the datagram opens to.
              have opens : openDatagram evp conn (first :: rest) = some (some pktNum, payload) := by
                have same : readShort evp conn (first :: rest) = some (pktNum, some payload) := read
                unfold openDatagram
                simp only
                rw [if_neg long, if_neg short, same]
                rfl
              have start : Performs terms false conn
                  (Terms.opening conn (first :: rest).length pktNum event nowUs) := aside rfl
              have each : Performs terms false _ _ :=
                processEach env nowUs (fine pktNum payload event opens deaf)
              unfold leadingFrames at each
              rw [← processLoop_leading] at each
              exact start.trans each

/-- A stage of a packet is an act or something else. -/
theorem stage {b' : SendBuild} (staged : Stage space b b') :
    Performs terms true b.conn b'.conn := by
  cases staged with
  | put eliciting clears encoded =>
    cases clears with
    | close due => exact prepared (setConnState { b.conn with sendConnClose := false } _) rfl
    | maxData due => exact one .advertised rfl trivial ⟨due, rfl⟩
    | _ => exact aside rfl
  | taken waiting => exact one .advertised rfl trivial ⟨waiting, rfl⟩

/-- Building a packet consists of acts. -/
theorem buildFrames {turns : Nat} (built : buildFrames turns conn space nowUs = some b) :
    Performs terms true conn b.conn :=
  buildFrames_invariant (fun b => Performs terms true conn b.conn)
    (Conn.controls_invariant (fun b => Performs terms true conn b.conn) (refl conn)
      fun _ _ before staged => before.trans (stage staged))
    (fun middle next _ before turned =>
      before.trans (one (.turned space middle next) rfl trivial ⟨rfl, rfl, turned⟩)) built

theorem ccOnSent (conn : Conn) (total : Nat) : Performs terms true conn
    (ccOnSent conn total) := by
  unfold Nxp.ccOnSent
  split
  · exact refl conn
  · rename_i bbr _
    have told : Performs terms true conn { conn with
        cc := some (bbrOnSent bbr conn.ack.bytesInFlight)
        pacer := pacerOnSend conn.pacer (UInt32.ofNat total) } := aside rfl
    have moved := told.trans (one .asked rfl trivial rfl)
    simp only
    split
    all_goals
      rename_i result
      rw [result] at moved
    · exact moved.trans (aside rfl)
    · exact moved

/-- Accounting for a packet performs acts of sending. -/
theorem accountSent (env : Env) (b : SendBuild) (total : Nat) (nowUs : UInt64) :
    Performs terms true b.conn (accountSent env b total nowUs) := by
  unfold Nxp.accountSent
  simp only
  generalize SentPkt.mk b.conn.nextPktNum nowUs (UInt32.ofNat total) b.ackEliciting
    b.ackEliciting false b.records (drOnPacketSent b.conn.deliveryRate nowUs).1 = pkt
  have told : Performs terms true b.conn (Nxp.ccOnSent
      { b.conn with
        deliveryRate := (drOnPacketSent b.conn.deliveryRate nowUs).2
        ack := ackOnPktSent b.conn.ack pkt env.allocSent } total) :=
    prepared (ccOnSent _ total) rfl
  exact told.trans (aside rfl)

/-- A call to send consists of acts. -/
theorem connSend {conn next : Conn} {maxLen : Nat} {result : SendResult}
    (sent : ConnSent evp env conn maxLen nowUs result next) :
    Performs terms true conn next := by
  cases sent with
  | handshake waiting sent => cases sent <;> exact aside rfl
  | closed => exact refl conn
  | held => exact aside rfl
  | short quiet busy free sent =>
    have paced : Performs terms true conn (conn.paced nowUs) := aside rfl
    cases sent with
    | cramped => exact paced
    | empty built => exact paced.trans (buildFrames built)
    | refused built => exact paced.trans (buildFrames built)
    | @sent b bytes closing built _ _ closed =>
      have same : closing.carriage = b.conn.carriage :=
        (congrArg Conn.carriage (closePacket_seen closed).1 :)
      exact ((paced.trans (buildFrames built)).trans (aside same)).trans
        (accountSent env { b with conn := closing } bytes.length nowUs)

/-- Starting a handshake is something else. -/
theorem connStartHandshake (evp : Evp) (env : Env) (conn : Conn) (peerCid : ConnId) :
    Performs terms sends conn (connStartHandshake evp env conn peerCid).2 := by
  have opened (hs : Handshake) :
      Performs terms sends conn (openHandshake evp conn hs peerCid).2 := by
    unfold openHandshake
    split
    · exact setConnState conn _
    · exact prepared (setConnState { conn with dcid := peerCid } _) rfl
  unfold Nxp.connStartHandshake
  split
  · exact refl conn
  · split
    · exact refl conn
    · rename_i privkey _
      split
      · exact refl conn
      · have start := opened (handshakeSetLocalParams (handshakeCreate evp conn.isServer privkey)
          (localTransportParams conn))
        simp only
        split
        · rename_i result
          rw [result] at start
          exact start.trans (aside rfl)
        · rename_i result
          rw [result] at start
          exact start.trans (setConnState _ _)

/-- A timeout performs no act of sending. -/
theorem connOnTimeout (conn : Conn) (nowUs : UInt64) :
    Performs terms false conn (connOnTimeout conn nowUs) := by
  unfold Nxp.connOnTimeout
  split
  · exact setConnState conn _
  · have checked : Performs terms false conn { Nxp.lossTimer conn nowUs with
        heartbeat := heartbeatCheck (Nxp.lossTimer conn nowUs).heartbeat nowUs } :=
      (lossTimer conn nowUs).trans (aside rfl)
    simp only
    split
    · exact checked.trans (setConnState _ _)
    · exact checked

end Performs

/-- A call to send. -/
def ConnOp.isSend : ConnOp → Bool
  | .send .. => true
  | _ => false

/-- Every operation within the terms consists of acts within the terms that belong to it. -/
theorem connStep_performs {terms : Terms} {conn : Conn}
    (fine : terms.met evp conn input) (stepped : connStep evp conn input = some next) :
    Performs terms input.2.isSend conn next := by
  obtain ⟨env, op⟩ := input
  cases op with
  | startHandshake peerCid =>
    cases stepped
    exact Performs.connStartHandshake evp env conn peerCid
  | setEstablished dcid =>
    cases stepped
    exact Performs.prepared (Performs.setConnState { conn with dcid := dcid } _) rfl
  | recv data nowUs =>
    cases stepped
    exact Performs.connRecv fine
  | send maxLen nowUs =>
    obtain ⟨⟨result, after⟩, called, rfl⟩ := Option.map_eq_some_iff.mp stepped
    exact Performs.connSend (connSend_sent called)
  | onTimeout nowUs =>
    cases stepped
    exact Performs.connOnTimeout conn nowUs
  | openStream type unidirectional =>
    cases stepped
    exact Performs.one (.opened env type unidirectional) rfl trivial rfl
  | streamSend streamId data fin =>
    cases stepped
    exact Performs.one (.written streamId data fin) rfl fine rfl
  | streamRecv streamId bufLen =>
    cases stepped
    exact Performs.one (.read streamId bufLen) rfl trivial rfl
  | initiateClose errorCode =>
    cases stepped
    apply Performs.aside
    unfold connInitiateClose
    split <;> rfl
  | setStreamRate streamId rateBps =>
    cases stepped
    unfold connSetStreamRate
    split
    · exact Performs.refl conn
    · rename_i s found
      exact Performs.one (.retuned streamId s _) rfl trivial ⟨found, rfl, rfl⟩
  | setOnWritable streamId present =>
    cases stepped
    unfold connSetOnWritable
    split
    · exact Performs.refl conn
    · rename_i s found
      exact Performs.one (.retuned streamId s _) rfl trivial ⟨found, rfl, rfl⟩
  | _ =>
    cases stepped
    exact Performs.aside rfl

/-- Every operation within the terms consists of acts within the terms. -/
theorem connStep_acts {terms : Terms} {conn : Conn}
    (fine : terms.met evp conn input) (stepped : connStep evp conn input = some next) :
    Acts terms conn next := (connStep_performs fine stepped).acts

/-- Every operation is within the terms that ask nothing. -/
theorem Terms.free_met (evp : Evp) (conn : Conn) (input : Env × ConnOp) :
    Terms.free.met evp conn input := by
  have all (env : Env) (nowUs : UInt64) (conn : Conn) (frames : List Frame) :
      Terms.free.frames env nowUs conn frames := by
    induction frames generalizing conn with
    | nil => trivial
    | cons frame rest ih => exact ⟨fun _ _ => trivial, fun _ => ih _⟩
  obtain ⟨env, op⟩ := input
  cases op with
  | recv data nowUs => exact fun _ _ _ _ _ => all _ _ _ _
  | _ => trivial

/-- What every act preserves, every run of a connection preserves. -/
theorem acts_invariant (invariant : Conn → Prop)
    (preserved : ∀ before after (act : Act), act.does before after → invariant before →
      invariant after) {conn final : Conn} {inputs : List (Env × ConnOp)} (start : invariant conn)
    (reached : Machine.attempt (connStep evp) conn inputs = some final) : invariant final :=
  Machine.attempt_preserves invariant
    (fun _ _ _ holds stepped =>
      (connStep_acts (Terms.free_met evp _ _) stepped).preserve
        (fun before after act _ done => preserved before after act done) holds)
    start reached

end Nxp
