import Nxp.Core.Exchange
import Nxp.Core.FrameEffects
import Nxp.Core.Lifecycle

/-! When the peer's word that it closes is heeded. -/

namespace Nxp

namespace Conn

/-- A connection that is established, or that this side is closing. -/
def Live (conn : Conn) : Prop := conn.state = .established ∨ conn.state = .closing

/-- How far the handshake has come. -/
def handshakeState (conn : Conn) : Option HsState := conn.handshake.map Handshake.state

/-- A connection that waits for the notice that the server is done and is established by it. -/
def AwaitsDone (conn : Conn) : Prop :=
  conn.handshakeState = some .waitHandshakeDone ∧
    isValidConnStateTransition conn.state .established = true

/-- A connection that is live, or will be once it took some frames. -/
def Heeds (conn : Conn) (front : List Frame) : Prop :=
  conn.Live ∨ .handshakeDone ∈ front ∧ conn.AwaitsDone

end Conn

section Frames

variable {env : Env} {nowUs : UInt64} {conn : Conn} {frame : Frame}

/-- Only the notice that the server is done takes the handshake further. -/
theorem processFrame_handshakeState (other : frame ≠ .handshakeDone) :
    (processFrame env conn frame nowUs).2.handshakeState = conn.handshakeState := by
  have same {next : Conn} (kept : next.handshake = conn.handshake) :
      next.handshakeState = conn.handshakeState := congrArg (Option.map Handshake.state) kept
  cases about : frame.transfers with
  | true => exact same (congrArg Conn.handshake (processFrame_transfer env conn nowUs about).only :)
  | false =>
    cases frame with
    | handshakeDone => exact absurd rfl other
    | maxStreams limit isBidi => cases isBidi <;> rfl
    | connectionClose f => exact same (setConnState_handshake conn .draining)
    | pathResponse data => exact same (congrArg Conn.handshake (recvPathResponse_only conn data) :)
    | newToken token =>
      show (recvNewToken conn token).handshakeState = _
      unfold recvNewToken
      split
      · rfl
      · rename_i hs present
        split
        · rfl
        · show some hs.state = conn.handshake.map Handshake.state
          rw [present]
          rfl
    | ack f => cases about
    | stream f => cases about
    | maxStreamData id limit => cases about
    | _ => rfl

/-- After the notice that the server is done none is waited for. -/
theorem recvHandshakeDone_handshakeState (conn : Conn) :
    (recvHandshakeDone conn).handshakeState ≠ some .waitHandshakeDone := by
  unfold Conn.handshakeState
  rcases recvHandshakeDone_cases conn with ⟨idle, same⟩ | ⟨hs, -, -, -, done⟩
  · rw [same]
    intro waits
    obtain ⟨hs, present, waiting⟩ := Option.map_eq_some_iff.mp waits
    exact idle hs present waiting
  · rw [done]
    intro waits
    cases waits

/-- Every way a frame can move a connection: not at all, where neither a live connection is told
that the peer closes nor one gets the notice it waits for, or in these two ways. -/
theorem processFrame_moves (env : Env) (conn : Conn) (frame : Frame) (nowUs : UInt64) :
    ((processFrame env conn frame nowUs).2.state = conn.state ∧
        ((∃ f, frame = .connectionClose f) → ¬ conn.Live) ∧
        (frame = .handshakeDone → ¬ conn.AwaitsDone)) ∨
      ((∃ f, frame = .connectionClose f) ∧ conn.Live ∧
        (processFrame env conn frame nowUs).2.state = .draining) ∨
      (frame = .handshakeDone ∧ conn.AwaitsDone ∧
        (processFrame env conn frame nowUs).2.state = .established) := by
  by_cases done : frame = .handshakeDone
  · subst done
    have noClose : (∃ f, Frame.handshakeDone = .connectionClose f) → ¬ conn.Live :=
      fun ⟨_, same⟩ => by cases same
    show ((recvHandshakeDone conn).state = conn.state ∧ _) ∨ _ ∨ (_ ∧ _ ∧
      (recvHandshakeDone conn).state = .established)
    rcases recvHandshakeDone_state conn with ⟨idle, same⟩ | ⟨⟨hs, present, waiting⟩, moved⟩
    · refine .inl ⟨congrArg Conn.state same, noClose, fun _ awaits => ?_⟩
      obtain ⟨hs, present, waiting⟩ := Option.map_eq_some_iff.mp awaits.1
      exact idle hs present waiting
    · rw [moved]
      unfold setConnState
      split
      · rename_i refused
        exact .inl ⟨rfl, noClose, fun _ awaits => by simp [awaits.2] at refused⟩
      · rename_i valid
        exact .inr (.inr ⟨rfl, ⟨Option.map_eq_some_iff.mpr ⟨hs, present, waiting⟩,
          by simpa using valid⟩, rfl⟩)
  · by_cases closes : ∃ f, frame = .connectionClose f
    · obtain ⟨f, rfl⟩ := closes
      show ((setConnState conn .draining).state = conn.state ∧ _) ∨
        (_ ∧ _ ∧ (setConnState conn .draining).state = .draining) ∨ _
      unfold setConnState isValidConnStateTransition Conn.Live
      cases state : conn.state <;> simp [state]
    · exact .inl ⟨processFrame_state env conn nowUs done fun f same => closes ⟨f, same⟩,
        fun found => absurd found closes, fun same => absurd same done⟩

/-- No frame reopens an ended connection. -/
theorem processFrame_ended (ended : conn.Ended) :
    (processFrame env conn frame nowUs).2.Ended := by
  rcases processFrame_moves env conn frame nowUs with ⟨same, -⟩ | ⟨-, -, state⟩ | ⟨-, ⟨-, valid⟩, -⟩
  · unfold Conn.Ended
    rw [same]
    exact ended
  · exact .inl state
  · -- The table lists no way back from the end.
    rcases ended with state | state <;> simp [isValidConnStateTransition, state] at valid

/-- A frame ends a connection exactly if it tells a live one that the peer closes. -/
theorem processFrame_ended_iff (before : ¬ conn.Ended) :
    (processFrame env conn frame nowUs).2.Ended ↔ (∃ f, frame = .connectionClose f) ∧ conn.Live := by
  rcases processFrame_moves env conn frame nowUs with
    ⟨same, dead, -⟩ | ⟨closes, live, state⟩ | ⟨rfl, -, state⟩
  · unfold Conn.Ended at before ⊢
    rw [same]
    exact ⟨fun ended => absurd ended before, fun ⟨closes, live⟩ => absurd live (dead closes)⟩
  · exact ⟨fun _ => ⟨closes, live⟩, fun _ => .inl state⟩
  · unfold Conn.Ended
    rw [state]
    constructor
    · intro ended
      rcases ended with wrong | wrong <;> cases wrong
    · rintro ⟨⟨_, other⟩, -⟩
      cases other

/-- A frame that does not end a connection changes nothing about which words it heeds. -/
theorem processFrame_heeds (stays : ¬ (processFrame env conn frame nowUs).2.Ended)
    (front : List Frame) :
    (processFrame env conn frame nowUs).2.Heeds front ↔ conn.Heeds (frame :: front) := by
  unfold Conn.Heeds Conn.Live
  rcases processFrame_moves env conn frame nowUs with
    ⟨same, -, early⟩ | ⟨-, -, state⟩ | ⟨rfl, awaits, state⟩
  · rw [same]
    refine or_congr_right ?_
    by_cases done : frame = .handshakeDone
    · subst done
      exact ⟨fun late => absurd late.2.1 (recvHandshakeDone_handshakeState conn),
        fun told => absurd told.2 (early rfl)⟩
    · unfold Conn.AwaitsDone
      rw [same, processFrame_handshakeState done, List.mem_cons, or_iff_right (Ne.symm done)]
  · exact absurd (.inl state) stays
  · exact ⟨fun _ => .inr ⟨List.mem_cons_self, awaits⟩, fun _ => .inl (.inl state)⟩

theorem processEach_ended (frames : List Frame) (ended : conn.Ended) :
    (processEach env nowUs conn frames).2.Ended := by
  induction frames generalizing conn with
  | nil => exact ended
  | cons frame frames ih =>
    have next := @processFrame_ended env nowUs conn frame ended
    unfold processEach
    split
    · rename_i result
      rw [result] at next
      exact ih next
    · rename_i result
      rw [result] at next
      exact next

/-- Frames end a connection exactly if one of them tells it that the peer closes, all frames before
that are taken, and it heeds that word behind them. -/
theorem processEach_ended_iff {frames : List Frame} (before : ¬ conn.Ended) :
    (processEach env nowUs conn frames).2.Ended ↔
      ∃ front f back, frames = front ++ .connectionClose f :: back ∧
        (processEach env nowUs conn front).1 = .ok ∧ conn.Heeds front := by
  -- The induction moves the connection along with the frames until one of them ends it.
  induction frames generalizing conn with
  | nil => simpa [processEach] using before
  | cons frame frames ih =>
    have here := @processFrame_ended_iff env nowUs conn frame before
    have heeds := @processFrame_heeds env nowUs conn frame
    rw [processEach]
    cases result : processFrame env conn frame nowUs with
    | mk outcome next =>
      rw [result] at here heeds
      by_cases now : next.Ended
      · obtain ⟨⟨f, rfl⟩, live⟩ := here.mp now
        cases result
        exact ⟨fun _ => ⟨[], f, frames, rfl, rfl, .inl live⟩, fun _ => processEach_ended frames now⟩
      · constructor
        · intro ended
          cases outcome with
          | ok =>
            obtain ⟨front, f, back, rfl, taken, heard⟩ := (ih now).mp ended
            refine ⟨frame :: front, f, back, rfl, ?_, (heeds now front).mp heard⟩
            rw [processEach, result]
            exact taken
          | _ => exact absurd ended now
        · rintro ⟨front, f, back, parts, taken, heard⟩
          cases front with
          | nil =>
            cases parts
            have live := heard.resolve_right fun told => by cases told.1
            exact absurd (here.mpr ⟨⟨f, rfl⟩, live⟩) now
          | cons first front =>
            obtain ⟨rfl, rfl⟩ := List.cons.inj parts
            rw [processEach, result] at taken
            -- A frame that is refused is the last one that is looked at.
            cases outcome with
            | ok => exact (ih now).mpr ⟨front, f, back, rfl, taken, (heeds now front).mpr heard⟩
            | _ => cases taken

end Frames

section Packets

variable {evp : Evp} {conn : Conn}

/-- A handshake packet never ends a connection. -/
theorem recvHandshakePacket_open (before : ¬ conn.Ended) (data : Bytes) :
    ¬ (recvHandshakePacket evp conn data).2.Ended := by
  intro ended
  rcases (Negotiates.recvHandshakePacket evp conn data).moved with same | established
  · exact before (by rwa [Conn.Ended, same] at ended)
  · rw [Conn.Ended, established] at ended
    rcases ended with state | state <;> cases state

end Packets

/-- A connection is ended by a packet exactly if it is an application packet with the word that the
peer closes, all frames before that are taken, and the connection is live or they have the notice
that it waits for. -/
theorem close_heeded_iff {evp : Evp} {conn : Conn} (listens : conn.Listens) {data payload : Bytes}
    {packet : Option UInt64} (opens : openDatagram evp conn data = some (packet, payload)) (env : Env)
    (nowUs : UInt64) :
    ∃ event, (connRecv evp env conn data nowUs).2.Ended ↔
      ∃ pktNum front f back, packet = some pktNum ∧
        leadingFrames payload = front ++ .connectionClose f :: back ∧
        (processEach env nowUs ((conn.recorded data.length nowUs pktNum).observe event) front).1 = .ok ∧
        conn.Heeds front := by
  have before : ¬ conn.Ended := fun ended => listens ended.symm
  cases packet with
  | none =>
    rw [connRecv_opened_long opens listens]
    refine ⟨.processed payload none, fun ended => ?_, ?_⟩
    · exact absurd ended (@recvHandshakePacket_open evp (noteRecv conn data.length nowUs) before data)
    · rintro ⟨pktNum, front, f, back, absent, -⟩
      cases absent
  | some pktNum =>
    obtain ⟨event, taken⟩ := connRecv_opened opens listens env nowUs
    have each : (connRecv evp env conn data nowUs).2 =
        (processEach env nowUs ((conn.recorded data.length nowUs pktNum).observe event)
          (leadingFrames payload)).2 := by
      rw [taken]
      exact processLoop_leading env nowUs payload.length _ payload
    refine ⟨event, ?_⟩
    -- Recording the packet changes nothing that decides what is heeded.
    rw [each, @processEach_ended_iff env nowUs
      ((conn.recorded data.length nowUs pktNum).observe event) _ before]
    constructor
    · rintro ⟨front, f, back, frames, taken, heeds⟩
      exact ⟨pktNum, front, f, back, rfl, frames, taken, heeds⟩
    · rintro ⟨number, front, f, back, same, frames, taken, heeds⟩
      cases same
      exact ⟨front, f, back, frames, taken, heeds⟩

/-- The server closes before its client has the notice that the handshake is done. -/
def closedEarly : List LinkOp :=
  greeting.take 7 ++ [.operate .b plainEnv (.initiateClose 7), .operate .b plainEnv (.send 1200 1)]

/-- The server closes after its client has the notice. -/
def closedLate : List LinkOp :=
  greeting ++ [.operate .b plainEnv (.initiateClose 7), .operate .b plainEnv (.send 1200 1)]

/-- The packet with which the server closes. -/
def closePacketOctets : Bytes := [0x40, 1, 0x1d, 7, 0] ++ List.replicate 16 0

/-- An established client heeds the packet. -/
theorem close_heeded_late :
    ((plainLink closedLate).conn .a).Listens ∧
    openDatagram plainEvp ((plainLink closedLate).conn .a) closePacketOctets =
      some (some 1, [0x1d, 7, 0]) ∧
    (connRecv plainEvp plainEnv ((plainLink closedLate).conn .a) closePacketOctets 1).2.Ended := by
  have facts : ((plainLink closedLate).conn .a).state = .established ∧
      openDatagram plainEvp ((plainLink closedLate).conn .a) closePacketOctets =
        some (some 1, [0x1d, 7, 0]) := by decide +kernel
  obtain ⟨established, opens⟩ := facts
  have listens : ((plainLink closedLate).conn .a).Listens := by
    simp [Conn.Listens, established]
  obtain ⟨event, heeded⟩ := close_heeded_iff listens opens plainEnv 1
  refine ⟨listens, opens, heeded.mpr ?_⟩
  exact ⟨1, [], ⟨7, 0, [], true⟩, [], rfl, by decide, rfl, .inl (.inl established)⟩

/-- A client with application keys that still waits for the notice ignores the packet. -/
theorem close_ignored_early :
    Machine.attempt (linkStep plainEvp) (newLink plainConfig plainConfig false) closedEarly =
      some (plainLink closedEarly) ∧
    (((plainLink closedEarly).posted .b).map (·.bytes)).getLast? = some closePacketOctets ∧
    ((plainLink closedEarly).conn .a).state = .handshakeInitial ∧
    ((plainLink closedEarly).conn .a).crypto.available = true ∧
    openDatagram plainEvp ((plainLink closedEarly).conn .a) closePacketOctets =
      some (some 1, [0x1d, 7, 0]) ∧
    leadingFrames [0x1d, 7, 0] = [.connectionClose ⟨7, 0, [], true⟩] ∧
    (connRecv plainEvp plainEnv ((plainLink closedEarly).conn .a) closePacketOctets 1).2.state =
      .handshakeInitial :=
  ⟨plainLink_reached (by decide +kernel), by decide +kernel⟩

end Nxp
