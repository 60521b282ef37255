import Nxp.Core.Exchange
import Nxp.Core.FrameEffects

/-! Which packets make a connection answer although nothing in them asks for an answer. -/

namespace Nxp

/-- A payload of which no frame asks for an acknowledgement. -/
def QuietPayload (payload : Bytes) : Prop :=
  ∃ frames, framesOf payload = some frames ∧
    ∀ entry ∈ frames, frameIsAckEliciting entry.1 = false

/-- An ACK is due after every tracked packet whose number is new. -/
theorem connRecv_ackNeeded {evp : Evp} {conn : Conn} {data payload : Bytes} {packet : Option UInt64}
    (listens : ¬ (conn.state = .closed ∨ conn.state = .draining))
    (opens : openDatagram evp conn data = some (packet, payload)) (env : Env) (nowUs : UInt64) :
    (connRecv evp env conn data nowUs).2.ack.ackNeeded =
      (packet.any (fun pktNum => !conn.ack.knows pktNum) || conn.ack.ackNeeded) := by
  cases packet with
  | none =>
    -- Handshake packets are not tracked.
    rw [connRecv_opened_long opens listens env nowUs]
    have settled := HandshakeOnly.recvHandshakePacket evp (noteRecv conn data.length nowUs) data
    exact congrArg AckState.ackNeeded (congrArg Conn.ack settled :)
  | some pktNum =>
    -- The number is recorded before the frames are looked at, and none of them changes that.
    obtain ⟨event, taken⟩ := connRecv_opened opens listens env nowUs
    rw [taken, takeShort]
    have kept := processFrames_inbound env ({ noteRecv conn data.length nowUs with
      ack := ackOnPktRecv conn.ack pktNum nowUs true }.observe event) payload nowUs
    have needed := congrArg (fun inbound => inbound.2.2.2.1) kept
    exact needed.trans (ackOnPktRecv_ackNeeded conn.ack pktNum nowUs)

/-- A quiet packet leaves an established connection without anything to acknowledge exactly if it is
a handshake packet or repeats a number the connection remembers. -/
theorem quiet_unanswered_iff {evp : Evp} {conn : Conn} (established : conn.state = .established)
    (idle : conn.ack.ackNeeded = false) {data payload : Bytes} {packet : Option UInt64}
    (opens : openDatagram evp conn data = some (packet, payload)) (_quiet : QuietPayload payload)
    (env : Env) (nowUs : UInt64) :
    (connRecv evp env conn data nowUs).2.ack.ackNeeded = false ↔
      ∀ pktNum ∈ packet, conn.ack.knows pktNum = true := by
  have listens : ¬ (conn.state = .closed ∨ conn.state = .draining) := by simp [established]
  rw [connRecv_ackNeeded listens opens, idle, Bool.or_false]
  cases packet <;> simp

/-- The client acknowledges what completed the handshake. -/
def acknowledged : List LinkOp := greeting ++ [.operate .a plainEnv (.send 1200 1)]

/-- The server answers that, and the client answers the answer. -/
def answered : List LinkOp :=
  acknowledged ++ [.deliver .b plainEnv 1 1, .operate .b plainEnv (.send 1200 2),
    .deliver .a plainEnv 2 2, .operate .a plainEnv (.send 1200 3)]

/-- A packet with nothing but an acknowledgement. -/
def ackOnly : Bytes := [0x40, 0, 2, 0, 1, 0, 0] ++ List.replicate 16 0

theorem quietPayload_ack : QuietPayload [2, 0, 1, 0, 0] :=
  ⟨[(.ack ⟨0, 1, 0, [], by decide, false, 0, 0, 0⟩, 5)], by decide, by decide⟩

/-- A server that has answered takes the packet again and has nothing to answer. -/
theorem quiet_unanswered_repeated :
    ((plainLink answered).conn .b).state = .established ∧
    ((plainLink answered).conn .b).ack.ackNeeded = false ∧
    openDatagram plainEvp ((plainLink answered).conn .b) ackOnly = some (some 0, [2, 0, 1, 0, 0]) ∧
    QuietPayload [2, 0, 1, 0, 0] ∧
    ((connRecv plainEvp plainEnv ((plainLink answered).conn .b) ackOnly 4).2.ack.ackNeeded = false ↔
      ∀ pktNum ∈ some 0, ((plainLink answered).conn .b).ack.knows pktNum = true) := by
  have facts : ((plainLink answered).conn .b).state = .established ∧
      ((plainLink answered).conn .b).ack.ackNeeded = false ∧
      openDatagram plainEvp ((plainLink answered).conn .b) ackOnly =
        some (some 0, [2, 0, 1, 0, 0]) := by decide +kernel
  obtain ⟨established, idle, opens⟩ := facts
  exact ⟨established, idle, opens, quietPayload_ack,
    quiet_unanswered_iff established idle opens quietPayload_ack plainEnv 4⟩

/-- An idle server takes a first acknowledgement and has to answer it, and so on. -/
theorem ackOnly_answered :
    Machine.attempt (linkStep plainEvp) (newLink plainConfig plainConfig false) acknowledged =
      some (plainLink acknowledged) ∧
    Machine.attempt (linkStep plainEvp) (newLink plainConfig plainConfig false) answered =
      some (plainLink answered) ∧
    QuietPayload [2, 0, 1, 0, 0] ∧
    (((plainLink acknowledged).conn .b).state = .established ∧
      ((plainLink acknowledged).conn .b).ack.ackNeeded = false ∧
      ((plainLink acknowledged).posted .a).map (·.bytes.length) = [90, 23] ∧
      (((plainLink acknowledged).posted .a).map (·.bytes)).getLast? = some ackOnly ∧
      openDatagram plainEvp ((plainLink acknowledged).conn .b) ackOnly =
        some (some 0, [2, 0, 1, 0, 0]) ∧
      (connRecv plainEvp plainEnv ((plainLink acknowledged).conn .b) ackOnly 1).2.ack.ackNeeded =
        true) ∧
    -- Each side sends one more acknowledgement in answer to one.
    (((plainLink answered).posted .b).map (·.bytes)).drop 2 =
        [[0x40, 1, 2, 0, 1, 0, 0] ++ List.replicate 16 0] ∧
      (((plainLink answered).posted .a).map (·.bytes)).drop 2 =
        [[0x40, 1, 2, 1, 1, 0, 1, 0] ++ List.replicate 15 0] := by
  refine ⟨plainLink_reached (by decide +kernel), plainLink_reached (by decide +kernel),
    quietPayload_ack, by decide +kernel, by decide +kernel⟩

end Nxp
