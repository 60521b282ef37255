import Nxp.Core.RecvLaws
import Nxp.Core.SendLaws

/-! How long a connection runs: its state, its handshake and when it was last active. -/

namespace Nxp

variable {evp : Evp} {conn next : Conn} {env : Env} {result : SendResult} {maxLen : Nat}

/-- The part of a connection that decides how long it runs. -/
structure Life where
  state : ConnState
  handshake : Option Handshake
  lastActivityUs : UInt64
  idleTimeoutUs : UInt64

namespace Conn

/-- What decides how long a connection runs. -/
def life (conn : Conn) : Life :=
  ⟨conn.state, conn.handshake, conn.lastActivityUs, conn.idleTimeoutUs⟩

/-- When an idle connection is closed, once it was active. -/
def idleDeadline (conn : Conn) : Option UInt64 :=
  if conn.lastActivityUs > 0 then some (conn.lastActivityUs + conn.idleTimeoutUs) else none

/-- A connection that the peer closed, or that is closed altogether. -/
def Ended (conn : Conn) : Prop := conn.state = .draining ∨ conn.state = .closed

/-- A connection that a call to send leaves alone: nothing of the handshake waits, and it is neither
established nor closing. -/
def Gated (conn : Conn) : Prop :=
  conn.handshake.filter handshakeHasData = none ∧ conn.state ≠ .established ∧ conn.state ≠ .closing

instance decidableGated (conn : Conn) : Decidable conn.Gated :=
  decidable_of_iff ((conn.handshake.filter handshakeHasData).isNone = true ∧
    conn.state ≠ .established ∧ conn.state ≠ .closing)
    (and_congr_left fun _ => Option.isNone_iff_eq_none)

end Conn

/-- Something of the handshake is to be sent. -/
def HandshakeWaits (conn : Conn) : Prop := ∃ hs, conn.handshake.filter handshakeHasData = some hs

/-- A fired loss timer does not concern how long a connection runs. -/
theorem lossTimer_life (conn : Conn) (nowUs : UInt64) : (lossTimer conn nowUs).life = conn.life :=
  (congrArg Conn.life (Transfers.lossTimer conn nowUs).only :)

/-- Fired timers close a connection or do not concern how long it runs. -/
theorem connOnTimeout_life (conn : Conn) (nowUs : UInt64) :
    (connOnTimeout conn nowUs).life = conn.life ∨
      (connOnTimeout conn nowUs).life = { conn.life with state := .closed } := by
  -- Every connection may be closed.
  have closed (start : Conn) : (setConnState start .closed).life =
      { start.life with state := .closed } := rfl
  unfold connOnTimeout
  split
  · exact .inr (closed conn)
  · have fired := lossTimer_life conn nowUs
    simp only
    split
    · refine .inr ((closed _).trans ?_)
      exact congrArg (fun life : Life => { life with state := .closed }) fired
    · exact .inl fired

/-- Operations aside do not concern how long a connection runs. -/
theorem connStep_aside {op : ConnOp} (aside : op.Aside)
    (stepped : connStep evp conn (env, op) = some next) : next.life = conn.life :=
  (congrArg Conn.life (connStep_arranges aside stepped) :)

/-- The two times that the idle timer depends on. -/
def Conn.idleTimes (conn : Conn) : UInt64 × UInt64 := (conn.lastActivityUs, conn.idleTimeoutUs)

/-- Sending something of the handshake leaves the idle timer alone. -/
theorem HandshakeSent.idleTimes {hs : Handshake}
    (sent : HandshakeSent evp conn hs maxLen result next) :
    next.idleTimes = conn.idleTimes ∧ next.state = conn.state := by
  cases sent <;> exact ⟨rfl, rfl⟩

/-- A call to send changes nothing, or counts as activity whether it sends something or not. -/
theorem connSend_idleTimes {nowUs : UInt64}
    (called : connSend evp env conn maxLen nowUs = some (result, next)) :
    (conn.Gated ∧ result = .nothing ∧ next = conn) ∨
      (¬ conn.Gated ∧ next.idleTimes = (nowUs, conn.idleTimeoutUs)) := by
  cases connSend_sent called with
  | handshake waiting sent =>
    refine .inr ⟨fun gated => ?_, sent.idleTimes.1⟩
    rw [gated.1] at waiting
    cases waiting
  | closed quiet idle => exact .inl ⟨⟨quiet, idle⟩, rfl, rfl⟩
  | held quiet busy => exact .inr ⟨fun gated => busy.elim gated.2.1 gated.2.2, rfl⟩
  | short quiet busy free sent =>
    exact .inr ⟨fun gated => busy.elim gated.2.1 gated.2.2,
      (congrArg Conn.idleTimes sent.ships :)⟩

end Nxp
