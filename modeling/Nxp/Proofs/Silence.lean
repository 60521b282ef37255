import Nxp.Core.Lifecycle

/-! A connection that has ended stays so, and is silent unless its handshake has something left. -/

namespace Nxp

variable {evp : Evp} {conn next : Conn}

theorem setConnState_ended (ended : conn.Ended) :
    setConnState conn .established = conn := by
  unfold setConnState isValidConnStateTransition
  rcases ended with state | state <;> simp [state]

/-- An ended connection stays so and, its handshake done, sends nothing. -/
theorem connSend_ended (ended : conn.Ended) {env : Env} {maxLen : Nat} {nowUs : UInt64}
    {result : SendResult} (called : connSend evp env conn maxLen nowUs = some (result, next)) :
    next.state = conn.state ∧ (¬ HandshakeWaits conn → result = .nothing ∧ next = conn) := by
  have idle : ¬ (conn.state = .established ∨ conn.state = .closing) := by
    rcases ended with state | state <;> simp [state]
  cases connSend_sent called with
  | handshake waiting sent => exact ⟨sent.idleTimes.2, fun settled => absurd ⟨_, waiting⟩ settled⟩
  | closed => exact ⟨rfl, fun _ => ⟨rfl, rfl⟩⟩
  | held quiet busy => exact absurd busy idle
  | short quiet busy free sent => exact absurd busy idle

/-- Every operation leaves a connection that has ended so, and gives its handshake nothing to send.
-/
theorem connStep_ended (ended : conn.Ended) {input : Env × ConnOp}
    (stepped : connStep evp conn input = some next) :
    next.Ended ∧ (¬ HandshakeWaits conn → ¬ HandshakeWaits next) := by
  obtain ⟨env, op⟩ := input
  -- What keeps the state and the handshake keeps both properties.
  have kept (state : next.state = conn.state) (handshake : next.handshake = conn.handshake) :
      next.Ended ∧ (¬ HandshakeWaits conn → ¬ HandshakeWaits next) := by
    unfold Conn.Ended HandshakeWaits
    rw [state, handshake]
    exact ⟨ended, id⟩
  cases op with
  | startHandshake peerCid =>
    have started : conn.state ≠ .idle := by
      rcases ended with state | state <;> simp [state]
    cases stepped
    unfold connStartHandshake at kept ⊢
    rw [if_pos started] at kept ⊢
    exact kept rfl rfl
  | setEstablished dcid =>
    cases stepped
    unfold connSetEstablished at kept ⊢
    rw [@setConnState_ended { conn with dcid := dcid } ended] at kept ⊢
    exact kept rfl rfl
  | recv data nowUs =>
    cases stepped
    rw [connRecv_deaf ended.symm] at kept ⊢
    exact kept rfl rfl
  | send maxLen nowUs =>
    obtain ⟨⟨result, after⟩, called, rfl⟩ := Option.map_eq_some_iff.mp stepped
    obtain ⟨state, quiet⟩ := connSend_ended ended called
    refine ⟨?_, fun settled => ?_⟩
    · unfold Conn.Ended
      rw [state]
      exact ended
    · rw [(quiet settled).2]
      exact settled
  | onTimeout nowUs =>
    cases stepped
    rcases connOnTimeout_life conn nowUs with same | closed
    · exact kept (congrArg Life.state same) (congrArg Life.handshake same)
    · have handshake : (connOnTimeout conn nowUs).handshake = conn.handshake :=
        congrArg Life.handshake closed
      refine ⟨.inr (congrArg Life.state closed), fun settled => ?_⟩
      unfold HandshakeWaits
      rw [handshake]
      exact settled
  | _ =>
    have same := connStep_aside (by trivial) stepped
    exact kept (congrArg Life.state same) (congrArg Life.handshake same)

/-- However a connection that has ended is used, it stays so, and if nothing of its handshake waited
to be sent, no call to send hands back a datagram any more. -/
theorem ended_silent (evp : Evp) (conn : Conn) (ended : conn.Ended) (inputs : List (Env × ConnOp))
    (next : Conn) (reached : Machine.attempt (connStep evp) conn inputs = some next) :
    next.Ended ∧ (¬ HandshakeWaits conn →
      ∀ env maxLen nowUs result after, connSend evp env next maxLen nowUs = some (result, after) →
        ∀ bytes, result ≠ .datagram bytes) := by
  have kept : next.Ended ∧ (¬ HandshakeWaits conn → ¬ HandshakeWaits next) :=
    Machine.attempt_preserves
      (fun later => later.Ended ∧ (¬ HandshakeWaits conn → ¬ HandshakeWaits later))
      (fun s input after before stepped =>
        ⟨(connStep_ended before.1 stepped).1,
          fun settled => (connStep_ended before.1 stepped).2 (before.2 settled)⟩)
      ⟨ended, id⟩ reached
  refine ⟨kept.1, fun settled env maxLen nowUs result after called bytes sent => ?_⟩
  have nothing := ((connSend_ended kept.1 called).2 (kept.2 settled)).1
  rw [nothing] at sent
  cases sent

/-- A client starts its handshake, gets a datagram it cannot read, and is closed as idle before it
was asked for its hello. -/
def closedWaiting : List (Env × ConnOp) :=
  [(plainEnv, .startHandshake ConnId.empty), (plainEnv, .recv [0xC0] 5),
    (plainEnv, .onTimeout 30000005)]

/-- A closed client still sends its hello. -/
theorem closed_client_sends :
    ∃ conn next bytes, Machine.attempt (connStep plainEvp) (connCreate plainConfig false true)
        closedWaiting = some conn ∧
      conn.state = .closed ∧
      connSend plainEvp plainEnv conn 1200 30000006 = some (.datagram bytes, next) := by
  obtain ⟨conn, reached, state, ⟨result, next⟩, sent, filled, works⟩ : ∃ conn,
      Machine.attempt (connStep plainEvp) (connCreate plainConfig false true) closedWaiting =
        some conn ∧ conn.state = .closed ∧
      ∃ sent, connSend plainEvp plainEnv conn 1200 30000006 = some sent ∧
        sent.1 ≠ .nothing ∧ sent.1 ≠ .failed := by
    decide +kernel
  cases result with
  | datagram bytes => exact ⟨conn, next, bytes, reached, state, sent⟩
  | nothing => exact absurd rfl filled
  | failed => exact absurd rfl works

/-- A client that has three octets to send is told that the peer closes. -/
def drainedWaiting : List (Env × ConnOp) :=
  threeWritten ++ [(plainEnv, .recv [0x40, 0, 0x1D, 7, 0] 5)]

/-- Such a client sends nothing, however it is used. -/
theorem ended_silent_drained :
    ∃ conn, Machine.attempt (connStep plainEvp) (connCreate plainConfig false true)
        drainedWaiting = some conn ∧
      conn.state = .draining ∧ conn.schedHead = some 0 ∧ ¬ HandshakeWaits conn ∧
      ∀ inputs next, Machine.attempt (connStep plainEvp) conn inputs = some next →
        next.Ended ∧ ∀ env maxLen nowUs result after,
          connSend plainEvp env next maxLen nowUs = some (result, after) →
            ∀ bytes, result ≠ .datagram bytes := by
  obtain ⟨conn, reached, state, waiting, quiet⟩ : ∃ conn,
      Machine.attempt (connStep plainEvp) (connCreate plainConfig false true) drainedWaiting =
        some conn ∧ conn.state = .draining ∧ conn.schedHead = some 0 ∧ conn.handshake = none := by
    decide +kernel
  have settled : ¬ HandshakeWaits conn := by
    rintro ⟨hs, present⟩
    rw [quiet] at present
    cases present
  refine ⟨conn, reached, state, waiting, settled, fun inputs next used => ?_⟩
  obtain ⟨stays, silent⟩ := ended_silent plainEvp conn (.inl state) inputs next used
  exact ⟨stays, silent settled⟩

end Nxp
