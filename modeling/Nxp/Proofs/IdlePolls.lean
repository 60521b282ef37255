import Nxp.Core.Lifecycle

/-! When asking a connection for datagrams keeps it from being closed as idle. -/

namespace Nxp

variable {evp : Evp} {conn next : Conn} {nowUs : UInt64}

/-- An operation that receives no datagram and, if it asks for one, gets none at a time that does
not count as new activity: the connection is left alone, or it was active just then. -/
def QuietOp (evp : Evp) (conn : Conn) : Env × ConnOp → Prop
  | (_, .recv _ _) => False
  | (env, .send maxLen nowUs) =>
    (∀ bytes next, connSend evp env conn maxLen nowUs ≠ some (.datagram bytes, next)) ∧
      (conn.Gated ∨ nowUs = conn.lastActivityUs)
  | _ => True

/-- A send moves the idle deadline unless it is gated or time stands still. -/
theorem connSend_idleDeadline_iff {env : Env} {maxLen : Nat} {result : SendResult}
    (called : connSend evp env conn maxLen nowUs = some (result, next)) :
    next.idleDeadline = conn.idleDeadline ↔ conn.Gated ∨ nowUs = conn.lastActivityUs := by
  rcases connSend_idleTimes called with ⟨gated, -, rfl⟩ | ⟨passes, times⟩
  · exact ⟨fun _ => .inl gated, fun _ => rfl⟩
  · have active : next.lastActivityUs = nowUs := congrArg Prod.fst times
    have limit : next.idleTimeoutUs = conn.idleTimeoutUs := congrArg Prod.snd times
    have zero : (0 : UInt64).toNat = 0 := rfl
    simp only [passes, false_or]
    unfold Conn.idleDeadline
    rw [active, limit]
    constructor
    · intro same
      -- A deadline tells when the connection was active, and none tells that it never was.
      split at same <;> split at same
      · exact (UInt64.add_left_inj _).mp (Option.some.inj same)
      · cases same
      · cases same
      · rename_i never never'
        rw [gt_iff_lt, UInt64.lt_iff_toNat_lt, zero] at never never'
        exact UInt64.toNat_inj.mp (by omega)
    · rintro rfl
      rfl

/-- A quiet operation leaves the idle timer alone. -/
theorem QuietOp.idleTimes {input : Env × ConnOp}
    (quiet : QuietOp evp conn input) (stepped : connStep evp conn input = some next) :
    next.idleTimes = conn.idleTimes := by
  obtain ⟨env, op⟩ := input
  have of_life (same : next.life = conn.life) : next.idleTimes = conn.idleTimes :=
    congrArg (fun life : Life => (life.lastActivityUs, life.idleTimeoutUs)) same
  cases op with
  | recv data nowUs => exact quiet.elim
  | send maxLen nowUs =>
    obtain ⟨⟨result, after⟩, called, rfl⟩ := Option.map_eq_some_iff.mp stepped
    rcases connSend_idleTimes called with ⟨-, -, rfl⟩ | ⟨passes, times⟩
    · rfl
    · rw [times, quiet.2.resolve_left passes]
      rfl
  | startHandshake peerCid =>
    cases stepped
    exact (congrArg Conn.idleTimes (connStartHandshake_only evp env conn peerCid) :)
  | setEstablished dcid =>
    cases stepped
    exact (congrArg Conn.idleTimes (HandshakeOnly.setConnState { conn with dcid := dcid } _) :)
  | onTimeout nowUs =>
    cases stepped
    rcases connOnTimeout_life conn nowUs with same | closed
    · exact of_life same
    · exact congrArg (fun life : Life => (life.lastActivityUs, life.idleTimeoutUs)) closed
  | _ => exact of_life (connStep_aside (by trivial) stepped)

/-- The idle deadline closes the connection. -/
theorem connOnTimeout_idle (active : conn.lastActivityUs > 0)
    (due : nowUs ≥ conn.lastActivityUs + conn.idleTimeoutUs) :
    (connOnTimeout conn nowUs).state = .closed := by
  unfold connOnTimeout
  rw [if_pos ⟨active, due⟩]
  rfl

/-- A call to send that hands back no datagram leaves the idle deadline as it is exactly when it
leaves the connection alone or comes at the time of its last activity. In a run in which all calls
are such, and no datagram is received or emitted after a time, the first timeout that is later than
that by the idle time closes a connection that was active. -/
theorem polls_keep_idle (evp : Evp) (conn : Conn) :
    (∀ env maxLen nowUs result next,
      connSend evp env conn maxLen nowUs = some (result, next) →
      (∀ bytes, result ≠ .datagram bytes) →
      (next.idleDeadline = conn.idleDeadline ↔ conn.Gated ∨ nowUs = conn.lastActivityUs)) ∧
    ∀ sinceUs inputs next, conn.lastActivityUs > 0 → conn.lastActivityUs ≤ sinceUs →
      Machine.Throughout (connStep evp) (QuietOp evp) conn inputs →
      Machine.attempt (connStep evp) conn inputs = some next →
      ∀ nowUs : UInt64, sinceUs.toNat + conn.idleTimeoutUs.toNat ≤ nowUs.toNat →
        (connOnTimeout next nowUs).state = .closed := by
  refine ⟨fun env maxLen nowUs result next called _ => connSend_idleDeadline_iff called, ?_⟩
  intro sinceUs inputs next active before quiet run nowUs late
  have times : next.idleTimes = conn.idleTimes :=
    Machine.attempt_invariant (QuietOp evp) (fun later => later.idleTimes = conn.idleTimes)
      (fun s input after same quiet stepped => (quiet.idleTimes stepped).trans same) rfl quiet run
  have last : next.lastActivityUs = conn.lastActivityUs := congrArg Prod.fst times
  have limit : next.idleTimeoutUs = conn.idleTimeoutUs := congrArg Prod.snd times
  refine connOnTimeout_idle (by rw [last]; exact active) ?_
  -- The time since then covers the idle time, so that no sum wraps.
  rw [last, limit, ge_iff_le, UInt64.le_iff_toNat_le, UInt64.toNat_add]
  rw [UInt64.le_iff_toNat_le] at before
  exact Nat.le_trans (Nat.mod_le _ _) (by omega)

/-- A client that is established by hand and sends three octets at time 10. -/
def lastSent : List (Env × ConnOp) := threeWritten ++ [(plainEnv, .send 1400 10)]

/-- Asked for a datagram after 20 seconds, the client has none, but this counts as activity: after
30 seconds it is not closed. -/
theorem poll_counts_as_activity :
    ∃ conn next, Machine.attempt (connStep plainEvp) (connCreate plainConfig false true) lastSent =
        some conn ∧
      connSend plainEvp plainEnv conn 1400 20000000 = some (.nothing, next) ∧
      conn.idleDeadline = some 30000010 ∧ next.idleDeadline = some 50000000 ∧
      (connOnTimeout next 30000010).state = .established := by
  obtain ⟨conn, reached, ⟨result, next⟩, polled, nothing, facts⟩ : ∃ conn,
      Machine.attempt (connStep plainEvp) (connCreate plainConfig false true) lastSent =
        some conn ∧
      ∃ polled, connSend plainEvp plainEnv conn 1400 20000000 = some polled ∧
        polled.1 = .nothing ∧ conn.idleDeadline = some 30000010 ∧
        polled.2.idleDeadline = some 50000000 ∧
        (connOnTimeout polled.2 30000010).state = .established := by
    decide +kernel
  cases nothing
  exact ⟨conn, next, reached, polled, facts⟩

/-- A client in its handshake whose hello is out, as it is when that was at time 10. -/
def awaitingClient : Conn :=
  { connCreate plainConfig false true with state := .handshakeInitial, lastActivityUs := 10 }

/-- Asking it for a datagram after 20 seconds changes nothing, and after 30 it is closed. -/
theorem polls_keep_idle_awaiting :
    awaitingClient.Gated ∧
    ∀ next, Machine.attempt (connStep plainEvp) awaitingClient
        [(plainEnv, .send 1400 20000000)] = some next →
      (connOnTimeout next 30000010).state = .closed := by
  have gated : awaitingClient.Gated := by decide
  refine ⟨gated, fun next run => ?_⟩
  refine (polls_keep_idle plainEvp awaitingClient).2 10 _ next (by decide) (by decide) ?_ run
    30000010 (by decide)
  refine ⟨⟨fun bytes after called => ?_, .inl gated⟩, fun _ _ => trivial⟩
  rcases connSend_idleTimes called with ⟨-, nothing, -⟩ | ⟨passes, -⟩
  · cases nothing
  · exact passes gated

end Nxp
