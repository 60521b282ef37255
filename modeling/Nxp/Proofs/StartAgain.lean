import Nxp.Proofs.Nonces

/-! When a handshake that failed to start can be started again. -/

namespace Nxp

variable {conn : Conn} {env : Env} {evp : Evp}

/-- A connection that has not left the idle state has no handshake. -/
def Conn.Unstarted (conn : Conn) : Prop := conn.state = .idle → conn.handshake = none

/-- A handshake is only had by a connection that has left the idle state, to which none returns. -/
theorem connStep_unstarted {next : Conn} {input : Env × ConnOp}
    (unstarted : conn.Unstarted) (stepped : connStep evp conn input = some next) :
    next.Unstarted := by
  obtain ⟨env, op⟩ := input
  by_cases here : op.Local
  · have emits := connStep_local here stepped
    exact fun idle => emits.handshake (unstarted (emits.idle idle))
  · cases op with
    | startHandshake peerCid =>
      cases stepped
      intro idle
      rcases connStartHandshake_begins evp env conn peerCid with
        ⟨kept, before⟩ | ⟨-, state, -⟩
      · exact kept.trans (unstarted (before idle))
      · rw [idle] at state
        cases state
    | recv data nowUs =>
      cases stepped
      have emits : Emits (fun _ => True) conn (connRecv evp env conn data nowUs).2 :=
        connRecv_emits (fun _ _ => trivial) evp env conn data nowUs
          fun _ _ _ _ _ _ _ _ => trivial
      exact fun idle => emits.handshake (unstarted (emits.idle idle))
    | send maxLen nowUs =>
      simp only [connStep, Option.map_eq_some_iff] at stepped
      obtain ⟨⟨result, _⟩, sent, rfl⟩ := stepped
      have counts := (connSend_sent sent).counts
      exact fun idle => counts.handshake (unstarted (counts.idle idle))
    | _ => exact absurd trivial here

theorem connStartHandshake_granted (hashes : evp.Hashes) (idle : conn.state = .idle)
    (key : env.privateKey.isSome = true) (memory : env.allocHandshake = true) (peerCid : ConnId) :
    (connStartHandshake evp env conn peerCid).1 = .ok := by
  obtain ⟨privkey, drawn⟩ := Option.isSome_iff_exists.mp key
  obtain ⟨secrets, derived⟩ := cryptoDeriveInitialKeys_total hashes peerCid
  unfold connStartHandshake
  rw [if_neg (not_not.mpr idle), drawn]
  simp only [memory, Bool.not_true, Bool.false_eq_true, if_false]
  unfold openHandshake
  cases side : conn.isServer with
  | false =>
    simp [handshakeStartClient, handshakeSetLocalParams, handshakeCreate, derived, openClient_eq]
  | true =>
    simp [handshakeStartServer, handshakeSetLocalParams, handshakeCreate, derived]

/-- A start that failed was undone: the connection is idle under its old identifier without a
handshake, and the next start succeeds if its requests do. -/
structure StartUndone (conn next : Conn) : Prop where
  idle : next.state = .idle
  dcid : next.dcid = conn.dcid
  handshake : next.handshake = none
  again : ∀ (evp : Evp) (env : Env) (peerCid : ConnId), evp.Hashes →
    env.privateKey.isSome = true → env.allocHandshake = true →
      (connStartHandshake evp env next peerCid).1 = .ok

/-- A start that fails once there is a handshake leaves the connection where it started. -/
theorem connStartHandshake_stuck {peerCid : ConnId}
    (idle : conn.state = .idle) (failed : (connStartHandshake evp env conn peerCid).1 ≠ .ok) :
    (env.privateKey = none ∨ env.allocHandshake = false) ∧
        (connStartHandshake evp env conn peerCid).2 = conn ∨
      (env.privateKey ≠ none ∧ env.allocHandshake = true) ∧
        (connStartHandshake evp env conn peerCid).2.state = .handshakeInitial := by
  unfold connStartHandshake at failed ⊢
  rw [if_neg (not_not.mpr idle)] at failed ⊢
  cases drawn : env.privateKey with
  | none => exact .inl ⟨.inl rfl, rfl⟩
  | some privkey =>
    rw [drawn] at failed
    cases memory : env.allocHandshake with
    | false => exact .inl ⟨.inr rfl, rfl⟩
    | true =>
      refine .inr ⟨⟨Option.some_ne_none _, rfl⟩, ?_⟩
      simp only [memory, Bool.not_true, Bool.false_eq_true, if_false] at failed ⊢
      obtain ⟨-, -, -, state⟩ := openHandshake_numbers evp idle
        (handshakeSetLocalParams (handshakeCreate evp conn.isServer privkey)
          (localTransportParams conn)) peerCid
      split at failed
      · exact absurd rfl failed
      · rename_i after _ result
        rw [result] at state
        have state : after.state = .handshakeInitial := state
        -- The move back to idle is not one that is honoured.
        show (setConnState after .idle).state = .handshakeInitial
        unfold setConnState
        rw [state]
        exact state

/-- A start that fails on an idle connection is undone exactly if it failed for want of a key or of
memory for the handshake. -/
theorem start_undone_iff {config : ConnConfig} {isServer allocCc : Bool}
    {inputs : List (Env × ConnOp)}
    (reached : Machine.attempt (connStep evp) (connCreate config isServer allocCc) inputs =
      some conn) (idle : conn.state = .idle) {peerCid : ConnId}
    (failed : (connStartHandshake evp env conn peerCid).1 ≠ .ok) :
    StartUndone conn (connStartHandshake evp env conn peerCid).2 ↔
      env.privateKey = none ∨ env.allocHandshake = false := by
  have unstarted : conn.Unstarted := Machine.attempt_preserves Conn.Unstarted
    (fun _ _ _ before stepped => connStep_unstarted before stepped) (fun _ => rfl) reached
  rcases connStartHandshake_stuck idle failed with ⟨early, same⟩ | ⟨⟨key, memory⟩, state⟩
  · refine ⟨fun _ => early, fun _ => ?_⟩
    rw [same]
    exact ⟨idle, rfl, unstarted idle, fun evp env peerCid hashes key memory =>
      connStartHandshake_granted hashes idle key memory peerCid⟩
  · constructor
    · intro undone
      rw [undone.idle] at state
      cases state
    · rintro (missing | missing)
      · exact absurd missing key
      · rw [memory] at missing
        cases missing

/-- Without memory for it, a handshake can be started later. -/
theorem start_undone_memory :
    StartUndone (connCreate plainConfig false true)
      (connStartHandshake plainEvp { plainEnv with allocHandshake := false }
        (connCreate plainConfig false true) ConnId.empty).2 :=
  (start_undone_iff (show Machine.attempt (connStep plainEvp) (connCreate plainConfig false true) [] =
    some _ from rfl) rfl (by decide +kernel)).mpr (.inr rfl)

/-- Primitives whose keyed hash fails. -/
def mutedEvp : Evp := { plainEvp with hmacSha256 := fun _ _ => none }

/-- After a failure to derive keys, a connection of either role is no longer idle, a client has
another identifier, and no later start succeeds. -/
theorem start_not_undone :
    let client := (connStartHandshake mutedEvp plainEnv (connCreate plainConfig false true)
      ⟨[7], by decide⟩)
    let server := (connStartHandshake mutedEvp plainEnv (connCreate plainConfig true true)
      ⟨[7], by decide⟩)
    client.1 = .cryptoFail ∧ client.2.state = .handshakeInitial ∧ client.2.dcid.data = [7] ∧
      (connCreate plainConfig false true).dcid.data = [] ∧
      (connStartHandshake plainEvp plainEnv client.2 ⟨[7], by decide⟩).1 = .invalidArgument ∧
      server.1 = .cryptoFail ∧ server.2.state = .handshakeInitial ∧
      (connStartHandshake plainEvp plainEnv server.2 ⟨[7], by decide⟩).1 = .invalidArgument := by
  decide +kernel

end Nxp
