import Nxp.Core.CreditLaws
import Nxp.Core.Exchange
import Nxp.Core.Lifecycle
import Nxp.Core.SecureLaws

/-! What lasts in every run: the ends of streams, the keys, and the silence of a lost handshake. -/

namespace Nxp

variable {evp : Evp} {conn next final : Conn} {inputs : List (Env × ConnOp)}

/-- State of a stream by whether the peer's end arrived and whether its own was acknowledged. -/
def StreamState.ofEnds : (arrived acked : Bool) → StreamState
  | false, false => .open
  | true, false => .halfClosedRemote
  | false, true => .halfClosedLocal
  | true, true => .closed

/-- A stream whose state says which of its directions have ended. -/
def Stream.Told (_ : UInt64) (s : Stream) : Prop :=
  s.state = .ofEnds s.recv.finReceived s.send.finAcked

/-- Every move keeps the state what the two ends make it. -/
theorem Stream.Told.moved {id : UInt64} {s s' : Stream} {act : Act}
    (move : Move id s act s') (told : s.Told id) : s'.Told id := by
  cases move with
  | retimed only => rw [only]; exact told
  | received | acked =>
    -- Either end is met in two states, each of which lists the move that tells it.
    unfold Stream.Told StreamState.ofEnds at *
    grind [streamOnRecv, recvFin, recvData, recvStore, streamOnAck, setStreamState,
      isValidStreamStateTransition]
  | _ =>
    -- The other moves touch neither end.
    unfold Stream.Told at *
    grind [streamOnLoss, streamFillFrame, chargeStream, streamWrite, streamRead]

/-- In every run the state of every stream is what its two ends make it: nothing resets a stream,
and it is closed exactly when both of its directions have ended. -/
theorem stream_state_ends {config : ConnConfig} {isServer allocCc : Bool}
    (reached : Machine.attempt (connStep evp) (connCreate config isServer allocCc) inputs =
      some final) : final.Each Stream.Told := by
  refine acts_invariant (Conn.Each Stream.Told) (fun _ _ _ done each => ?_) ?_ reached
  · exact Conn.Each.act (fun {id _ _} links told => (congrArg (Stream.Told id) links :).mpr told)
      (fun _ _ _ => rfl) Stream.Told.moved done each
  · intro _ _ absent
    cases absent

/-- A client ends a stream of three octets, and gets the acknowledgement and the end of the peer. -/
def bothEnded : List (Env × ConnOp) :=
  [(plainEnv, .setEstablished ConnId.empty), (plainEnv, .openStream .reliable false),
    (plainEnv, .streamSend 0 [1, 2, 3] true), (plainEnv, .send 1400 10),
    (plainEnv, .recv [0x40, 0, 0x02, 0, 0, 0, 0, 0x0B, 0, 1, 7] 20)]

/-- So it is with a stream that both ends have ended. -/
theorem stream_state_ends_both :
    ∃ final, Machine.attempt (connStep plainEvp) (connCreate plainConfig false true)
        bothEnded = some final ∧ (final.stream 0).map (·.state) = some .closed ∧
      final.Each Stream.Told := by
  obtain ⟨final, reached, state⟩ : ∃ final, Machine.attempt (connStep plainEvp)
      (connCreate plainConfig false true) bothEnded = some final ∧
      (final.stream 0).map (·.state) = some .closed := by decide +kernel
  exact ⟨final, reached, state, stream_state_ends reached⟩

/-- A connection with the keys of its finished handshake keeps them, and its identifier, whatever is
done to it and whatever arrives. -/
theorem keys_last {keys : CryptoState} {scid : ConnId} (secured : Secured keys scid conn)
    (reached : Machine.attempt (connStep evp) conn inputs = some final) :
    Secured keys scid final :=
  Machine.attempt_preserves _ (fun _ _ _ secured stepped => secured.connStep stepped) secured
    reached

/-- What a client sent for its handshake arrives again, and then a datagram without frames. -/
def greetedAgain : List (Env × ConnOp) :=
  ((plainLink greeting).posted .a).map (fun posted => (plainEnv, .recv posted.bytes 1)) ++
    [(plainEnv, .recv [64, 0] 2), (plainEnv, .startHandshake ConnId.empty)]

/-- A server that finished its handshake keeps its keys then. -/
theorem keys_last_greeted :
    ∃ final, Machine.attempt (connStep plainEvp) (plainLink greeting).b greetedAgain = some final ∧
      greetedAgain.length = 3 ∧ final.crypto = (plainLink greeting).b.crypto := by
  have facts : (plainLink greeting).b.state ≠ .idle ∧
      (plainLink greeting).b.handshake.all (fun hs => hs.state = .complete ∧
        hs.appKeys = (plainLink greeting).b.crypto) = true ∧ greetedAgain.length = 3 ∧
      (Machine.attempt (connStep plainEvp) (plainLink greeting).b greetedAgain).isSome = true := by
    decide +kernel
  obtain ⟨busy, finished, length, returns⟩ := facts
  obtain ⟨final, reached⟩ := Option.isSome_iff_exists.mp returns
  refine ⟨final, reached, length, (keys_last ⟨rfl, rfl, fun hs present => ?_, busy⟩ reached).crypto⟩
  rw [present] at finished
  simpa using finished

/-- Operations that neither hear of the peer nor begin a handshake nor establish by hand. -/
def ConnOp.Alone : ConnOp → Prop
  | .recv _ _ | .startHandshake _ | .setEstablished _ => False
  | _ => True

theorem connStep_gated {env : Env} {op : ConnOp} (gated : conn.Gated) (alone : op.Alone)
    (stepped : connStep evp conn (env, op) = some next) : next.Gated := by
  cases op with
  | recv | startHandshake | setEstablished => exact alone.elim
  | send maxLen nowUs =>
    obtain ⟨⟨result, sent⟩, called, rfl⟩ := Option.map_eq_some_iff.mp stepped
    rcases connSend_idleTimes called with ⟨-, -, rfl⟩ | ⟨passes, -⟩
    · exact gated
    · exact absurd gated passes
  | onTimeout nowUs =>
    -- Timers close a connection at most.
    cases stepped
    have life := connOnTimeout_life conn nowUs
    unfold Conn.Gated Conn.life at *
    grind
  | _ =>
    have life := connStep_aside (by trivial) stepped
    unfold Conn.Gated Conn.life at *
    grind

/-- A connection whose handshake bytes are out sends nothing until a datagram arrives, whatever is
written to it and however often its timers fire: a lost hello is never sent again. -/
theorem gated_until_heard (gated : conn.Gated)
    (alone : Machine.Throughout (connStep evp) (fun _ input => input.2.Alone) conn inputs)
    (reached : Machine.attempt (connStep evp) conn inputs = some final) (env : Env) (maxLen : Nat)
    (nowUs : UInt64) : connSend evp env final maxLen nowUs = some (.nothing, final) := by
  have still : final.Gated := Machine.attempt_invariant (fun _ input => input.2.Alone) Conn.Gated
    (fun _ _ _ gated alone stepped => connStep_gated gated alone stepped) gated alone reached
  unfold connSend
  simp only [still.1]
  rw [if_pos still.2]

/-- A client whose hello is out stays silent after its timer fired. -/
theorem gated_until_heard_timer :
    connSend plainEvp plainEnv (connOnTimeout (plainLink (greeting.take 3)).a 5) 1200 6 =
      some (.nothing, connOnTimeout (plainLink (greeting.take 3)).a 5) :=
  @gated_until_heard _ _ _ [(plainEnv, .onTimeout 5)] (by decide +kernel)
    ⟨trivial, fun _ _ => trivial⟩ rfl plainEnv 1200 6

end Nxp
