import Nxp.Core.CreditLaws
import Nxp.Core.Loading
import Nxp.Core.StreamIds

/-! Receive credit that the application has used up is never given back. -/

namespace Nxp

variable {conn next : Conn} {nowUs : UInt64} {evp : Evp} {maxLen : Nat} {env : Env}

/-- Whether a frame raises a limit on what its receiver may send. -/
def Frame.raisesLimit : Frame → Bool
  | .maxData _ | .maxStreamData _ _ => true
  | _ => false

/-- Calls to send in turn until one hands back no datagram, and for each datagram before the
connection it was sent from as it stood and what its requests came to. -/
inductive Drains (evp : Evp) (maxLen : Nat) (nowUs : UInt64) : Conn → List (Conn × Env) → Conn → Prop
  | done {conn next : Conn} (env : Env) {result : SendResult}
      (called : connSend evp env conn maxLen nowUs = some (result, next))
      (idle : ∀ bytes, result ≠ .datagram bytes) : Drains evp maxLen nowUs conn [] next
  | more {conn next final : Conn} (env : Env) {bytes : Bytes} {packets : List (Conn × Env)}
      (called : connSend evp env conn maxLen nowUs = some (.datagram bytes, next))
      (rest : Drains evp maxLen nowUs next packets final) :
      Drains evp maxLen nowUs conn ((conn, env) :: packets) final

/-- The datagram that a connection sent is made of frames none of which raises a limit. -/
def RaisesNothing (maxLen : Nat) (nowUs : UInt64) (sent : Conn × Env) : Prop :=
  ∃ control streams, sent.1.Loads sent.2 maxLen nowUs control streams ∧
    ∀ frame ∈ control, frame.raisesLimit = false

/-- The limits on what the peer may send are the same, for the connection and for each stream. -/
structure SameGrants (before after : Conn) : Prop where
  whole : after.connFlow.localMaxData = before.connFlow.localMaxData
  streams : ∀ id s, before.stream id = some s →
    ∃ s', after.stream id = some s' ∧ s'.flow.localMaxData = s.flow.localMaxData

/-- Where no credit waits the control frames of a packet raise no limit. -/
theorem buildFrames_raise_nothing {turns space : Nat} {b : SendBuild}
    (quiet : conn.connFlow.sendMaxData = false)
    (built : buildFrames turns conn space nowUs = some b) :
    ∃ control streams, Laid space b control streams ∧
      ∀ frame ∈ control, frame.raisesLimit = false := by
  obtain ⟨control, laid, cleared⟩ := putControl_laid conn space nowUs
  obtain ⟨streams, whole⟩ := buildFrames_invariant
    (fun b => ∃ streams, Laid space b control streams) ⟨[], laid⟩
    (fun b b' more before turned => before.elim fun streams laid => laid.turned more turned) built
  refine ⟨control, streams, whole, fun frame member => ?_⟩
  have kind := laid.kinds frame member
  cases frame with
  | maxData limit => exact absurd member ((cleared.calm quiet).2 limit)
  | maxStreamData => cases kind
  | _ => rfl

theorem connSend_raises_nothing {bytes : Bytes} (quiet : conn.connFlow.sendMaxData = false)
    (called : connSend evp env conn maxLen nowUs = some (.datagram bytes, next)) :
    RaisesNothing maxLen nowUs (conn, env) := by
  cases connSend_dispatched called with
  | @handshake control _ _ loads plain =>
    refine ⟨control, [], loads, fun frame member => ?_⟩
    have plain := plain frame member
    cases frame <;> first | rfl | cases plain
  | built waiting built =>
    have paced : (conn.paced nowUs).connFlow.sendMaxData = false := quiet
    obtain ⟨control, streams, laid, low⟩ := buildFrames_raise_nothing paced built
    exact ⟨control, streams, laid.loads waiting built, low⟩

/-- A sound connection of numbered streams, as every run reaches it. -/
structure Conn.Orderly (conn : Conn) : Prop where
  sound : conn.Sound
  numbered : conn.Numbered

/-- An act keeps the connection orderly and its grants the same. -/
theorem Conn.Orderly.kept {act : Act} {before after : Conn} (orderly : before.Orderly)
    (done : act.does before after) : after.Orderly ∧ SameGrants before after := by
  refine ⟨⟨orderly.sound.act done, orderly.numbered.kept done⟩, ?_, fun id s found => ?_⟩
  · exact Act.localMaxData done orderly.sound
  · obtain ⟨linked, moved, s', links, move, relinks, next⟩ := orderly.numbered.moved done found
    have first : linked.flow = s.flow := (congrArg Stream.flow links :)
    have last : s'.flow = moved.flow := (congrArg Stream.flow relinks :)
    refine ⟨s', next, ?_⟩
    rw [last, move.fixed.2, first]

theorem SameGrants.trans {first second third : Conn} (left : SameGrants first second)
    (right : SameGrants second third) : SameGrants first third := by
  refine ⟨right.whole.trans left.whole, fun id s found => ?_⟩
  obtain ⟨s', found', same⟩ := left.streams id s found
  obtain ⟨s'', found'', same'⟩ := right.streams id s' found'
  exact ⟨s'', found'', same'.trans same⟩

/-- So does a whole send. -/
theorem Conn.Orderly.send {result : SendResult} (orderly : conn.Orderly)
    (called : connSend evp env conn maxLen nowUs = some (result, next)) :
    next.Orderly ∧ SameGrants conn next := by
  have acts : Acts Terms.free conn next := (Performs.connSend (connSend_sent called)).acts
  have kept (before after : Conn) (act : Act) (_ : Terms.free.permit before act)
      (done : act.does before after) (held : before.Orderly ∧ SameGrants conn before) :
      after.Orderly ∧ SameGrants conn after :=
    ⟨(held.1.kept done).1, held.2.trans (held.1.kept done).2⟩
  exact acts.preserve kept ⟨orderly, rfl, fun _ s found => ⟨s, found, rfl⟩⟩

/-- Sending until nothing is left raises no limit. -/
theorem Drains.raise_nothing {final : Conn} {packets : List (Conn × Env)}
    (drained : Drains evp maxLen nowUs conn packets final) (orderly : conn.Orderly) :
    SameGrants conn final ∧ ∀ sent ∈ packets, RaisesNothing maxLen nowUs sent := by
  induction drained with
  | done env called idle => exact ⟨(orderly.send called).2, List.forall_mem_nil _⟩
  | more env called rest ih =>
    obtain ⟨next, same⟩ := orderly.send called
    obtain ⟨onward, low⟩ := ih next
    exact ⟨same.trans onward, List.forall_mem_cons.mpr
      ⟨connSend_raises_nothing orderly.sound.flow.quiet called, low⟩⟩

/-- Every reachable connection is orderly. -/
theorem reached_orderly {config : ConnConfig} {isServer allocCc : Bool}
    {inputs : List (Env × ConnOp)}
    (reached : Machine.attempt (connStep evp) (connCreate config isServer allocCc) inputs =
      some conn) : conn.Orderly :=
  acts_invariant Conn.Orderly (fun _ _ _ done orderly => (orderly.kept done).1)
    ⟨connCreate_sound config isServer allocCc, connCreate_numbered config isServer allocCc⟩ reached

/-- A server that has granted one octet takes it and hands it over. -/
def octetConsumed : List (Env × ConnOp) :=
  [(plainEnv, .setEstablished ConnId.empty), (plainEnv, .recv firstOctetPacket 0),
    (plainEnv, .streamRecv 0 8)]

/-- The server after that. -/
def consumingServer : Conn :=
  (Machine.attempt (connStep plainEvp) (connCreate oneOctetConfig true true) octetConsumed).getD
    oneOctetServer

/-- The packet with the second octet of the client's first stream. -/
def secondOctetPacket : Bytes := [0x40, 0x01, 0x0E, 0x00, 0x01, 0x01, 0x07]

theorem consumingServer_drains :
    ∃ final, Drains plainEvp 1200 0 consumingServer [(consumingServer, plainEnv)] final ∧
      (connRecv plainEvp plainEnv final secondOctetPacket 0).1 = .flowControl := by
  have run : ∃ bytes next final,
      connSend plainEvp plainEnv consumingServer 1200 0 = some (.datagram bytes, next) ∧
      connSend plainEvp plainEnv next 1200 0 = some (.nothing, final) ∧
      (connRecv plainEvp plainEnv final secondOctetPacket 0).1 = .flowControl :=
    ⟨_, _, _, rfl, rfl, by decide +kernel⟩
  obtain ⟨bytes, next, final, first, second, refused⟩ := run
  exact ⟨final, .more plainEnv first (.done plainEnv second nofun), refused⟩

end Nxp
