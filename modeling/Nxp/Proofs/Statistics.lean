import Nxp.Core.AckRuns
import Nxp.Core.StreamMoves

/-! When what a connection counts as sent is what it sends: only while it sends nothing. -/

namespace Nxp

variable {maxLen : Nat} {result : SendResult}

/-- A connection with the datagrams its calls to send have returned. -/
structure CountTrace where
  conn : Conn
  datagrams : List Bytes

/-- The datagram that an operation returns. -/
def returnedBy (evp : Evp) (conn : Conn) : Env × ConnOp → List Bytes
  | (env, .send maxLen nowUs) =>
    match connSend evp env conn maxLen nowUs with
    | some (.datagram bytes, _) => [bytes]
    | _ => []
  | _ => []

/-- Let an operation happen and note the datagram it returns. -/
def countedStep (evp : Evp) (t : CountTrace) (input : Env × ConnOp) : Option CountTrace :=
  (connStep evp t.conn input).map fun next => ⟨next, t.datagrams ++ returnedBy evp t.conn input⟩

/-- Packets and octets sent are those of the datagrams, and no more were lost than sent. -/
structure CountTrace.Right (t : CountTrace) : Prop where
  packets : t.conn.stats.packetsSent.toNat = t.datagrams.length
  bytes : t.conn.stats.bytesSent.toNat = (t.datagrams.map List.length).sum
  lost : t.conn.stats.packetsLost ≤ t.conn.stats.packetsSent

/-- A call to send counts no packet, whatever it returns. -/
theorem connSend_packetsSent {evp : Evp} {env : Env} {conn next : Conn} {nowUs : UInt64}
    (called : connSend evp env conn maxLen nowUs = some (result, next)) :
    next.stats.packetsSent = conn.stats.packetsSent := by
  cases connSend_sent called with
  | handshake waiting sent => cases sent <;> rfl
  | closed => rfl
  | held => rfl
  | short quiet busy free sent => exact (congrArg (·.stats.packetsSent) sent.ships :)

/-- As long as the statistics are right, no datagram has been returned. -/
theorem right_silent {evp : Evp} {start : Conn} {inputs : List (Env × ConnOp)} {t : CountTrace}
    (reached : Machine.attempt (countedStep evp) ⟨start, []⟩ inputs = some t)
    (right : ∀ past rest middle, inputs = past ++ rest →
      Machine.attempt (countedStep evp) ⟨start, []⟩ past = some middle → middle.Right) :
    t.datagrams = [] := by
  -- The induction is on the operations, the last one being looked at.
  induction inputs using List.reverseRecOn generalizing t with
  | nil =>
    cases reached
    rfl
  | append_singleton past input ih =>
    have last := right _ [] t (List.append_nil _).symm reached
    obtain ⟨middle, before, stepped⟩ := Machine.attempt_concat_some.mp reached
    have silent := ih before fun earlier rest other parts => right earlier (rest ++ [input]) other
      (by rw [parts, List.append_assoc])
    have counted := (right past [input] middle rfl before).packets
    obtain ⟨next, moved, rfl⟩ := Option.map_eq_some_iff.mp stepped
    simp only [silent, List.nil_append, List.length_nil] at counted last ⊢
    obtain ⟨env, op⟩ := input
    cases op with
    | send maxLen nowUs =>
      obtain ⟨⟨result, sent⟩, called, rfl⟩ := Option.map_eq_some_iff.mp moved
      cases result with
      | datagram bytes =>
        -- The count of packets is as before, the number of datagrams is not.
        have packets := last.packets
        simp only [returnedBy, called, List.length_singleton] at packets
        rw [connSend_packetsSent called, counted] at packets
        cases packets
      | _ => simp [returnedBy, called]
    | _ => rfl

/-- The packets that are tracked, and how many were counted as sent and lost. -/
def Conn.books (conn : Conn) : List SentPkt × UInt64 × UInt64 × UInt64 :=
  (conn.ack.sent, conn.stats.packetsSent, conn.stats.bytesSent, conn.stats.packetsLost)

section Blank

variable {evp : Evp} {env : Env} {conn next : Conn} {nowUs : UInt64}

/-- A frame finds no packet to count where none is tracked. -/
theorem processFrame_blank (blank : conn.books = ([], 0, 0, 0)) (frame : Frame) :
    (processFrame env conn frame nowUs).2.books = ([], 0, 0, 0) := by
  cases about : frame.transfers with
  | false => exact (congrArg Conn.books (processFrame_control env conn nowUs about) :).trans blank
  | true =>
    cases frame with
    | ack f =>
      have sent : conn.ack.sent = [] := congrArg Prod.fst blank
      show (recvAckFrame conn f nowUs).books = _
      rw [← blank]
      unfold recvAckFrame ackOnAckRecv
      simp [sent, ackLoop, detectLostPackets, detectLoop, Conn.books]
    | stream f => exact (congrArg Conn.books (recvStreamFrame_only env conn f) :).trans blank
    | maxStreamData streamId limit =>
      exact (congrArg Conn.books (recvMaxStreamData_only conn streamId limit) :).trans blank
    | _ => cases about

/-- The timer finds no packet to give up where none is tracked. -/
theorem lossTimer_blank (blank : conn.books = ([], 0, 0, 0)) :
    (lossTimer conn nowUs).books = ([], 0, 0, 0) := by
  have sent : conn.ack.sent = [] := congrArg Prod.fst blank
  rw [← blank]
  unfold lossTimer ackOnLossTimeout
  simp only [detectLostPackets, sent, detectLoop]
  repeat' split
  all_goals simp [Conn.books, sent]

theorem recorded_books (len : Nat) (nowUs pktNum : UInt64) :
    (conn.recorded len nowUs pktNum).books = conn.books := by
  obtain ⟨_, _, _, _, _, noted⟩ := ackOnPktRecv_fields conn.ack pktNum nowUs true
  unfold Conn.recorded Conn.books
  rw [noted]
  rfl

/-- A call to send that returns no datagram counts nothing. -/
theorem connSend_books (called : connSend evp env conn maxLen nowUs = some (result, next))
    (none : ∀ bytes, result ≠ .datagram bytes) : next.books = conn.books := by
  cases connSend_sent called with
  | handshake waiting sent => cases sent <;> rfl
  | closed => rfl
  | held => rfl
  | short quiet busy free sent =>
    cases sent with
    | cramped => rfl
    | empty built => exact (congrArg Conn.books (buildFrames_assembles built).only :)
    | refused built => exact (congrArg Conn.books (buildFrames_assembles built).only :)
    | sent => exact absurd rfl (none _)

/-- An operation that returns no datagram counts nothing where nothing was counted. -/
theorem connStep_blank {op : ConnOp} (blank : conn.books = ([], 0, 0, 0))
    (silent : returnedBy evp conn (env, op) = [])
    (stepped : connStep evp conn (env, op) = some next) : next.books = ([], 0, 0, 0) := by
  cases op with
  | recv data nowUs =>
    cases stepped
    refine connRecv_invariant (fun conn => conn.books = ([], 0, 0, 0)) blank blank ?_
      (fun pktNum => ?_) (fun pktNum _ _ _ _ _ => ?_) fun conn frame blank =>
        processFrame_blank blank frame
    · exact (congrArg Conn.books (HandshakeOnly.recvHandshakePacket evp _ data) :).trans blank
    · exact (recorded_books data.length nowUs pktNum).trans blank
    · exact (recorded_books data.length nowUs pktNum).trans blank
  | send maxLen nowUs =>
    obtain ⟨⟨result, sent⟩, called, rfl⟩ := Option.map_eq_some_iff.mp stepped
    refine (connSend_books called fun bytes same => ?_).trans blank
    rw [same] at called
    simp [returnedBy, called] at silent
  | onTimeout nowUs =>
    cases stepped
    show (connOnTimeout conn nowUs).books = _
    have fired := @lossTimer_blank conn nowUs blank
    unfold connOnTimeout
    split
    · exact (congrArg Conn.books (setConnState_only conn .closed) :).trans blank
    · simp only
      split
      · exact (congrArg Conn.books (setConnState_only _ .closed) :).trans fired
      · exact fired
  | startHandshake peerCid =>
    cases stepped
    exact (congrArg Conn.books (connStartHandshake_only evp env conn peerCid) :).trans blank
  | setEstablished dcid =>
    cases stepped
    exact (congrArg Conn.books (setConnState_only { conn with dcid := dcid } .established) :).trans
      blank
  | _ => exact (congrArg Conn.books (connStep_arranges (by trivial) stepped) :).trans blank

end Blank

/-- The statistics are right in every state of a run exactly if it has returned no datagram. -/
theorem statistics_right_iff {evp : Evp} {config : ConnConfig} {isServer allocCc : Bool}
    {inputs : List (Env × ConnOp)} {t : CountTrace}
    (reached : Machine.attempt (countedStep evp) ⟨connCreate config isServer allocCc, []⟩ inputs =
      some t) :
    (∀ past rest middle, inputs = past ++ rest →
      Machine.attempt (countedStep evp) ⟨connCreate config isServer allocCc, []⟩ past =
        some middle → middle.Right) ↔ t.datagrams = [] := by
  refine ⟨right_silent reached, ?_⟩
  rintro silent past rest middle rfl there
  rw [Machine.attempt_append, there, Option.bind_some] at reached
  -- Datagrams are only added, so none was returned by then.
  have fewer : middle.datagrams <+: t.datagrams :=
    Machine.attempt_preserves (fun t => middle.datagrams <+: t.datagrams)
      (fun _ _ _ front stepped => by
        obtain ⟨next, -, rfl⟩ := Option.map_eq_some_iff.mp stepped
        exact front.trans (List.prefix_append _ _)) (List.prefix_refl _) reached
  rw [silent, List.prefix_nil] at fewer
  have counted : middle.datagrams = [] → middle.conn.books = ([], 0, 0, 0) :=
    Machine.attempt_preserves (fun t => t.datagrams = [] → t.conn.books = ([], 0, 0, 0))
      (fun t input _ blank stepped => by
        obtain ⟨next, moved, rfl⟩ := Option.map_eq_some_iff.mp stepped
        intro still
        obtain ⟨before, now⟩ := List.append_eq_nil_iff.mp still
        exact connStep_blank (blank before) now moved) (fun _ => rfl) there
  have books := counted fewer
  simp only [Conn.books, Prod.mk.injEq] at books
  obtain ⟨-, packets, bytes, lost⟩ := books
  exact ⟨by rw [packets, fewer]; rfl, by rw [bytes, fewer]; rfl,
    by rw [packets, lost]; exact UInt64.le_refl _⟩

/-- A packet with three octets of a stream is returned, and no packet is counted. -/
theorem statistics_uncounted :
    ∃ t, Machine.attempt (countedStep plainEvp) ⟨connCreate plainConfig false true, []⟩
        (threeWritten ++ [(plainEnv, .send 1400 10)]) = some t ∧
      t.datagrams.length = 1 ∧ t.conn.stats.packetsSent = 0 := by
  decide +kernel

/-- While the octets are only written, the statistics are right. -/
theorem statistics_right_three :
    ∃ t, Machine.attempt (countedStep plainEvp) ⟨connCreate plainConfig false true, []⟩
      threeWritten = some t ∧ t.Right := by
  obtain ⟨t, reached, silent⟩ : ∃ t, Machine.attempt (countedStep plainEvp)
      ⟨connCreate plainConfig false true, []⟩ threeWritten = some t ∧ t.datagrams = [] := by
    decide +kernel
  exact ⟨t, reached,
    (statistics_right_iff reached).mpr silent _ [] t (List.append_nil _).symm reached⟩

end Nxp
