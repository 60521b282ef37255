import Nxp.Core.Exchange
import Nxp.Core.OpenLaws
import Nxp.Core.SecureLaws

/-! Which packet numbers survive being cut to their low octets. -/

namespace Nxp

variable {evp : Evp}

/-- How many octets of its number a connection puts into its next application packet. -/
def sentPnLen (sender : Conn) : Nat :=
  if (sender.handshake.filter handshakeHasData).isSome then 1 else nextPnLen sender

/-- A datagram is a handshake packet, or sealed under the sender's keys and number. -/
def Posted.Genuine (evp : Evp) (keys : CryptoState) (posted : Posted) : Prop :=
  (∃ first rest, posted.bytes = first :: rest ∧ pktIsLongHeader first = true) ∨
    ∃ frames, sealPacket evp keys
      (shortHeader posted.sender.dcid (sentPnLen posted.sender) posted.sender.nextPktNum)
      (sentPnLen posted.sender) posted.sender.nextPktNum frames = some posted.bytes

/-- Two established connections that share keys, with only their own datagrams on the network. -/
structure Link.Established (evp : Evp) (link : Link) : Prop where
  state : ∀ side, (link.conn side).state = .established
  keyed : ∀ side, (link.conn side).crypto.available = true
  mirrored : ∀ side, (link.conn side).crypto.recv = (link.conn side.other).crypto.send
  algo : ∀ side, (link.conn side).crypto.algo = (link.conn side.other).crypto.algo
  finished : ∀ side hs, (link.conn side).handshake = some hs →
    hs.state = .complete ∧ hs.appKeys = (link.conn side).crypto
  genuine : ∀ side, ∀ posted ∈ link.posted side, posted.Genuine evp (link.conn side).crypto

/-- The number a connection makes of a datagram, if it takes it for an application packet whose
header it can read. -/
def receivedPktNum (evp : Evp) (conn : Conn) (data : Bytes) : Option UInt64 :=
  match data.head? with
  | none => none
  | some first => if pktIsLongHeader first then none else headerPktNum evp conn data

/-- What holds all along a run: both ends keep their keys, and the network forges nothing. -/
structure Joined (evp : Evp) (keys : Side → CryptoState) (scid : Side → ConnId) (link : Link) :
    Prop where
  secured : ∀ side, Secured (keys side) (scid side) (link.conn side)
  genuine : ∀ side, ∀ posted ∈ link.posted side, posted.Genuine evp (keys side)

/-- A packet number takes one to four octets. -/
theorem sentPnLen_bounds (sender : Conn) : 1 ≤ sentPnLen sender ∧ sentPnLen sender ≤ 4 := by
  unfold sentPnLen
  split
  · exact ⟨by decide, by decide⟩
  · exact pktNumLen_bounds sender.nextPktNum sender.ack.largestRecvPn

/-- What a secured connection sends is genuine. -/
theorem Secured.posts {keys : CryptoState} {scid : ConnId} {conn next : Conn}
    (secured : Secured keys scid conn) (keyed : keys.available = true) {env : Env} {maxLen : Nat}
    {nowUs : UInt64} {bytes : Bytes}
    (sent : Nxp.connSend evp env conn maxLen nowUs = some (.datagram bytes, next)) :
    Posted.Genuine evp keys ⟨bytes, conn⟩ := by
  rcases connSend_datagram sent with
    ⟨hs, waiting, -, -, closed⟩ | ⟨hs, -, -, long⟩ | ⟨done, b, after, built, -, -, closed⟩
  · -- The notice goes out under the keys of the handshake, which are those of the connection.
    right
    have installed := (secured.finished hs (Option.filter_eq_some_iff.mp waiting).1).2
    rw [installed] at closed
    refine ⟨handshakeDoneFrames 1, ?_⟩
    simp only [sentPnLen, waiting, Option.isSome_some, if_true]
    exact closed
  · exact .inl long
  · right
    have kept := buildFrames_assembles built
    have crypto : b.conn.crypto = keys := kept.crypto.trans secured.crypto
    have number : b.conn.nextPktNum = conn.nextPktNum := kept.number
    unfold closePacket at closed
    rw [crypto, number, if_pos keyed, Option.map_eq_some_iff] at closed
    obtain ⟨packet, closed, same⟩ := closed
    cases same
    refine ⟨b.frames, ?_⟩
    simp only [sentPnLen, done, Option.isSome_none, Bool.false_eq_true, if_false]
    exact closed

/-- Every step keeps two ends joined. -/
theorem linkStep_joined {keys : Side → CryptoState} {scid : Side → ConnId}
    (keyed : ∀ side, (keys side).available = true) {link next : Link} {op : LinkOp}
    (joined : Joined evp keys scid link) (stepped : linkStep evp link op = some next) :
    Joined evp keys scid next := by
  -- Whichever end acts stays secured, and the other one is not touched.
  have settled {side : Side} {conn : Conn} (link : Link) (before : ∀ side,
      Secured (keys side) (scid side) (link.conn side))
      (after : Secured (keys side) (scid side) conn) :
      ∀ other, Secured (keys other) (scid other) ((link.set side conn).conn other) := by
    intro other
    by_cases same : other = side
    · subst same
      rw [Link.set_conn]
      exact after
    · rw [Link.set_conn_ne link same]
      exact before other
  rcases linkStep_cases stepped with rfl | ⟨side, env, op, conn, done, rfl⟩ |
    ⟨side, env, maxLen, nowUs, result, conn, sent, rfl⟩
  · exact joined
  · refine ⟨settled link joined.secured ((joined.secured side).connStep done), ?_⟩
    rw [Link.set_posted]
    exact joined.genuine
  · refine ⟨settled _ ?_ ((joined.secured side).connSend sent), ?_⟩
    · rw [Link.post_conn]
      exact joined.secured
    · intro other posted member
      rw [Link.set_posted] at member
      rcases Link.mem_post member with before | ⟨rfl, rfl, same⟩
      · exact joined.genuine other posted before
      · have posts := (joined.secured other).posts (keyed other) sent
        rw [← same] at posts
        exact posts

theorem Link.Established.joined {link : Link} (established : link.Established evp) :
    Joined evp (fun side => (link.conn side).crypto) (fun side => (link.conn side).scid) link where
  secured side := ⟨rfl, rfl, established.finished side, by rw [established.state side]; decide⟩
  genuine := established.genuine

/-- In every run of two established connections, the number that is made of a datagram of the other
end is the one it was sent with exactly when that can be told from the octets the sender put into
it, whose count the sender takes from the numbers it has itself received. -/
theorem number_reconstructed_iff {evp : Evp} (inverts : evp.Inverts) {start final : Link}
    (established : start.Established evp) {ops : List LinkOp}
    (reached : Machine.attempt (linkStep evp) start ops = some final) {side : Side}
    {posted : Posted} (sent : posted ∈ final.posted side.other)
    (addressed : posted.sender.dcid.len = (final.conn side).scid.len)
    (known : (final.conn side).ack.largestRecvPn.toNat + 1 < 2 ^ 62)
    (bounded : posted.sender.nextPktNum.toNat < 2 ^ 62) {fullPn : UInt64}
    (read : receivedPktNum evp (final.conn side) posted.bytes = some fullPn) :
    fullPn = posted.sender.nextPktNum ↔
      Recoverable (final.conn side).ack.largestRecvPn posted.sender.nextPktNum
        (sentPnLen posted.sender) := by
  -- All along the run the ends keep their keys and the network carries only what they sent.
  have joined := Machine.attempt_preserves _
    (fun _ _ _ before stepped => linkStep_joined established.keyed before stepped)
    established.joined reached
  have crypto := (joined.secured side).crypto
  have reads : (final.conn side).Reads (start.conn side.other).crypto posted.sender.dcid :=
    ⟨by rw [crypto]; exact established.keyed side, by rw [crypto]; exact established.mirrored side,
      by rw [crypto]; exact established.algo side, addressed.symm⟩
  obtain ⟨positive, short⟩ := sentPnLen_bounds posted.sender
  rcases joined.genuine side.other posted sent with ⟨first, rest, shape, long⟩ | ⟨frames, closed⟩
  · -- A long header is not read as an application packet.
    rw [shape] at read
    simp [receivedPktNum, long] at read
  · obtain ⟨first, rest, shape, form⟩ := sealPacket_short inverts closed positive short
    have read : headerPktNum evp (final.conn side) posted.bytes = some fullPn := by
      simpa [receivedPktNum, shape, form] using read
    by_cases long : 4 ≤ sentPnLen posted.sender + frames.length
    · rw [headerPktNum_sealed inverts closed reads positive short long, Option.some.injEq] at read
      rw [← read]
      exact pktDecodePktNum_iff positive short (readBigEndian_pktNumBytes _ (by omega) _) known
        bounded
    · -- Without a sample the header cannot be read at all.
      have unread := unprotectShort_unsampled inverts closed reads (by omega)
      simp [headerPktNum, unread] at read

/-- Two ends that have just met, with nothing on the network. -/
def metLink : Link := { plainLink greeting with sentA := [], sentB := [] }

theorem metLink_established : metLink.Established plainEvp := by
  have all : ∀ side ∈ [Side.a, Side.b], (metLink.conn side).state = .established ∧
      (metLink.conn side).crypto.available = true ∧
      (metLink.conn side).crypto.recv = (metLink.conn side.other).crypto.send ∧
      (metLink.conn side).crypto.algo = (metLink.conn side.other).crypto.algo ∧
      ∀ hs ∈ (metLink.conn side).handshake,
        hs.state = .complete ∧ hs.appKeys = (metLink.conn side).crypto := by decide +kernel
  have each (side : Side) := all side (by cases side <;> simp)
  exact
    { state := fun side => (each side).1
      keyed := fun side => (each side).2.1
      mirrored := fun side => (each side).2.2.1
      algo := fun side => (each side).2.2.2.1
      finished := fun side => (each side).2.2.2.2
      genuine := by
        intro side posted sent
        cases side <;> cases sent }

/-- The client acknowledges the notice of the server. -/
def greetingAck : List LinkOp := [.operate .a plainEnv (.send 1200 1)]

/-- The two ends once the client has acknowledged. -/
def ackedLink : Link := (Machine.attempt (linkStep plainEvp) metLink greetingAck).getD metLink

/-- The server makes of the acknowledgement the number it was sent with. -/
theorem number_reconstructed_ack :
    ∃ posted ∈ ackedLink.posted .a,
      receivedPktNum plainEvp (ackedLink.conn .b) posted.bytes = some posted.sender.nextPktNum := by
  have all : (Machine.attempt (linkStep plainEvp) metLink greetingAck).isSome = true ∧
      ∃ posted ∈ ackedLink.posted .a,
        posted.sender.dcid.len = (ackedLink.conn .b).scid.len ∧
        (ackedLink.conn .b).ack.largestRecvPn.toNat + 1 < 2 ^ 62 ∧
        posted.sender.nextPktNum.toNat < 2 ^ 62 ∧
        (receivedPktNum plainEvp (ackedLink.conn .b) posted.bytes).isSome = true ∧
        Recoverable (ackedLink.conn .b).ack.largestRecvPn posted.sender.nextPktNum
          (sentPnLen posted.sender) := by decide +kernel
  obtain ⟨returns, posted, sent, addressed, known, bounded, read, recoverable⟩ := all
  obtain ⟨fullPn, read⟩ := Option.isSome_iff_exists.mp read
  obtain ⟨link, reached⟩ := Option.isSome_iff_exists.mp returns
  have ended : Machine.attempt (linkStep plainEvp) metLink greetingAck = some ackedLink := by
    unfold ackedLink
    rw [reached, Option.getD_some]
  refine ⟨posted, sent, ?_⟩
  have fromOther : posted ∈ ackedLink.posted (Side.other .b) := sent
  rw [read]
  exact congrArg some ((number_reconstructed_iff plainEvp_inverts metLink_established ended
    fromOther addressed known bounded read).mpr recoverable)

/-- An end sends a heartbeat. -/
def beat (side : Side) : List LinkOp :=
  [.operate side plainEnv (.setHeartbeat 1), .operate side plainEnv (.onTimeout 0),
    .operate side plainEnv (.send 1200 0)]

/-- The client's first 256 packets get lost and so do those of the server but the last of 131, after
which the client sends once more. -/
def starving : List LinkOp :=
  (List.replicate 256 (beat .a)).flatten ++ (List.replicate 131 (beat .b)).flatten ++
    [.deliver .a plainEnv 132 0] ++ beat .a

/-- The client sends one octet of the number 256 to a server that has received none of its packets,
and the server takes it for the number 0. -/
theorem number_mistaken :
    ∃ final, Machine.attempt (linkStep plainEvp) (newLink plainConfig plainConfig false)
        (greeting ++ starving) = some final ∧
      (final.conn .a).state = .established ∧ (final.conn .b).state = .established ∧
      (final.conn .b).ack.largestRecvPn = 0 ∧
      ∃ posted ∈ final.posted .a, posted.sender.nextPktNum = 256 ∧
        receivedPktNum plainEvp (final.conn .b) posted.bytes = some 0 := by
  -- The run is worked out once, and all that is asked of its end with it.
  obtain ⟨final, reached, client, server, largest, posted, sent, number, mistaken⟩ : ∃ final,
      Machine.attempt (linkStep plainEvp) (newLink plainConfig plainConfig false)
        (greeting ++ starving) = some final ∧
      (final.conn .a).state = .established ∧ (final.conn .b).state = .established ∧
      (final.conn .b).ack.largestRecvPn = 0 ∧
      ∃ posted ∈ (final.posted .a)[257]?, posted.sender.nextPktNum = 256 ∧
        receivedPktNum plainEvp (final.conn .b) posted.bytes = some 0 := by
    decide +kernel
  exact ⟨final, reached, client, server, largest, posted, List.mem_of_getElem? sent, number,
    mistaken⟩

end Nxp
