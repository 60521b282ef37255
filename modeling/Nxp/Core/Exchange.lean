import Nxp.Core.ConnLaws

/-! Two connections and a network between them that drops, repeats and reorders. -/

namespace Nxp

variable (link : Link) (side : Side)

/-- One of two ends. -/
inductive Side where
  | a
  | b
  deriving DecidableEq, Repr

/-- The end a datagram goes to. -/
def Side.other : Side → Side
  | .a => .b
  | .b => .a

/-- A datagram that was sent, and the connection it was sent from as it stood. -/
structure Posted where
  bytes : Bytes
  sender : Conn

/-- Two connections and every datagram either has sent, none of which is ever forgotten. -/
structure Link where
  a : Conn
  b : Conn
  sentA : List Posted
  sentB : List Posted

/-- What happens at one of the two ends. -/
inductive LinkOp where
  | operate (side : Side) (env : Env) (op : ConnOp)
  | deliver (side : Side) (env : Env) (index : Nat) (nowUs : UInt64)

namespace Link

/-- The connection at an end. -/
def conn (link : Link) : Side → Conn
  | .a => link.a
  | .b => link.b

/-- Everything an end has sent. -/
def posted (link : Link) : Side → List Posted
  | .a => link.sentA
  | .b => link.sentB

/-- Put a connection in the place of one end. -/
def set (link : Link) (side : Side) (conn : Conn) : Link :=
  match side with
  | .a => { link with a := conn }
  | .b => { link with b := conn }

/-- Hand what an end sent to the network. -/
def post (link : Link) (side : Side) : SendResult → Link
  | .datagram bytes =>
    match side with
    | .a => { link with sentA := link.sentA ++ [⟨bytes, link.a⟩] }
    | .b => { link with sentB := link.sentB ++ [⟨bytes, link.b⟩] }
  | _ => link

/-- The end that was changed is the one put there. -/
@[simp] theorem set_conn (conn : Conn) :
    (link.set side conn).conn side = conn := by cases side <;> rfl

/-- The other end stays. -/
theorem set_conn_ne {side other : Side} (apart : other ≠ side) (conn : Conn) :
    (link.set side conn).conn other = link.conn other := by
  cases side <;> cases other <;> first | rfl | exact absurd rfl apart

/-- Changing an end sends nothing. -/
@[simp] theorem set_posted (conn : Conn) :
    (link.set side conn).posted = link.posted := by
  cases side <;> exact funext fun other => by cases other <;> rfl

/-- Sending changes neither end. -/
@[simp] theorem post_conn (result : SendResult) :
    (link.post side result).conn = link.conn := by
  cases result <;> cases side <;> exact funext fun other => by cases other <;> rfl

/-- What is on the network was there before or was just sent. -/
theorem mem_post {link : Link} {side other : Side} {result : SendResult} {posted : Posted}
    (sent : posted ∈ (link.post side result).posted other) :
    posted ∈ link.posted other ∨
      other = side ∧ result = .datagram posted.bytes ∧ posted.sender = link.conn side := by
  cases result with
  | datagram bytes =>
    cases side <;> cases other <;> simp only [post, Link.posted, List.mem_append,
      List.mem_singleton] at sent
    · rcases sent with before | rfl
      · exact .inl before
      · exact .inr ⟨rfl, rfl, rfl⟩
    · exact .inl sent
    · exact .inl sent
    · rcases sent with before | rfl
      · exact .inl before
      · exact .inr ⟨rfl, rfl, rfl⟩
  | _ => exact .inl sent

end Link

/-- One step: an end does something of its own, or the network hands it a datagram of the other. -/
def linkStep (evp : Evp) (link : Link) : LinkOp → Option Link
  -- Datagrams come from the other end only.
  | .operate _ _ (.recv _ _) => some link
  | .operate side env (.send maxLen nowUs) =>
    (connSend evp env (link.conn side) maxLen nowUs).map fun sent =>
      (link.post side sent.1).set side sent.2
  | .operate side env op => (connStep evp (link.conn side) (env, op)).map (link.set side)
  | .deliver side env index nowUs =>
    match (link.posted side.other)[index]? with
    | none => some link
    | some posted => some (link.set side (connRecv evp env (link.conn side) posted.bytes nowUs).2)

/-- What a step can do: change one end, after handing what it sent to the network. -/
theorem linkStep_cases {evp : Evp} {link next : Link} {op : LinkOp}
    (stepped : linkStep evp link op = some next) :
    next = link ∨
      (∃ side env op conn, connStep evp (link.conn side) (env, op) = some conn ∧
        next = link.set side conn) ∨
      ∃ side env maxLen nowUs result conn,
        connSend evp env (link.conn side) maxLen nowUs = some (result, conn) ∧
          next = (link.post side result).set side conn := by
  unfold linkStep at stepped
  split at stepped
  · exact .inl (Option.some.inj stepped).symm
  · rename_i side env maxLen nowUs
    obtain ⟨⟨result, conn⟩, sent, rfl⟩ := Option.map_eq_some_iff.mp stepped
    exact .inr (.inr ⟨side, env, maxLen, nowUs, result, conn, sent, rfl⟩)
  · rename_i side env op _ _
    obtain ⟨conn, done, rfl⟩ := Option.map_eq_some_iff.mp stepped
    exact .inr (.inl ⟨side, env, op, conn, done, rfl⟩)
  · rename_i side env index nowUs
    split at stepped
    · exact .inl (Option.some.inj stepped).symm
    · rename_i posted found
      cases stepped
      exact .inr (.inl ⟨side, env, .recv posted.bytes nowUs, _, rfl, rfl⟩)

/-- Two new connections, the client at one end and the server at the other. -/
def newLink (client server : ConnConfig) (allocCc : Bool) : Link where
  a := connCreate client false allocCc
  b := connCreate server true allocCc
  sentA := []
  sentB := []

/-- The steps of an undisturbed handshake. -/
def greeting : List LinkOp :=
  [.operate .b plainEnv (.startHandshake ConnId.empty),
    .operate .a plainEnv (.startHandshake ConnId.empty), .operate .a plainEnv (.send 1200 0),
    .deliver .b plainEnv 0 0, .operate .b plainEnv (.send 1200 0),
    .operate .b plainEnv (.send 1200 0), .deliver .a plainEnv 0 0, .deliver .a plainEnv 1 0]

/-- Two connections of the simplest configuration, after some steps. -/
def plainLink (ops : List LinkOp) : Link :=
  (Machine.attempt (linkStep plainEvp) (newLink plainConfig plainConfig false) ops).getD
    (newLink plainConfig plainConfig false)

/-- Steps that all return lead to where they are said to lead. -/
theorem plainLink_reached {ops : List LinkOp}
    (returns : (Machine.attempt (linkStep plainEvp) (newLink plainConfig plainConfig false)
      ops).isSome = true) :
    Machine.attempt (linkStep plainEvp) (newLink plainConfig plainConfig false) ops =
      some (plainLink ops) := by
  obtain ⟨link, reached⟩ := Option.isSome_iff_exists.mp returns
  unfold plainLink
  rw [reached, Option.getD_some]

end Nxp
