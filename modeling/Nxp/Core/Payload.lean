import Nxp.Core.ConnRecv
import Nxp.Core.FrameLaws

/-! What a datagram is opened to, and the frames its payload is made of. -/

namespace Nxp

variable {fuel fuel' : Nat} {frame : Frame}

/-- Frames at the front of a payload, each with the number of octets it took. -/
def decodeFrames : Nat → Bytes → Option (List (Frame × Nat))
  | 0, payload => if payload.isEmpty then some [] else none
  | fuel + 1, payload =>
    if payload.isEmpty then some []
    else do
      let (frame, rest) ← frameDecode payload
      let others ← decodeFrames fuel rest
      some ((frame, payload.length - rest.length) :: others)

/-- All frames of a payload; each has at least one octet, so the length bounds their number. -/
def framesOf (payload : Bytes) : Option (List (Frame × Nat)) := decodeFrames payload.length payload

/-- Take frames in turn, stopping at the first that is refused. -/
def processEach (env : Env) (nowUs : UInt64) : Conn → List Frame → ErrorCode × Conn
  | conn, [] => (.ok, conn)
  | conn, frame :: frames =>
    match processFrame env conn frame nowUs with
    | (.ok, conn) => processEach env nowUs conn frames
    | (code, conn) => (code, conn)

theorem decodeFrames_succ {payload rest : Bytes}
    (more : ¬ payload.isEmpty) (read : frameDecode payload = some (frame, rest)) :
    decodeFrames (fuel + 1) payload =
      (decodeFrames fuel rest).map fun others => (frame, payload.length - rest.length) :: others := by
  rw [decodeFrames, if_neg more, read]
  show (decodeFrames fuel rest).bind _ = _
  rw [Option.map_eq_bind]
  rfl

theorem decodeFrames_enough {payload : Bytes}
    (enough : payload.length ≤ fuel)
    (enough' : payload.length ≤ fuel') : decodeFrames fuel payload = decodeFrames fuel' payload := by
  -- Every frame shortens the payload, so neither bound is reached before its end.
  induction fuel generalizing fuel' payload with
  | zero =>
    have empty : payload = [] := List.length_eq_zero_iff.mp (by omega)
    subst empty
    cases fuel' <;> rfl
  | succ fuel ih =>
    cases fuel' with
    | zero =>
      have empty : payload = [] := List.length_eq_zero_iff.mp (by omega)
      subst empty
      rfl
    | succ fuel' =>
      by_cases done : payload.isEmpty
      · rw [decodeFrames, decodeFrames, if_pos done, if_pos done]
      · cases read : frameDecode payload with
        | none => rw [decodeFrames, decodeFrames, if_neg done, if_neg done, read]; rfl
        | some pair =>
          obtain ⟨frame, rest⟩ := pair
          have shorter := frameDecode_shorter read
          rw [decodeFrames_succ done read, decodeFrames_succ done read,
            ih (by omega) (show rest.length ≤ fuel' by omega)]

/-- A frame at the front is followed by the frames of the rest. -/
theorem framesOf_cons {payload rest : Bytes} {others : List (Frame × Nat)}
    (read : frameDecode payload = some (frame, rest)) (tail : framesOf rest = some others) :
    framesOf payload = some ((frame, payload.length - rest.length) :: others) := by
  have shorter := frameDecode_shorter read
  obtain ⟨octet, payload, rfl⟩ := List.exists_cons_of_length_pos (show 0 < payload.length by omega)
  rw [List.length_cons] at shorter
  rw [framesOf, decodeFrames_enough (Nat.le_refl _) (show rest.length ≤ payload.length by omega)]
    at tail
  show decodeFrames (payload.length + 1) _ = _
  rw [decodeFrames_succ (by simp) read, tail, Option.map_some]

/-- The frames at the front of a payload, up to the first octets that are none. -/
def leadingLoop : Nat → Bytes → List Frame
  | 0, _ => []
  | fuel + 1, payload =>
    if payload.isEmpty then []
    else match frameDecode payload with
      | none => []
      | some (frame, rest) => frame :: leadingLoop fuel rest

/-- The frames a receiver finds in a payload before it gives up. -/
def leadingFrames (payload : Bytes) : List Frame := leadingLoop payload.length payload

theorem leadingLoop_enough {payload : Bytes} (enough : payload.length ≤ fuel)
    (enough' : payload.length ≤ fuel') : leadingLoop fuel payload = leadingLoop fuel' payload := by
  -- Every frame shortens the payload, so neither bound is reached before its end.
  induction fuel generalizing fuel' payload with
  | zero =>
    rw [List.length_eq_zero_iff.mp (Nat.le_zero.mp enough)]
    cases fuel' <;> rfl
  | succ fuel ih =>
    cases fuel' with
    | zero =>
      rw [List.length_eq_zero_iff.mp (Nat.le_zero.mp enough')]
      rfl
    | succ fuel' =>
      unfold leadingLoop
      cases read : frameDecode payload with
      | none => rfl
      | some pair =>
        have shorter := frameDecode_shorter read
        simp only [ih (show pair.2.length ≤ fuel by omega) (show pair.2.length ≤ fuel' by omega)]

/-- A frame at the front is found before the frames of the rest. -/
theorem leadingFrames_cons {payload rest : Bytes}
    (read : frameDecode payload = some (frame, rest)) :
    leadingFrames payload = frame :: leadingFrames rest := by
  have shorter := frameDecode_shorter read
  obtain ⟨octet, payload, rfl⟩ := List.exists_cons_of_length_pos (show 0 < payload.length by omega)
  rw [List.length_cons] at shorter
  rw [leadingFrames, leadingFrames, List.length_cons, leadingLoop, if_neg (by simp), read]
  exact congrArg _ (leadingLoop_enough (by omega) (Nat.le_refl _))

/-- Where a payload is made of frames, the receiver finds them all. -/
theorem leadingLoop_decodeFrames {payload : Bytes} {frames : List (Frame × Nat)}
    (read : decodeFrames fuel payload = some frames) :
    leadingLoop fuel payload = frames.map Prod.fst := by
  induction fuel generalizing payload frames with
  | zero =>
    rw [decodeFrames, Option.ite_none_right_eq_some] at read
    rw [← Option.some.inj read.2]
    rfl
  | succ fuel ih =>
    unfold decodeFrames at read
    unfold leadingLoop
    split at read
    · rw [if_pos ‹_›, ← Option.some.inj read]
      rfl
    · rw [if_neg ‹_›]
      simp only [Option.bind_eq_bind, Option.bind_eq_some_iff, Option.some.injEq] at read
      obtain ⟨⟨frame, rest⟩, first, others, tail, rfl⟩ := read
      simp only [first, ih tail, List.map_cons]

/-- A receiver takes the leading frames of a payload, whatever it answers to the rest. -/
theorem processLoop_leading (env : Env) (nowUs : UInt64) (fuel : Nat) (conn : Conn)
    (payload : Bytes) :
    (processLoop env nowUs fuel conn payload).2 =
      (processEach env nowUs conn (leadingLoop fuel payload)).2 := by
  induction fuel generalizing conn payload with
  | zero => rfl
  | succ fuel ih =>
    unfold processLoop leadingLoop
    split
    · rfl
    · cases frameDecode payload with
      | none => rfl
      | some pair =>
        obtain ⟨frame, rest⟩ := pair
        simp only [processEach]
        cases processFrame env conn frame nowUs with
        | mk code next => cases code <;> first | rfl | exact ih next rest

/-- Whether a frame carries a stretch of a stream. -/
def Frame.isStream : Frame → Bool
  | .stream _ => true
  | _ => false

/-- Whether a frame is a heartbeat. -/
def Frame.isHeartbeat : Frame → Bool
  | .heartbeat _ => true
  | _ => false

/-- Whether a frame asks for an acknowledgement. -/
def frameIsAckEliciting : Frame → Bool
  | .padding _ | .ack _ | .connectionClose _ => false
  | _ => true

/-- The number of an application packet whose header can be read, and its payload if that opens. -/
def readShort (evp : Evp) (conn : Conn) (data : Bytes) : Option (UInt64 × Option Bytes) := do
  let pkt ← unprotectShort evp conn data
  let hdr ← pktDecodeShortHeader pkt conn.scid.len conn.scid_len_le
  let fullPn := pktDecodePktNum conn.ack.largestRecvPn hdr.pktNum hdr.pktNumLen
  some (fullPn, (openShort evp conn pkt hdr.headerLen fullPn).map Prod.fst)

/-- The level and the payload of a handshake packet that can be opened. -/
def readLong (evp : Evp) (conn : Conn) (data : Bytes) : Option (CryptoLevel × Bytes) := do
  let hs ← conn.handshake
  let hdr ← pktDecodeLongHeader data
  let (level, keys) ← longKeys hs hdr.type
  let payload ← if keys.available then openLong evp keys data hdr else none
  some (level, payload)

/-- The payload of a datagram and, under a short header, the number the packet is taken to have. -/
def openDatagram (evp : Evp) (conn : Conn) (data : Bytes) : Option (Option UInt64 × Bytes) :=
  match data with
  | [] => none
  | first :: _ =>
    if data.length > packetBufSize then none
    else if pktIsLongHeader first then
      (readLong evp conn data).map fun (_, payload) => (none, payload)
    else do
      let (pktNum, payload) ← readShort evp conn data
      payload.map fun payload => (some pktNum, payload)

/-- What a connection is after it took an application packet: the number is recorded first. -/
def takeShort (env : Env) (conn : Conn) (pktNum : UInt64) (payload : Option Bytes)
    (event : ConnEvent) (nowUs : UInt64) : Conn :=
  let conn := { conn with ack := ackOnPktRecv conn.ack pktNum nowUs true }
  match payload with
  | none => conn
  | some payload => (processFrames env (conn.observe event) payload nowUs).2

/-- A connection that still takes packets. -/
def Conn.Listens (conn : Conn) : Prop := ¬ (conn.state = .closed ∨ conn.state = .draining)

section Opened

variable {evp : Evp} {conn : Conn} {first : UInt8} {rest data payload : Bytes} {pktNum : UInt64}

/-- A packet whose header cannot be read changes nothing. -/
theorem recvShortPacket_unread (unread : readShort evp conn data = none) (env : Env)
    (nowUs : UInt64) : (recvShortPacket evp env conn data nowUs).2 = conn := by
  unfold recvShortPacket
  split
  · rfl
  · unfold readShort at unread
    cases unprotected : unprotectShort evp conn data with
    | none => rfl
    | some pkt =>
      rw [unprotected] at unread
      cases decoded : pktDecodeShortHeader pkt conn.scid.len conn.scid.bounded with
      | none => simp only [decoded]
      | some hdr => simp [decoded] at unread

/-- A packet whose header can be read is recorded, and its frames are taken if it opens. -/
theorem recvShortPacket_read {opened : Option Bytes} (fits : ¬ data.length > packetBufSize)
    (read : readShort evp conn data = some (pktNum, opened)) (env : Env) (nowUs : UInt64) :
    ∃ event, (recvShortPacket evp env conn data nowUs).2 =
      takeShort env conn pktNum opened event nowUs := by
  unfold readShort at read
  simp only [Option.bind_eq_bind, Option.bind_eq_some_iff, Option.some.injEq,
    Prod.mk.injEq] at read
  obtain ⟨pkt, unprotected, hdr, decoded, rfl, rfl⟩ := read
  unfold recvShortPacket
  rw [if_neg fits, unprotected]
  simp only [decoded]
  -- The recorded number does not matter for opening.
  cases clear : openShort evp conn pkt hdr.headerLen
      (pktDecodePktNum conn.ack.largestRecvPn hdr.pktNum hdr.pktNumLen) with
  | none =>
    refine ⟨.processed [] none, ?_⟩
    split
    · rfl
    · rename_i found
      cases clear.symm.trans found
  | some pair =>
    obtain ⟨payload, call⟩ := pair
    refine ⟨.processed payload call, ?_⟩
    split
    · rename_i failed
      cases clear.symm.trans failed
    · rename_i found
      cases clear.symm.trans found
      rfl

/-- A connection that still listens takes the frames of an application packet it opened, after it
recorded the number as one to be acknowledged. -/
theorem connRecv_opened (opens : openDatagram evp conn data = some (some pktNum, payload))
    (listens : ¬ (conn.state = .closed ∨ conn.state = .draining)) (env : Env) (nowUs : UInt64) :
    ∃ event, (connRecv evp env conn data nowUs).2 =
      takeShort env (noteRecv conn data.length nowUs) pktNum (some payload) event nowUs := by
  unfold openDatagram at opens
  unfold connRecv
  cases data with
  | nil => cases opens
  | cons first rest =>
    simp only [if_neg listens]
    simp only at opens
    split at opens
    · cases opens
    · rename_i fits
      split at opens
      · simp at opens
      · rename_i short
        simp only [Option.bind_eq_bind, Option.bind_eq_some_iff, Option.map_eq_some_iff,
          Prod.mk.injEq, Option.some.injEq] at opens
        obtain ⟨⟨number, opened⟩, read, clear, rfl, rfl, rfl⟩ := opens
        rw [if_neg short]
        -- The counters do not matter for reading.
        have noted : readShort evp (noteRecv conn (first :: rest).length nowUs) (first :: rest) =
            some (number, some clear) := read
        exact recvShortPacket_read fits noted env nowUs

/-- A packet that was opened without a number of its own is one of the handshake. -/
theorem connRecv_opened_long (opens : openDatagram evp conn data = some (none, payload))
    (listens : ¬ (conn.state = .closed ∨ conn.state = .draining)) (env : Env) (nowUs : UInt64) :
    connRecv evp env conn data nowUs =
      recvHandshakePacket evp (noteRecv conn data.length nowUs) data := by
  unfold openDatagram at opens
  unfold connRecv
  cases data with
  | nil => cases opens
  | cons first rest =>
    simp only [if_neg listens]
    simp only at opens
    split at opens
    · cases opens
    · split at opens
      · rename_i long
        rw [if_pos long]
      · simp [Option.bind_eq_some_iff] at opens

end Opened

end Nxp
