import Nxp.Core.AckLaws
import Nxp.Core.ConnOps
import Nxp.Core.HandshakeLaws
import Nxp.Lib.Machine

/-! What the operations of a connection leave alone, and what they let an observer see. -/

namespace Nxp

variable (ack : AckState) (pkt : SentPkt) {f : Stream → Stream}

section Streams

variable (conn : Conn) (id other : UInt64) (s : Stream)

/-- A stream is found where it was put, and the others where they were. -/
theorem Conn.stream_setStream :
    (conn.setStream id s).stream other = if other = id then some s else conn.stream other := by
  unfold Conn.stream Conn.setStream
  split
  · rename_i same
    rw [same, AList.lookup_insert]
  · rename_i differ
    exact AList.lookup_insert_ne differ

/-- A stream is found changed where it was changed, and the others as they were. -/
theorem Conn.stream_modifyStream (f : Stream → Stream) :
    (conn.modifyStream id f).stream other =
      if other = id then (conn.stream id).map f else conn.stream other := by
  unfold Conn.modifyStream
  cases found : conn.stream id with
  | none =>
    simp only
    split
    · rename_i same
      rw [same, found, Option.map_none]
    · rfl
  | some s => rw [Option.map_some, Conn.stream_setStream]

/-- Whether the owner is told of something makes no difference to the streams. -/
theorem Conn.stream_told (conn : Conn) (event : ConnEvent) (asked : Bool) (id : UInt64) :
    (if asked then conn.observe event else conn).stream id = conn.stream id := by
  cases asked <;> rfl

end Streams

/-- Only streams and their ring may differ. -/
def StreamsOnly (before after : Conn) : Prop :=
  after = { before with streams := after.streams, schedHead := after.schedHead }

namespace StreamsOnly

/-- Nothing differs from itself. -/
theorem refl (conn : Conn) : StreamsOnly conn conn := rfl

/-- Two changes of streams are one. -/
theorem trans {first second third : Conn} (left : StreamsOnly first second)
    (right : StreamsOnly second third) : StreamsOnly first third := by
  unfold StreamsOnly at *
  rw [right, left]

/-- Putting a stream in place changes streams only. -/
theorem setStream (conn : Conn) (id : UInt64) (s : Stream) :
    StreamsOnly conn (conn.setStream id s) := rfl

/-- Changing a stream changes streams only. -/
theorem modifyStream (conn : Conn) (id : UInt64) (f : Stream → Stream) :
    StreamsOnly conn (conn.modifyStream id f) := by
  unfold Conn.modifyStream
  cases conn.stream id with
  | none => exact refl conn
  | some s => exact setStream conn id (f s)

theorem head (conn : Conn) (link : Option UInt64) :
    StreamsOnly conn { conn with schedHead := link } := rfl

end StreamsOnly

/-- A stream out of the ring. -/
def Stream.unlinked (s : Stream) : Stream :=
  { s with schedNext := none, schedPrev := none, scheduled := false }

/-- Only the ring and the links of streams may differ. -/
structure Relinks (before after : Conn) : Prop where
  only : StreamsOnly before after
  streams : ∀ id, (after.stream id).map Stream.unlinked = (before.stream id).map Stream.unlinked

namespace Relinks

/-- Nothing differs from itself. -/
theorem refl (conn : Conn) : Relinks conn conn := ⟨StreamsOnly.refl conn, fun _ => rfl⟩

theorem trans {first second third : Conn} (left : Relinks first second)
    (right : Relinks second third) : Relinks first third :=
  ⟨left.only.trans right.only, fun id => (right.streams id).trans (left.streams id)⟩

theorem head (conn : Conn) (link : Option UInt64) : Relinks conn
    { conn with schedHead := link } :=
  ⟨StreamsOnly.head conn link, fun _ => rfl⟩

theorem modifyStream (conn : Conn) (id : UInt64)
    (links : ∀ s, (f s).unlinked = s.unlinked) : Relinks conn (conn.modifyStream id f) := by
  refine ⟨StreamsOnly.modifyStream conn id f, fun other => ?_⟩
  rw [Conn.stream_modifyStream]
  split
  · rename_i same
    rw [same, Option.map_map]
    -- The change disappears once the links are forgotten.
    exact congrArg (Option.map · (conn.stream id)) (funext links)
  · rfl

theorem modifyLinked (conn : Conn) (link : Option UInt64)
    (links : ∀ s, (f s).unlinked = s.unlinked) : Relinks conn (modifyLinked conn link f) := by
  cases link with
  | none => exact refl conn
  | some id => exact modifyStream conn id links

end Relinks

/-- Joining the ring changes links only. -/
theorem schedAdd_relinks (conn : Conn) (id : UInt64) : Relinks conn (schedAdd conn id) := by
  unfold schedAdd
  split
  · exact Relinks.refl conn
  · split
    · exact Relinks.refl conn
    · split
      · -- The first stream of the ring is its own neighbour.
        exact (Relinks.modifyStream conn id (by intro; rfl)).trans (Relinks.head _ _)
      · exact ((Relinks.modifyStream conn id (by intro; rfl)).trans
          (Relinks.modifyLinked _ _ (by intro; rfl))).trans (Relinks.modifyStream _ _ (by intro; rfl))

/-- Taking a stream off the ring changes links alone. -/
theorem schedRemove_relinks (conn : Conn) (id : UInt64) : Relinks conn
    (schedRemove conn id) := by
  unfold schedRemove
  split
  · exact Relinks.refl conn
  · split
    · exact Relinks.refl conn
    · apply Relinks.trans _ (Relinks.modifyStream _ _ (by intro; rfl))
      split
      · exact Relinks.head conn none
      · simp only
        split
        · -- The neighbours are joined, and the head moves when it was the one to leave.
          exact ((Relinks.modifyLinked conn _ (by intro; rfl)).trans
            (Relinks.modifyLinked _ _ (by intro; rfl))).trans (Relinks.head _ _)
        · exact (Relinks.modifyLinked conn _ (by intro; rfl)).trans
            (Relinks.modifyLinked _ _ (by intro; rfl))

/-- Taking the next turn changes links only. -/
theorem schedNext_relinks (conn : Conn) : Relinks conn (schedNext conn).2 := by
  unfold schedNext
  split
  · exact Relinks.refl conn
  · split
    · exact Relinks.refl conn
    · simp only
      split
      · exact (Relinks.head conn _).trans (schedRemove_relinks _ _)
      · exact Relinks.head conn _

/-- A lost stretch leaves all but the streams alone. -/
theorem lossRecord_only (conn : Conn) (rec : StreamFrameRecord) :
    StreamsOnly conn (lossRecord conn rec) := by
  unfold lossRecord
  split
  · exact StreamsOnly.refl conn
  · exact (StreamsOnly.setStream conn _ _).trans (schedAdd_relinks _ _).only

/-- Number of the next packet sealed at a level. -/
def sealCounter (conn : Conn) : CryptoLevel → UInt64
  | .initial => (conn.handshake.map (·.initialPn)).getD 0
  | .handshake => (conn.handshake.map (·.handshakePn)).getD 0
  | .application => conn.nextPktNum

/-- Events that report on packets and streams, and neither payloads nor seals. -/
def ConnEvent.Report : ConnEvent → Prop
  | .processed _ _ | .packetSealed _ _ _ => False
  | _ => True

theorem events_trans {allowed : ConnEvent → Prop} {first second third : List ConnEvent}
    (left : ∃ events, second = first ++ events ∧ ∀ event ∈ events, allowed event)
    (right : ∃ events, third = second ++ events ∧ ∀ event ∈ events, allowed event) :
    ∃ events, third = first ++ events ∧ ∀ event ∈ events, allowed event := by
  obtain ⟨early, rfl, earlyAllowed⟩ := left
  obtain ⟨late, rfl, lateAllowed⟩ := right
  refine ⟨early ++ late, List.append_assoc .., fun event member => ?_⟩
  rcases List.mem_append.mp member with member | member
  · exact earlyAllowed event member
  · exact lateAllowed event member

/-- Only what the transfer of data moves may differ. -/
def TransferOnly (before after : Conn) : Prop :=
  after = { before with
    cc := after.cc
    pacer := after.pacer
    deliveryRate := after.deliveryRate
    streams := after.streams
    schedHead := after.schedHead
    stats := after.stats
    trace := after.trace }

/-- Only what the transfer of data moves differs, and an observer sees reports only. -/
structure Transfers (before after : Conn) : Prop where
  only : TransferOnly before after
  reports : ∃ events, after.trace = before.trace ++ events ∧ ∀ event ∈ events, event.Report

namespace Transfers

variable {first second third before after : Conn}

/-- A transfer of which nothing is seen. -/
theorem silent (only : TransferOnly before after) (trace : after.trace = before.trace) :
    Transfers before after := ⟨only, [], by rw [trace, List.append_nil], nofun⟩

/-- A transfer of which one report is seen. -/
theorem report {event : ConnEvent} (only : TransferOnly before after)
    (trace : after.trace = before.trace ++ [event]) (report : event.Report) :
    Transfers before after := ⟨only, [event], trace, by simpa using report⟩

/-- Nothing differs from itself. -/
theorem refl (conn : Conn) : Transfers conn conn := silent rfl rfl

/-- Two transfers are one. -/
theorem trans (left : Transfers first second) (right : Transfers second third) :
    Transfers first third := by
  refine ⟨?_, events_trans left.reports right.reports⟩
  have early := left.only
  have late := right.only
  unfold TransferOnly at *
  rw [late, early]

/-- Changes to streams are transfers. -/
theorem of_streamsOnly (only : StreamsOnly before after) : Transfers before after := by
  refine silent ?_ (congrArg Conn.trace only :)
  unfold TransferOnly
  rw [only]

/-- Acknowledging a stretch is a transfer. -/
theorem ackRecord (conn : Conn) (rec : StreamFrameRecord) :
    Transfers conn (ackRecord conn rec) := by
  unfold Nxp.ackRecord
  split
  · exact refl conn
  · simp only
    split
    · exact (of_streamsOnly (StreamsOnly.setStream conn _ _)).trans (report rfl rfl trivial)
    · exact of_streamsOnly (StreamsOnly.setStream conn _ _)

/-- Acknowledging a packet is a transfer, once the packet is counted. -/
theorem onPacketAcked_noted (conn : Conn) :
    Transfers (noteAcked conn pkt) (onPacketAcked ack pkt conn) := by
  have released : Transfers (noteAcked conn pkt)
      (pkt.frames.records.foldl Nxp.ackRecord (noteAcked conn pkt)) :=
    Machine.run_preserves (Transfers (noteAcked conn pkt))
      (fun _ rec before => before.trans (ackRecord _ rec)) _ (refl _)
  apply released.trans
  unfold onPacketAcked ccOnAck
  split
  · exact refl _
  · exact silent rfl rfl

/-- Acknowledging a packet is a transfer. -/
theorem onPacketAcked (conn : Conn) :
    Transfers conn (onPacketAcked ack pkt conn) := by
  have noted : Transfers conn (noteAcked conn pkt) := report rfl rfl trivial
  exact noted.trans (onPacketAcked_noted ack pkt conn)

/-- Losing a packet is a transfer. -/
theorem onPacketLost (conn : Conn) :
    Transfers conn (onPacketLost ack pkt conn) := by
  have noted : Transfers conn (noteLost conn pkt) := report rfl rfl trivial
  have wound : Transfers conn (pkt.frames.records.foldl Nxp.lossRecord (noteLost conn pkt)) :=
    Machine.run_preserves (Transfers conn) (fun _ rec before =>
      before.trans (of_streamsOnly (lossRecord_only _ rec))) _ noted
  exact wound.trans (silent rfl rfl)

end Transfers

/-- An observer sees only allowed events, no packet is counted, and a handshake is neither started
nor made possible. -/
structure Emits (allowed : ConnEvent → Prop) (before after : Conn) : Prop where
  events : ∃ events, after.trace = before.trace ++ events ∧ ∀ event ∈ events, allowed event
  counters : ∀ level, sealCounter after level = sealCounter before level
  idle : after.state = .idle → before.state = .idle
  handshake : before.handshake = none → after.handshake = none

namespace Emits

variable {allowed : ConnEvent → Prop} {before after : Conn}

theorem seen
    (events : ∃ events, after.trace = before.trace ++ events ∧ ∀ event ∈ events, allowed event)
    (number : after.nextPktNum = before.nextPktNum) (handshake : after.handshake = before.handshake)
    (state : after.state = before.state) : Emits allowed before after where
  events := events
  counters level := by cases level <;> simp [sealCounter, number, handshake]
  idle := by rw [state]; exact id
  handshake := by rw [handshake]; exact id

/-- Nothing is seen of what leaves the trace, the counters and the states alone. -/
theorem silent (trace : after.trace = before.trace) (number : after.nextPktNum = before.nextPktNum)
    (handshake : after.handshake = before.handshake) (state : after.state = before.state) :
    Emits allowed before after :=
  seen ⟨[], by rw [trace, List.append_nil], nofun⟩ number handshake state

/-- Nothing is seen of what does not happen. -/
theorem refl (conn : Conn) : Emits allowed conn conn := silent rfl rfl rfl rfl

/-- What is recorded is seen. -/
theorem observe (conn : Conn) (event : ConnEvent) (fine : allowed event) :
    Emits allowed conn (conn.observe event) :=
  seen ⟨[event], rfl, by simpa using fine⟩ rfl rfl rfl

/-- Transfers are reported on. -/
theorem of_transfers (transfers : Transfers before after) : Emits ConnEvent.Report before after :=
  seen transfers.reports (congrArg Conn.nextPktNum transfers.only :)
    (congrArg Conn.handshake transfers.only :) (congrArg Conn.state transfers.only :)

/-- What is seen of two changes is what is seen of each. -/
theorem trans {first second third : Conn} (left : Emits allowed first second)
    (right : Emits allowed second third) : Emits allowed first third :=
  ⟨events_trans left.events right.events,
    fun level => (right.counters level).trans (left.counters level),
    fun idle => left.idle (right.idle idle), fun absent => right.handshake (left.handshake absent)⟩

/-- More may be allowed. -/
theorem mono {more : ConnEvent → Prop} (weaker : ∀ event, allowed event → more event)
    (emits : Emits allowed before after) : Emits more before after := by
  obtain ⟨events, trace, all⟩ := emits.events
  exact ⟨⟨events, trace, fun event member => weaker event (all event member)⟩, emits.counters,
    emits.idle, emits.handshake⟩

/-- Nothing is seen of a move between states, and none leads back to idle. -/
theorem setConnState (conn : Conn) {target : ConnState} (busy : target ≠ .idle) :
    Emits allowed conn (setConnState conn target) := by
  unfold Nxp.setConnState
  split
  · exact refl conn
  · exact ⟨⟨[], by simp, by simp⟩, fun level => by cases level <;> rfl,
      fun idle => absurd idle busy, id⟩

end Emits

/-- A system that grants every request and always draws the same key. -/
def plainEnv : Env where
  allocStream _ := true
  allocMap _ := true
  allocSent := true
  allocHandshake := true
  privateKey := some (Vector.replicate 32 0)
  turns := 8

/-- Octets to challenge a path with. -/
def plainChallenge : Vector UInt8 8 := #v[1, 2, 3, 4, 5, 6, 7, 8]

/-- A configuration that leaves everything to the defaults. -/
def plainConfig : ConnConfig := ⟨ConnId.empty, Addr.zero, 0, 0, 0, 0, 0⟩

/-- A connection is established by hand and three octets are written to its first stream. -/
def threeWritten : List (Env × ConnOp) :=
  [(plainEnv, .setEstablished ConnId.empty), (plainEnv, .openStream .reliable false),
    (plainEnv, .streamSend 0 [1, 2, 3] false)]

/-- A configuration that grants one octet, for all streams together and for each. -/
def oneOctetConfig : ConnConfig := ⟨ConnId.empty, Addr.zero, 0, 1, 1, 8, 8⟩

/-- A server that is established by hand. -/
def oneOctetServer : Conn := connSetEstablished (connCreate oneOctetConfig true true) ConnId.empty

/-- A packet with the first octet of the client's first stream. -/
def firstOctetPacket : Bytes := [0x40, 0x00, 0x0A, 0x00, 0x01, 0x07]

/-- A client that has started its handshake and heard nothing yet. -/
def startedClient : Conn :=
  (connStartHandshake plainEvp plainEnv (connCreate plainConfig false true) ConnId.empty).2

/-- The client has started, with nothing observed so far. -/
theorem startedClient_started :
    connStartHandshake plainEvp plainEnv (connCreate plainConfig false true) ConnId.empty =
      (.ok, startedClient) :=
  Prod.ext (by decide +kernel) rfl

end Nxp
