import Nxp.Core.CreditLaws
import Nxp.Core.Exchange
import Nxp.Core.HeartbeatLaws
import Nxp.Core.Loading

/-! Heartbeats between two connections over a network that loses, repeats and forges nothing. -/

namespace Nxp

variable {control : List Frame} {datagram : Shipped} {streams : List FrameStream}
  {payload bytes : Bytes} {frame : Frame}

/-- Control frames at the front are found as far as their layout carries them. -/
theorem leadingFrames_control
    (written : ∀ frame ∈ control, frame.isControl = true ∧ frame.Encodable) (rest : Bytes) :
    leadingFrames (control.flatMap Frame.octets ++ rest) =
      control.map Frame.carried ++ leadingFrames rest := by
  induction control with
  | nil => rfl
  | cons frame control ih =>
    obtain ⟨⟨kind, encodable⟩, others⟩ := List.forall_mem_cons.mp written
    rw [List.flatMap_cons, List.append_assoc, List.map_cons, List.cons_append, ← ih others]
    refine leadingFrames_cons (frameDecode_octets encodable ?_)
    rintro ⟨count, rfl⟩
    cases kind

/-- Frames of streams are found as such, if at all. -/
theorem leadingFrames_streams (filled : ∀ f ∈ streams, f.Filled) :
    ∀ frame ∈ leadingFrames ((streams.map Frame.stream).flatMap Frame.octets),
      frame.isStream = true := by
  induction streams with
  | nil => exact List.forall_mem_nil _
  | cons f streams ih =>
    obtain ⟨first, others⟩ := List.forall_mem_cons.mp filled
    have read := frameDecode_stream_octets f first.named (fun _ => first.ranged)
      (Nat.le_trans first.short (by decide)) ((streams.map Frame.stream).flatMap Frame.octets)
      (fun unsized => by rw [first.sized] at unsized; cases unsized)
    rw [List.map_cons, List.flatMap_cons]
    split at read
    · rw [leadingFrames_cons read]
      exact List.forall_mem_cons.mpr ⟨rfl, ih others⟩
    · -- What the decoder refuses ends the payload.
      rw [leadingFrames]
      cases length : ((Frame.stream f).octets ++
        (streams.map Frame.stream).flatMap Frame.octets).length with
      | zero => exact List.forall_mem_nil _
      | succ fuel =>
        unfold leadingLoop
        rw [read]
        split <;> exact List.forall_mem_nil _

/-- How many heartbeats a receiver finds in a payload. -/
def beats (payload : Bytes) : Nat := (leadingFrames payload).countP Frame.isHeartbeat

/-- No heartbeat of a payload stands behind the data of a stream. -/
def HeartbeatsLead (payload : Bytes) : Prop :=
  beats payload ≠ 0 → bringsHeartbeat (leadingFrames payload) = true

/-- How many heartbeats wait to be sent. -/
def Heartbeat.waiting (hb : Heartbeat) : Nat := hb.sendEcho.toNat + hb.sendHeartbeat.toNat

theorem Frame.carried_isHeartbeat (frame : Frame) :
    frame.carried.isHeartbeat = frame.isHeartbeat := by
  cases frame <;> rfl

theorem Frame.carried_isStream (frame : Frame) :
    frame.carried.isStream = frame.isStream := by
  cases frame <;> rfl

/-- In a payload of control frames and then frames of streams, the heartbeats are those among the
control frames. -/
theorem beats_laid (written : ∀ frame ∈ control, frame.isControl = true ∧ frame.Encodable)
    (filled : ∀ f ∈ streams, f.Filled)
    (layout : payload = (control ++ streams.map Frame.stream).flatMap Frame.octets) :
    beats payload = control.countP Frame.isHeartbeat ∧ HeartbeatsLead payload := by
  have tail := leadingFrames_streams filled
  have found : leadingFrames payload = control.map Frame.carried ++
      leadingFrames ((streams.map Frame.stream).flatMap Frame.octets) := by
    rw [layout, List.flatMap_append, leadingFrames_control written]
  generalize leadingFrames ((streams.map Frame.stream).flatMap Frame.octets) = behind at tail found
  have silent : behind.countP Frame.isHeartbeat = 0 := by
    refine List.countP_eq_zero.mpr fun frame member beat => ?_
    have stream := tail frame member
    cases frame with
    | heartbeat timestampUs => cases stream
    | _ => cases beat
  have front : (control.map Frame.carried).countP Frame.isHeartbeat =
      control.countP Frame.isHeartbeat := by
    rw [List.countP_map]
    exact List.countP_congr fun frame _ => by simp [Frame.carried_isHeartbeat]
  have counted : beats payload = control.countP Frame.isHeartbeat := by
    rw [beats, found, List.countP_append, silent, front, Nat.add_zero]
  refine ⟨counted, fun some => ?_⟩
  rw [counted, ← front, ← Nat.pos_iff_ne_zero, List.countP_pos_iff] at some
  obtain ⟨frame, member, beat⟩ := some
  have apart : ∀ frame ∈ control.map Frame.carried, (!frame.isStream) = true := by
    intro frame member
    obtain ⟨source, listed, rfl⟩ := List.mem_map.mp member
    have kind := (written source listed).1
    rw [Frame.carried_isStream]
    cases source with
    | stream f => cases kind
    | _ => rfl
  rw [bringsHeartbeat, found, List.takeWhile_append_of_pos apart, List.any_append]
  rw [List.any_eq_true.mpr ⟨frame, member, beat⟩, Bool.true_or]

section Sending

variable {evp : Evp} {env : Env} {conn next : Conn} {maxLen turns space : Nat} {nowUs : UInt64}
  {b : SendBuild}

/-- A control frame that can be written can be read. -/
theorem Clears.encodable (clears : Clears conn frame next)
    (writable : frame.Writable) : frame.Encodable := by
  have values := writable.2
  cases clears with
  | ping | pathResponse | pathChallenge => trivial
  | ack due => exact values
  | maxData | retireCid | echo | heartbeat => exact values _ (by simp [Frame.values])
  | close due =>
    exact ⟨values _ (by simp [Frame.values]), show (0 : UInt64) ≤ varintMax by decide, Nat.zero_le _⟩
  | newCid due => exact ⟨values _ (by simp [Frame.values]), values _ (by simp [Frame.values])⟩

/-- A heartbeat that is put into a packet waits no more, and other frames change nothing. -/
theorem Clears.beats (clears : Clears conn frame next) :
    frame.isHeartbeat.toNat + next.heartbeat.waiting = conn.heartbeat.waiting := by
  cases clears with
  | echo due => simp [Frame.isHeartbeat, Heartbeat.waiting, due]
  | heartbeat due =>
    simp only [Frame.isHeartbeat, Heartbeat.waiting, due, Bool.toNat_true, Bool.toNat_false]
    omega
  | close due =>
    have same : (setConnState { conn with sendConnClose := false } .closing).heartbeat =
      conn.heartbeat := (congrArg Conn.heartbeat (setConnState_only _ _) :)
    rw [same]
    exact Nat.zero_add _
  | _ => exact Nat.zero_add _

/-- Control frames can be read, and have the heartbeats that then wait no more. -/
theorem Cleared.beats (cleared : Cleared conn control next) :
    (∀ frame ∈ control, frame.Encodable) ∧
      control.countP Frame.isHeartbeat + next.heartbeat.waiting = conn.heartbeat.waiting := by
  induction cleared with
  | none => exact ⟨List.forall_mem_nil _, Nat.zero_add _⟩
  | taken _ waiting ih => exact ih
  | @put control frame middle next _ clears writable ih =>
    refine ⟨List.forall_mem_append.mpr
      ⟨ih.1, List.forall_mem_singleton.mpr (clears.encodable writable)⟩, ?_⟩
    rw [List.countP_append, List.countP_singleton, ← ih.2, ← clears.beats]
    cases frame.isHeartbeat
    · simp
    · simp
      omega

/-- A packet has the heartbeats that then wait no more, before the data of streams. -/
theorem buildFrames_beats (built : buildFrames turns conn space nowUs = some b)
    (sound : conn.Sound) :
    Nxp.beats b.frames + b.conn.heartbeat.waiting = conn.heartbeat.waiting ∧
      HeartbeatsLead b.frames := by
  obtain ⟨control, laid, cleared⟩ := putControl_laid conn space nowUs
  obtain ⟨encodable, counted⟩ := cleared.beats
  obtain ⟨streams, ordered⟩ := buildFrames_follows sound laid built
  have written : ∀ frame ∈ control, frame.isControl = true ∧ frame.Encodable :=
    fun frame member => ⟨laid.kinds frame member, encodable frame member⟩
  obtain ⟨found, lead⟩ := beats_laid written ordered.filled ordered.laid.layout
  have kept := buildFrames_invariant
    (fun b => b.conn.heartbeat = (conn.controls space nowUs).conn.heartbeat) rfl
    (fun _ _ _ before turned => (congrArg Conn.heartbeat turned.only :).trans before) built
  exact ⟨by rw [found, kept, counted], lead⟩

theorem Conn.Sound.paced (sound : conn.Sound) (nowUs : UInt64) :
    (conn.paced nowUs).Sound := ⟨sound.streams, sound.flow⟩

/-- A call to send that returns no datagram and does not fail leaves all heartbeats waiting. -/
theorem connSend_held (sound : conn.Sound)
    (called : connSend evp env conn maxLen nowUs = some (.nothing, next)) :
    next.heartbeat.waiting = conn.heartbeat.waiting := by
  cases connSend_sent called with
  | handshake waiting sent => cases sent <;> rfl
  | closed | held => rfl
  | short quiet busy free sent =>
    cases sent with
    | cramped => rfl
    | empty built _ void =>
      have paid := (buildFrames_beats built (sound.paced nowUs)).1
      rw [void] at paid
      exact (Nat.zero_add _).symm.trans paid

/-- A datagram that goes out has the heartbeats that then wait no more, before the data of
streams. -/
theorem connSend_beats {level : CryptoLevel} {pnLen : Nat} (sound : conn.Sound)
    (called : connSend evp env conn maxLen nowUs = some (.datagram bytes, next))
    (carried : Delivers env conn maxLen nowUs level pnLen payload) :
    Nxp.beats payload + next.heartbeat.waiting = conn.heartbeat.waiting ∧
      HeartbeatsLead payload := by
  -- The frames of the handshake have no heartbeat among them, and change none.
  have handshake {hs : Handshake} {control : List Frame}
      (waiting : conn.handshake.filter handshakeHasData = some hs)
      (written : leadingFrames payload = control)
      (plain : ∀ frame ∈ control, frame.isHandshake = true) :
      Nxp.beats payload + next.heartbeat.waiting = conn.heartbeat.waiting ∧
        HeartbeatsLead payload := by
    have none : Nxp.beats payload = 0 := by
      rw [Nxp.beats, written]
      refine List.countP_eq_zero.mpr fun frame member beat => ?_
      have kind := plain frame member
      cases frame with
      | heartbeat timestampUs => cases kind
      | _ => cases beat
    have same : next.heartbeat = conn.heartbeat := by
      cases connSend_sent called with
      | handshake again sent => cases sent <;> rfl
      | short quiet => cases quiet.symm.trans waiting
    exact ⟨by rw [none, same, Nat.zero_add], fun some => absurd none some⟩
  cases carried with
  | notice waiting last =>
    exact handshake waiting (show leadingFrames (handshakeDoneFrames 1) = [.handshakeDone, .padding 3]
      by decide) (by decide)
  | @crypto hs frames waiting more encoded =>
    obtain ⟨whole, -, -, values⟩ := (@frameEncode_iff _ _ (.crypto _ _)).mp encoded
    have short : (handshakeFillCrypto hs 512).2.1.length ≤ 512 := List.length_take_le _ _
    have read := @frameDecode_octets (.crypto (.ofNat (handshakeFillCrypto hs 512).1)
      (handshakeFillCrypto hs 512).2.1)
      ⟨values _ (by simp [Frame.values]), Nat.le_trans short (by decide)⟩ [] (by simp)
    rw [List.append_nil, ← whole] at read
    exact handshake waiting (leadingFrames_cons read) (by simp [leadingFrames, leadingLoop,
      Frame.carried, Frame.isHandshake])
  | packet done built =>
    cases connSend_dispatched called with
    | handshake waiting =>
      cases present : conn.handshake with
      | none => rw [present] at waiting; cases waiting
      | some hs =>
        rw [present, Option.any_some] at waiting
        rw [present, Option.filter_some, if_pos waiting] at done
        cases done
    | @built b' after _ again closed =>
      cases built.symm.trans again
      obtain ⟨paid, lead⟩ := buildFrames_beats built (sound.paced nowUs)
      refine ⟨?_, lead⟩
      rw [accountSent_only, (closePacket_seen closed).1]
      exact paid

end Sending

/-- A datagram on the way: which of its sender's it is, and the payload that was sealed in it. -/
structure Shipped where
  index : Nat
  payload : Bytes
  lead : HeartbeatsLead payload

/-- Two ends, and the datagrams that are on the way to each. -/
structure Exchange where
  link : Link
  onWay : Side → List Shipped
  sound : ∀ side, (link.conn side).Sound

/-- No heartbeat waits to be sent and none is on the way. -/
def Exchange.Quiet (ex : Exchange) : Prop :=
  ∀ side, (ex.link.conn side).heartbeat.waiting = 0 ∧
    ∀ datagram ∈ ex.onWay side, beats datagram.payload = 0

/-- Whether a probe falls due. -/
def heartbeatFires (hb : Heartbeat) (nowUs : UInt64) : Bool :=
  hb.enabled && (!hb.timeInitialized || nowUs ≥ hb.lastSentUs + hb.intervalUs)

/-- What an end may do besides sending and receiving while no probe falls due. -/
def ConnOp.Calm (conn : Conn) : ConnOp → Prop
  | .onTimeout nowUs => heartbeatFires conn.heartbeat nowUs = false
  | .send _ _ | .recv _ _ | .setHeartbeat _ => False
  | _ => True

/-- A datagram is opened to what was sealed in it if at all, and if it has heartbeats then it is. -/
structure Shipped.Arrives (evp : Evp) (conn : Conn) (bytes : Bytes) (datagram : Shipped) : Prop where
  listens : conn.Listens
  genuine : ∀ pktNum payload, openDatagram evp conn bytes = some (some pktNum, payload) →
    payload = datagram.payload
  heard : beats datagram.payload ≠ 0 →
    ∃ pktNum, openDatagram evp conn bytes = some (some pktNum, datagram.payload)

/-- One step of two ends while no probe falls due, and how many heartbeats go out in it; the network
loses, repeats and forges nothing, and no packet fails to be sealed. -/
inductive Passes (evp : Evp) (ex ex' : Exchange) : Nat → Prop
  | acts {side : Side} {env : Env} {op : ConnOp} (calm : op.Calm (ex.link.conn side))
      (stepped : linkStep evp ex.link (.operate side env op) = some ex'.link)
      (onWay : ex'.onWay = ex.onWay) : Passes evp ex ex' 0
  | holds {side : Side} {env : Env} {maxLen : Nat} {nowUs : UInt64} {conn : Conn}
      (called : connSend evp env (ex.link.conn side) maxLen nowUs = some (.nothing, conn))
      (stepped : linkStep evp ex.link (.operate side env (.send maxLen nowUs)) = some ex'.link)
      (onWay : ex'.onWay = ex.onWay) : Passes evp ex ex' 0
  | sends {side : Side} {env : Env} {maxLen : Nat} {nowUs : UInt64} {conn : Conn} {bytes : Bytes}
      {level : CryptoLevel} {pnLen : Nat} {datagram : Shipped}
      (called : connSend evp env (ex.link.conn side) maxLen nowUs = some (.datagram bytes, conn))
      (carried : Delivers env (ex.link.conn side) maxLen nowUs level pnLen datagram.payload)
      (stepped : linkStep evp ex.link (.operate side env (.send maxLen nowUs)) = some ex'.link)
      (last : datagram.index = (ex.link.posted side).length)
      (onWay : ex'.onWay =
        Function.update ex.onWay side.other (ex.onWay side.other ++ [datagram])) :
      Passes evp ex ex' (beats datagram.payload)
  | takes {side : Side} {env : Env} {nowUs : UInt64} {posted : Posted} {datagram : Shipped}
      {before after : List Shipped}
      (found : (ex.link.posted side.other)[datagram.index]? = some posted)
      (arrives : datagram.Arrives evp (ex.link.conn side) posted.bytes)
      (stepped : linkStep evp ex.link (.deliver side env datagram.index nowUs) = some ex'.link)
      (coming : ex.onWay side = before ++ datagram :: after)
      (onWay : ex'.onWay = Function.update ex.onWay side (before ++ after)) : Passes evp ex ex' 0

section Steps

variable {evp : Evp} {env : Env} {nowUs : UInt64} {side : Side} {ex ex' : Exchange} {count : Nat}

theorem Side.forall_iff (side : Side) {holds : Side → Prop} :
    (∀ other, holds other) ↔ holds side ∧ holds side.other :=
  ⟨fun all => ⟨all _, all _⟩, fun ⟨here, there⟩ other => by
    cases side <;> cases other <;> first | exact here | exact there⟩

theorem Side.other_ne (side : Side) : side.other ≠ side := by cases side <;> decide

theorem heartbeatCheck_calm {hb : Heartbeat} (calm : heartbeatFires hb nowUs = false) :
    heartbeatCheck hb nowUs = hb := by
  unfold heartbeatFires at calm
  unfold heartbeatCheck
  cases enabled : hb.enabled with
  | false => rfl
  | true =>
    rw [enabled, Bool.true_and] at calm
    rw [if_neg (by simp), if_neg (by rw [calm]; exact Bool.false_ne_true)]

/-- What an end does besides leaves its heartbeats alone. -/
theorem ConnOp.Calm.heartbeat {op : ConnOp} {conn next : Conn} (calm : op.Calm conn)
    (stepped : connStep evp conn (env, op) = some next) : next.heartbeat = conn.heartbeat := by
  cases op with
  | onTimeout nowUs =>
    cases stepped
    rw [connOnTimeout_heartbeat, heartbeatCheck_calm calm, ite_self]
  | send | recv | setHeartbeat => exact absurd calm id
  | _ => exact connStep_heartbeat id stepped

/-- A datagram without heartbeats leaves the receiver's heartbeats alone, any other makes an echo
wait. -/
theorem Shipped.Arrives.heartbeat {conn : Conn}
    (arrives : datagram.Arrives evp conn bytes) (env : Env) (nowUs : UInt64) :
    (beats datagram.payload = 0 →
      (connRecv evp env conn bytes nowUs).2.heartbeat = conn.heartbeat) ∧
    (beats datagram.payload ≠ 0 →
      (connRecv evp env conn bytes nowUs).2.heartbeat.waiting ≠ 0) := by
  constructor
  · intro none
    by_cases opens : ∃ pktNum payload, openDatagram evp conn bytes = some (some pktNum, payload)
    · obtain ⟨pktNum, payload, opens⟩ := opens
      cases arrives.genuine _ _ opens
      obtain ⟨start, same, taken⟩ :=
        @connRecv_probe evp env conn bytes _ nowUs _ opens arrives.listens
      rw [taken, processEach_unbeaten, same]
      intro frame member
      exact Bool.eq_false_iff.mpr (List.countP_eq_zero.mp none frame member)
    · exact connRecv_unopened fun pktNum payload opened => opens ⟨pktNum, payload, opened⟩
  · intro some
    obtain ⟨pktNum, opens⟩ := arrives.heard some
    obtain ⟨start, -, taken⟩ := @connRecv_probe evp env conn bytes _ nowUs _ opens arrives.listens
    have echoes := @processEach_echoes env nowUs start _ (.inr (datagram.lead some))
    rw [taken, Heartbeat.waiting, echoes, Bool.toNat_true]
    omega

/-- Where one end is changed, all is quiet if it is so at this end and at the other. -/
theorem Exchange.quiet_iff {conn : Conn} {link : Link} (changed : ex.link = link.set side conn) :
    ex.Quiet ↔
      (conn.heartbeat.waiting = 0 ∧ ∀ datagram ∈ ex.onWay side, beats datagram.payload = 0) ∧
        (link.conn side.other).heartbeat.waiting = 0 ∧
          ∀ datagram ∈ ex.onWay side.other, beats datagram.payload = 0 := by
  rw [Exchange.Quiet, Side.forall_iff side, changed, Link.set_conn, Link.set_conn_ne _ side.other_ne]

/-- Whether all is quiet does not change while no probe falls due, and where all is quiet no
heartbeat goes out. -/
theorem Passes.quiet (passes : Passes evp ex ex' count) :
    (ex'.Quiet ↔ ex.Quiet) ∧ (ex.Quiet → count = 0) := by
  cases passes with
  | @acts side env op calm stepped onWay =>
    have operated : linkStep evp ex.link (.operate side env op) =
        (connStep evp (ex.link.conn side) (env, op)).map (ex.link.set side) := by
      cases op <;> first | rfl | exact absurd calm id
    rw [operated, Option.map_eq_some_iff] at stepped
    obtain ⟨conn, done, changed⟩ := stepped
    refine ⟨?_, fun _ => rfl⟩
    rw [Exchange.quiet_iff changed.symm, calm.heartbeat done, onWay, Exchange.Quiet,
      Side.forall_iff side]
  | @holds side env maxLen nowUs conn called stepped onWay =>
    simp only [linkStep, called, Option.map_some, Option.some.injEq] at stepped
    refine ⟨?_, fun _ => rfl⟩
    rw [Exchange.quiet_iff stepped.symm, connSend_held (ex.sound side) called, onWay, Exchange.Quiet,
      Side.forall_iff side, Link.post_conn]
  | @sends side env maxLen nowUs conn bytes level pnLen datagram called carried stepped last onWay =>
    simp only [linkStep, called, Option.map_some, Option.some.injEq] at stepped
    -- What waited at the sender still waits or is on the way.
    have paid := (connSend_beats (ex.sound side) called carried).1
    rw [Exchange.quiet_iff stepped.symm, Link.post_conn, onWay, Function.update_self,
      Function.update_of_ne side.other_ne.symm, List.forall_mem_append, List.forall_mem_singleton,
      Exchange.Quiet, Side.forall_iff side]
    constructor
    · constructor
      · rintro ⟨⟨none, here⟩, there, others, last⟩
        exact ⟨⟨by omega, here⟩, there, others⟩
      · rintro ⟨⟨none, here⟩, there, others⟩
        exact ⟨⟨by omega, here⟩, there, others, by omega⟩
    · rintro ⟨⟨none, -⟩, -⟩
      omega
  | @takes side env nowUs posted datagram before after found arrives stepped coming onWay =>
    simp only [linkStep, found, Option.some.injEq] at stepped
    obtain ⟨silent, echoes⟩ := arrives.heartbeat env nowUs
    refine ⟨?_, fun _ => rfl⟩
    rw [Exchange.quiet_iff stepped.symm, onWay, Function.update_self,
      Function.update_of_ne side.other_ne, Exchange.Quiet, Side.forall_iff side, coming,
      List.forall_mem_append, List.forall_mem_append, List.forall_mem_cons]
    by_cases none : beats datagram.payload = 0
    · simp only [silent none, none, true_and]
    · -- The heartbeat is no longer on the way, but its echo waits.
      simp only [echoes none, none, false_and, and_false]

/-- What is on the way was so before or goes out in the step. -/
theorem Passes.onWay (passes : Passes evp ex ex' count) (coming : datagram ∈ ex'.onWay side) :
    datagram ∈ ex.onWay side ∨ beats datagram.payload ≤ count := by
  cases passes with
  | acts _ _ onWay | holds _ _ onWay =>
    rw [onWay] at coming
    exact .inl coming
  | @sends sender _ _ _ _ _ _ _ _ _ _ _ _ onWay =>
    rw [onWay] at coming
    by_cases here : side = sender.other
    · rw [here, Function.update_self, List.mem_append, List.mem_singleton] at coming
      rw [here]
      exact coming.imp_right fun same => by rw [same]
    · rw [Function.update_of_ne here] at coming
      exact .inl coming
  | @takes receiver _ _ _ _ before after _ _ _ split onWay =>
    rw [onWay] at coming
    left
    by_cases here : side = receiver
    · rw [here, Function.update_self, List.mem_append] at coming
      rw [here, split, List.mem_append, List.mem_cons]
      exact coming.imp_right .inr
    · rw [Function.update_of_ne here] at coming
      exact coming

/-- Steps one after the other while no probe falls due, and how many heartbeats go out in them. -/
inductive Passing (evp : Evp) (ex : Exchange) : Nat → Exchange → Prop
  | refl : Passing evp ex 0 ex
  | tail {count more : Nat} {middle ex' : Exchange} (run : Passing evp ex count middle)
      (step : Passes evp middle ex' more) : Passing evp ex (count + more) ex'

/-- Whether all is quiet is the same before and after a run, and where it is no heartbeat goes
out. -/
theorem Passing.quiet (run : Passing evp ex count ex') :
    (ex'.Quiet ↔ ex.Quiet) ∧ (ex.Quiet → count = 0) := by
  induction run with
  | refl => exact ⟨Iff.rfl, fun _ => rfl⟩
  | tail _ step ih =>
    refine ⟨step.quiet.1.trans ih.1, fun quiet => ?_⟩
    rw [ih.2 quiet, step.quiet.2 (ih.1.mpr quiet)]

/-- What is on the way was so before a run or goes out in it. -/
theorem Passing.onWay (run : Passing evp ex count ex') (coming : datagram ∈ ex'.onWay side) :
    datagram ∈ ex.onWay side ∨ beats datagram.payload ≤ count := by
  induction run with
  | refl => exact .inl coming
  | tail _ step ih =>
    rcases step.onWay coming with earlier | now
    · exact (ih earlier).imp_right fun within => Nat.le_trans within (Nat.le_add_right _ _)
    · exact .inr (Nat.le_trans now (Nat.le_add_left _ _))

/-- No step of either end makes a connection unsound. -/
theorem linkStep_sound {link next : Link} {op : LinkOp} (sound : ∀ side, (link.conn side).Sound)
    (stepped : linkStep evp link op = some next) (side : Side) : (next.conn side).Sound := by
  have changed {link : Link} {side : Side} {env : Env} {op : ConnOp} {conn : Conn}
      (before : ∀ side, (link.conn side).Sound)
      (done : connStep evp (link.conn side) (env, op) = some conn) :
      ∀ other, ((link.set side conn).conn other).Sound := by
    refine (Side.forall_iff side).mpr ⟨?_, ?_⟩
    · rw [Link.set_conn]
      have reached : Machine.attempt (connStep evp) (link.conn side) [(env, op)] = some conn := by
        rw [Machine.attempt_cons, done]
        rfl
      exact acts_invariant Conn.Sound (fun _ _ _ acted holds => holds.act acted) (before side) reached
    · rw [Link.set_conn_ne _ side.other_ne]
      exact before _
  rcases linkStep_cases stepped with rfl | ⟨side, env, op, conn, done, rfl⟩ |
    ⟨side, env, maxLen, nowUs, result, conn, sent, rfl⟩
  · exact sound side
  · exact changed sound done _
  · refine @changed _ side env (.send maxLen nowUs) conn ?_ ?_ _
    · rw [Link.post_conn]
      exact sound
    · rw [Link.post_conn]
      simp only [connStep, sent, Option.map_some]

end Steps

end Nxp
