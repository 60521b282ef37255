import Nxp.Core.HeartbeatLink

/-! Heartbeats go on for ever once one was sent. -/

namespace Nxp

variable {evp : Evp} {ex ex' : Exchange}

/-- A round: everything that was on the way is taken, and every heartbeat that waits is sent. -/
structure Round (evp : Evp) (ex : Exchange) (count : Nat) (ex' : Exchange) : Prop where
  run : Passing evp ex count ex'
  sent : ∀ side, (ex'.link.conn side).heartbeat.waiting = 0
  taken : ∀ side, ∀ datagram ∈ ex'.onWay side, datagram ∉ ex.onWay side

/-- Rounds one after the other, and how many heartbeats go out in them. -/
inductive Rounds (evp : Evp) (ex : Exchange) : Nat → Nat → Exchange → Prop
  | none : Rounds evp ex 0 0 ex
  | more {rounds count more : Nat} {middle ex' : Exchange}
      (past : Rounds evp ex rounds count middle) (round : Round evp middle more ex') :
      Rounds evp ex (rounds + 1) (count + more) ex'

/-- Where not all is quiet a heartbeat goes out in every round. -/
theorem Round.beats {count : Nat}
    (round : Round evp ex count ex') (busy : ¬ ex.Quiet) : 0 < count := by
  by_contra none
  refine busy (round.run.quiet.1.mp fun side => ⟨round.sent side, fun datagram coming => ?_⟩)
  -- What is on the way at the end went out in the round, without heartbeats.
  have within := (round.run.onWay coming).resolve_left (round.taken side datagram coming)
  omega

/-- Rounds change nothing about whether all is quiet: if it is no heartbeat goes out, and if it is
not at least one in every round. -/
theorem Rounds.beats {rounds count : Nat} (run : Rounds evp ex rounds count ex') :
    (ex'.Quiet ↔ ex.Quiet) ∧ (ex.Quiet → count = 0) ∧ (¬ ex.Quiet → rounds ≤ count) := by
  induction run with
  | none => exact ⟨Iff.rfl, fun _ => rfl, fun _ => Nat.le_refl 0⟩
  | more _ round ih =>
    obtain ⟨same, quiet, busy⟩ := ih
    refine ⟨round.run.quiet.1.trans same, fun still => ?_, fun stirs => ?_⟩
    · rw [quiet still, round.run.quiet.2 (same.mpr still)]
    · exact Nat.add_le_add (busy stirs) (round.beats fun still => stirs (same.mp still))

/-- From when no probe falls due any more, over more rounds than probes were sent no more heartbeats
than these go out exactly if none was waiting or on the way at the start, and then there is none. -/
theorem heartbeats_cease {evp : Evp} {start final : Exchange} {probes count : Nat}
    (run : Rounds evp start (probes + 1) count final) :
    (count ≤ probes ↔ start.Quiet) ∧ (start.Quiet → count = 0) := by
  obtain ⟨-, quiet, busy⟩ := run.beats
  refine ⟨⟨fun bounded => ?_, fun still => ?_⟩, quiet⟩
  · by_contra stirs
    exact absurd (busy stirs) (by omega)
  · rw [quiet still]
    exact Nat.zero_le _

/-- Two ends are established, one of them sends a probe, and each takes and answers twice. -/
def echoing : List LinkOp :=
  [.operate .a plainEnv (.setEstablished ConnId.empty),
    .operate .b plainEnv (.setEstablished ConnId.empty),
    .operate .a plainEnv (.setHeartbeat 1000), .operate .a plainEnv (.onTimeout 1),
    .operate .a plainEnv (.send 1200 1), .deliver .b plainEnv 0 2,
    .operate .b plainEnv (.send 1200 2), .deliver .a plainEnv 0 3,
    .operate .a plainEnv (.send 1200 3), .deliver .b plainEnv 1 4,
    .operate .b plainEnv (.send 1200 4), .deliver .a plainEnv 1 5]

/-- Two ends of the simplest configuration are sound, whatever was done. -/
theorem plainLink_sound (ops : List LinkOp) (side : Side) :
    ((plainLink ops).conn side).Sound := by
  have new (side : Side) : ((newLink plainConfig plainConfig false).conn side).Sound := by
    cases side <;> exact connCreate_sound _ _ _
  unfold plainLink
  cases reached : Machine.attempt (linkStep plainEvp) (newLink plainConfig plainConfig false) ops with
  | none => exact new side
  | some link =>
    exact Machine.attempt_preserves (fun link => ∀ side, (link.conn side).Sound)
      (fun _ _ _ sound stepped => linkStep_sound sound stepped) new reached side

/-- Two ends after some steps, with datagrams on the way. -/
def plainExchange (ops : List LinkOp) (onWay : Side → List Shipped) : Exchange :=
  ⟨plainLink ops, onWay, plainLink_sound ops⟩

theorem plainLink_step {ops : List LinkOp} {op : LinkOp}
    (returns : (Machine.attempt (linkStep plainEvp) (newLink plainConfig plainConfig false)
      (ops ++ [op])).isSome = true) :
    linkStep plainEvp (plainLink ops) op = some (plainLink (ops ++ [op])) := by
  obtain ⟨link, before, stepped⟩ := Machine.attempt_concat_some.mp (plainLink_reached returns)
  rw [plainLink, before]
  exact stepped

/-- One end sends a packet to the other. -/
theorem plainExchange_sends {ops : List LinkOp} {side : Side} {nowUs : UInt64}
    {onWay onWay' : Side → List Shipped} {datagram : Shipped} {bytes : Bytes}
    (run : (Machine.attempt (linkStep plainEvp) (newLink plainConfig plainConfig false)
        (ops ++ [.operate side plainEnv (.send 1200 nowUs)])).isSome = true ∧
      (connSend plainEvp plainEnv ((plainLink ops).conn side) 1200 nowUs).map Prod.fst =
        some (.datagram bytes) ∧
      ((plainLink ops).conn side).handshake.filter handshakeHasData = none ∧
      (buildFrames plainEnv.turns (((plainLink ops).conn side).paced nowUs)
        (frameSpace (((plainLink ops).conn side).paced nowUs) 1200) nowUs).map (·.frames) =
          some datagram.payload ∧ datagram.index = ((plainLink ops).posted side).length)
    (more : onWay' = Function.update onWay side.other (onWay side.other ++ [datagram])) :
    Passes plainEvp (plainExchange ops onWay)
      (plainExchange (ops ++ [.operate side plainEnv (.send 1200 nowUs)]) onWay')
      (beats datagram.payload) := by
  obtain ⟨returns, sent, done, built, last⟩ := run
  obtain ⟨⟨_, conn⟩, called, rfl⟩ := Option.map_eq_some_iff.mp sent
  exact .sends called (Delivers.of_frames done rfl built) (plainLink_step returns) last more

/-- The probe of one end, which is the first it sends. -/
def probeShipped : Shipped := ⟨0, [0x20, 1], fun _ => by decide⟩

/-- The echo of the probe, behind an acknowledgement. -/
def echoShipped : Shipped := ⟨0, [0x02, 0, 0, 0, 0, 0x20, 1], fun _ => by decide⟩

/-- After one probe a heartbeat goes out in the first round, and its echo in the second. -/
theorem heartbeats_cease_echoing :
    ∃ final, Rounds plainEvp (plainExchange (echoing.take 4) fun _ => []) 2 2 final ∧
      ¬ (plainExchange (echoing.take 4) fun _ => []).Quiet := by
  let start := plainExchange (echoing.take 4) fun _ => []
  let probed := plainExchange (echoing.take 5) (Function.update (fun _ => []) .b [probeShipped])
  let taken := plainExchange (echoing.take 6) fun _ => []
  let echoed := plainExchange (echoing.take 7) (Function.update (fun _ => []) .a [echoShipped])
  have sends : Passes plainEvp start probed 1 :=
    @plainExchange_sends (echoing.take 4) .a 1 _ _ probeShipped [0x40, 0, 0x20, 1]
      (by decide +kernel) rfl
  have echoes : Passes plainEvp taken echoed 1 :=
    @plainExchange_sends (echoing.take 6) .b 2 _ _ echoShipped
      [0x40, 0, 0x02, 0, 0, 0, 0, 0x20, 1] (by decide +kernel) rfl
  have takes : Passes plainEvp probed taken 0 := by
    have run : (Machine.attempt (linkStep plainEvp) (newLink plainConfig plainConfig false)
          (echoing.take 6)).isSome = true ∧
        (plainLink (echoing.take 5)).sentA.map (·.bytes) = [[0x40, 0, 0x20, 1]] ∧
        openDatagram plainEvp (plainLink (echoing.take 5)).b [0x40, 0, 0x20, 1] =
          some (some 0, [0x20, 1]) ∧ (plainLink (echoing.take 5)).b.state = .established := by
      decide +kernel
    obtain ⟨returns, sent, opens, state⟩ := run
    obtain ⟨posted, alone, bytes⟩ := List.map_eq_singleton_iff.mp sent
    have arrives : probeShipped.Arrives plainEvp (plainLink (echoing.take 5)).b posted.bytes := by
      rw [bytes]
      refine ⟨by simp [Conn.Listens, state], fun pktNum payload opened => ?_, fun _ => ⟨0, opens⟩⟩
      cases opens.symm.trans opened
      rfl
    refine @Passes.takes plainEvp probed taken .b plainEnv 2 posted probeShipped [] [] ?_ arrives
      (@plainLink_step (echoing.take 5) _ returns) rfl ?_
    · show (plainLink (echoing.take 5)).sentA[0]? = some posted
      rw [alone]
      rfl
    · exact funext fun side => by cases side <;> rfl
  -- After each of the two rounds nothing waits, and only the latest datagram is on the way.
  have still : (∀ side, (probed.link.conn side).heartbeat.waiting = 0) ∧
      ∀ side, (echoed.link.conn side).heartbeat.waiting = 0 := by
    refine ⟨fun side => ?_, fun side => ?_⟩ <;> cases side <;> decide +kernel
  have first : Round plainEvp start 1 probed :=
    ⟨.tail .refl sends, still.1, fun _ _ _ => List.not_mem_nil⟩
  have second : Round plainEvp probed 1 echoed := by
    refine ⟨.tail (.tail .refl takes) echoes, still.2, fun side datagram coming => ?_⟩
    cases side with
    | a => exact List.not_mem_nil
    | b => exact absurd coming List.not_mem_nil
  have rounds : Rounds plainEvp start 2 2 echoed := .more (.more .none first) second
  exact ⟨echoed, rounds, fun quiet => absurd ((heartbeats_cease rounds).2 quiet) (by decide)⟩

/-- How many heartbeats stand in each of some packets with a header of two octets. -/
def heartbeatCounts (sent : List Posted) : List Nat :=
  sent.map fun posted => (leadingFrames (posted.bytes.drop 2)).countP Frame.isHeartbeat

/-- One probe is answered, the answer is answered, and that is answered once more, with yet another
answer waiting. -/
theorem echo_echoed :
    heartbeatCounts (plainLink echoing).sentA = [1, 1] ∧
      heartbeatCounts (plainLink echoing).sentB = [1, 1] ∧
      (plainLink echoing).a.heartbeat.sendEcho = true := by
  decide +kernel

end Nxp
