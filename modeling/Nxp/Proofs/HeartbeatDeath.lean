import Nxp.Core.Exchange
import Nxp.Core.HeartbeatLaws

/-! When a connection is given up because its probes go unanswered. -/

namespace Nxp

variable {hb : Heartbeat} {evp : Evp}

/-- When an operation receives or checks. -/
def ConnOp.clock : ConnOp → Option UInt64
  | .recv _ nowUs | .onTimeout nowUs => some nowUs
  | _ => none

/-- The datagram an operation receives. -/
def ConnOp.datagram : ConnOp → Option Bytes
  | .recv data _ => some data
  | _ => none

/-- Whether an operation lets the timers fire. -/
def ConnOp.checks : ConnOp → Bool
  | .onTimeout _ => true
  | _ => false

/-- A connection with the times at which it received datagrams that decrypt, and with the time of
its last reception or check. -/
structure Watch where
  conn : Conn
  decrypted : List UInt64
  latest : UInt64

namespace Watch

/-- A connection whose heartbeat was set and that has received nothing since. -/
def start (conn : Conn) (intervalUs : UInt64) : Watch :=
  ⟨{ conn with heartbeat := heartbeatInit intervalUs }, [], 0⟩

/-- An operation, noted if it is a datagram that decrypts. -/
def step (evp : Evp) (watch : Watch) (input : Env × ConnOp) : Option Watch :=
  (connStep evp watch.conn input).map fun next =>
    match input.2 with
    | .recv data nowUs =>
      ⟨next, if (openDatagram evp watch.conn data).isSome then watch.decrypted ++ [nowUs]
        else watch.decrypted, nowUs⟩
    | .onTimeout nowUs => ⟨next, watch.decrypted, nowUs⟩
    | _ => ⟨next, watch.decrypted, watch.latest⟩

/-- Receptions and checks come at times that do not go back. -/
def Forward (watch : Watch) (op : ConnOp) : Prop :=
  ∀ nowUs ∈ op.clock, watch.latest ≤ nowUs

/-- A datagram that decrypts while a probe is unanswered brings a heartbeat the connection takes. -/
def Answered (evp : Evp) (watch : Watch) (op : ConnOp) : Prop :=
  ∀ data ∈ op.datagram, ∀ opened ∈ openDatagram evp watch.conn data,
    watch.conn.heartbeat.awaitingResponse = true →
      watch.conn.Listens ∧ opened.1.isSome = true ∧ bringsHeartbeat (leadingFrames opened.2) = true

/-- The time at which a check finds the next probe due is one there is. -/
def Timed (watch : Watch) (op : ConnOp) : Prop :=
  op.checks = true → watch.conn.heartbeat.timeInitialized = true →
    watch.conn.heartbeat.lastSentUs.toNat + watch.conn.heartbeat.intervalUs.toNat < 2 ^ 64

/-- An operation in the order of time that leaves no probe unanswered. -/
def Fair (evp : Evp) (watch : Watch) (input : Env × ConnOp) : Prop :=
  watch.Forward input.2 ∧ watch.Answered evp input.2 ∧ watch.Timed input.2

instance (watch : Watch) (op : ConnOp) : Decidable (watch.Forward op) :=
  -- Not by trying every time there is.
  Option.decidableForallMem op.clock

instance (evp : Evp) (watch : Watch) (input : Env × ConnOp) : Decidable (watch.Fair evp input) :=
  have : Decidable watch.conn.Listens := inferInstanceAs (Decidable (¬ (_ ∨ _)))
  have : Decidable (watch.Answered evp input.2) :=
    inferInstanceAs (Decidable (∀ data ∈ input.2.datagram,
      ∀ opened ∈ openDatagram evp watch.conn data, _ → _))
  have : Decidable (watch.Timed input.2) := inferInstanceAs (Decidable (_ → _ → _))
  inferInstanceAs (Decidable (_ ∧ _ ∧ _))

end Watch

/-- Every miss has taken an interval since the last datagram that decrypts. -/
structure Probe.Sound (probe : Probe) (decrypted : List UInt64) (latest : UInt64) : Prop where
  past : ∀ time ∈ decrypted, time ≤ latest
  unmissed : probe.awaitingResponse = false → probe.consecutiveMisses = 0
  begun : probe.awaitingResponse = true → probe.timeInitialized = true
  sent : probe.awaitingResponse = true → probe.lastSentUs ≤ latest
  since : probe.awaitingResponse = true → ∀ time ∈ decrypted,
    time.toNat + probe.consecutiveMisses.toNat * probe.intervalUs.toNat ≤ probe.lastSentUs.toNat

namespace Probe.Sound

variable {probe : Probe} {decrypted : List UInt64} {latest nowUs : UInt64}

theorem quiet (past : ∀ time ∈ decrypted, time ≤ latest)
    (silent : probe.awaitingResponse = false) (unmissed : probe.consecutiveMisses = 0) :
    probe.Sound decrypted latest where
  past := past
  unmissed := fun _ => unmissed
  begun := fun waits => nomatch silent.symm.trans waits
  sent := fun waits => nomatch silent.symm.trans waits
  since := fun waits => nomatch silent.symm.trans waits

theorem later (sound : probe.Sound decrypted latest) (forward : latest ≤ nowUs) :
    probe.Sound decrypted nowUs where
  past := fun time member => UInt64.le_trans (sound.past time member) forward
  unmissed := sound.unmissed
  begun := sound.begun
  sent := fun waits => UInt64.le_trans (sound.sent waits) forward
  since := sound.since

/-- A check misses a probe no earlier than an interval after it was sent. -/
theorem check (sound : hb.probe.Sound decrypted latest) (forward : latest ≤ nowUs)
    (fits : hb.timeInitialized = true → hb.lastSentUs.toNat + hb.intervalUs.toNat < 2 ^ 64) :
    (heartbeatCheck hb nowUs).probe.Sound decrypted nowUs := by
  have past := (sound.later forward).past
  unfold heartbeatCheck
  split
  · exact sound.later forward
  · split
    · rename_i due
      refine ⟨past, nofun, fun _ => rfl, fun _ => UInt64.le_refl nowUs, fun _ time member => ?_⟩
      show time.toNat + (if hb.awaitingResponse then _ else _ : UInt32).toNat *
        hb.intervalUs.toNat ≤ nowUs.toNat
      have before := UInt64.le_iff_toNat_le.mp (past time member)
      cases waits : hb.awaitingResponse with
      | false =>
        have unmissed : hb.consecutiveMisses = 0 := sound.unmissed waits
        rw [if_neg Bool.false_ne_true, unmissed]
        simpa using before
      | true =>
        -- The probe before was sent an interval ago, so one more miss has taken one more interval.
        have begun : hb.timeInitialized = true := sound.begun waits
        have elapsed : hb.lastSentUs + hb.intervalUs ≤ nowUs := by simpa [begun] using due
        rw [UInt64.le_iff_toNat_le, UInt64.toNat_add, Nat.mod_eq_of_lt (fits begun)] at elapsed
        have since : time.toNat + hb.consecutiveMisses.toNat * hb.intervalUs.toNat ≤
            hb.lastSentUs.toNat := sound.since waits time member
        have count : (hb.consecutiveMisses + 1).toNat ≤ hb.consecutiveMisses.toNat + 1 := by
          rw [UInt32.toNat_add]
          exact Nat.mod_le _ _
        have product := Nat.mul_le_mul_right hb.intervalUs.toNat count
        rw [Nat.add_mul, Nat.one_mul] at product
        rw [if_pos rfl]
        omega
    · exact sound.later forward

/-- A dead peer has been silent for three intervals. -/
theorem dead (sound : hb.probe.Sound decrypted latest) (dead : heartbeatIsDead hb = true) :
    ∀ time ∈ decrypted, time.toNat + 3 * hb.intervalUs.toNat ≤ latest.toNat := by
  intro time member
  rw [heartbeatIsDead, Bool.and_eq_true, decide_eq_true_eq] at dead
  have many : 3 ≤ hb.consecutiveMisses.toNat := UInt32.le_iff_toNat_le.mp dead.2
  cases waits : hb.awaitingResponse with
  | false =>
    have unmissed : hb.consecutiveMisses = 0 := sound.unmissed waits
    rw [unmissed] at many
    exact absurd many (by decide)
  | true =>
    have since : time.toNat + hb.consecutiveMisses.toNat * hb.intervalUs.toNat ≤
        hb.lastSentUs.toNat := sound.since waits time member
    have sent : hb.lastSentUs.toNat ≤ latest.toNat :=
      UInt64.le_iff_toNat_le.mp (sound.sent waits)
    have product := Nat.mul_le_mul_right hb.intervalUs.toNat many
    omega

end Probe.Sound

namespace Watch

/-- The probes of the watched connection are sound. -/
def Sound (watch : Watch) : Prop :=
  watch.conn.heartbeat.probe.Sound watch.decrypted watch.latest

/-- A datagram keeps the probes sound if it answers those that are unanswered. -/
theorem Sound.recv {env : Env} {watch : Watch} {data : Bytes} {nowUs : UInt64}
    (sound : watch.Sound) (forward : watch.Forward (.recv data nowUs))
    (answered : watch.Answered evp (.recv data nowUs)) :
    (connRecv evp env watch.conn data nowUs).2.heartbeat.probe.Sound
      (if (openDatagram evp watch.conn data).isSome then watch.decrypted ++ [nowUs]
        else watch.decrypted) nowUs := by
  have later := Probe.Sound.later sound (forward nowUs rfl)
  have past : ∀ time ∈ watch.decrypted ++ [nowUs], time ≤ nowUs := by
    intro time member
    rcases List.mem_append.mp member with before | new
    · exact later.past time before
    · exact List.mem_singleton.mp new ▸ UInt64.le_refl nowUs
  cases opens : openDatagram evp watch.conn data with
  | none =>
    have same := @connRecv_unopened evp env watch.conn data nowUs
      (fun _ _ opened => nomatch opens.symm.trans opened)
    rw [same]
    exact later
  | some opened =>
    have read := answered data rfl opened opens
    obtain ⟨kind, payload⟩ := opened
    simp only [Option.isSome_some, if_true]
    cases waits : watch.conn.heartbeat.awaitingResponse with
    | false =>
      have unmissed : watch.conn.heartbeat.probe.consecutiveMisses = 0 := sound.unmissed waits
      have unheard {hb : Heartbeat} (same : hb = watch.conn.heartbeat) :
          hb.probe.Sound (watch.decrypted ++ [nowUs]) nowUs :=
        same ▸ Probe.Sound.quiet past waits unmissed
      by_cases listens : watch.conn.Listens
      · cases kind with
        | none => exact unheard (connRecv_unopened fun _ _ other => nomatch opens.symm.trans other)
        | some pktNum =>
          obtain ⟨start, same, taken⟩ := @connRecv_probe evp env _ _ _ nowUs _ opens listens
          rw [taken]
          rcases processEach_probe env nowUs start (leadingFrames payload) with kept | cleared
          · rw [kept, same]
            exact Probe.Sound.quiet past waits unmissed
          · rw [cleared]
            exact Probe.Sound.quiet past rfl rfl
      · have deaf := connRecv_deaf (not_not.mp listens) evp env data nowUs
        exact unheard (congrArg Conn.heartbeat deaf)
    | true =>
      obtain ⟨listens, short, brings⟩ := read waits
      obtain ⟨pktNum, rfl⟩ := Option.isSome_iff_exists.mp short
      obtain ⟨start, same, taken⟩ := @connRecv_probe evp env _ _ _ nowUs _ opens listens
      rw [taken, processEach_answered env nowUs brings]
      exact Probe.Sound.quiet past rfl rfl

/-- Every fair step keeps the probes sound. -/
theorem Sound.step {watch next : Watch} {input : Env × ConnOp} (sound : watch.Sound)
    (fair : watch.Fair evp input) (stepped : watch.step evp input = some next) : next.Sound := by
  obtain ⟨env, op⟩ := input
  obtain ⟨forward, answered, timed⟩ := fair
  obtain ⟨after, done, rfl⟩ := Option.map_eq_some_iff.mp stepped
  have other (quiet : ¬ op.Probes) : Sound ⟨after, watch.decrypted, watch.latest⟩ := by
    unfold Sound
    rw [connStep_heartbeat quiet done]
    exact sound
  cases op with
  | recv data nowUs =>
    cases done
    exact sound.recv forward answered
  | onTimeout nowUs =>
    cases done
    show (connOnTimeout watch.conn nowUs).heartbeat.probe.Sound watch.decrypted nowUs
    rw [connOnTimeout_heartbeat]
    split
    · exact Probe.Sound.later sound (forward nowUs rfl)
    · exact Probe.Sound.check sound (forward nowUs rfl) (timed rfl)
  | send maxLen nowUs =>
    obtain ⟨⟨result, conn⟩, called, rfl⟩ := Option.map_eq_some_iff.mp done
    show conn.heartbeat.probe.Sound watch.decrypted watch.latest
    rw [(connSend_sent called).probe]
    exact sound
  | setHeartbeat intervalUs =>
    cases done
    exact Probe.Sound.quiet sound.past rfl rfl
  | _ => exact other id

end Watch

/-- The heartbeat closes a connection that is not closed already nor closed for being idle. -/
def Conn.HeartbeatCloses (conn : Conn) (nowUs : UInt64) : Prop :=
  conn.state ≠ .closed ∧ ¬ conn.Idles nowUs ∧ (connOnTimeout conn nowUs).state = .closed

instance (conn : Conn) (nowUs : UInt64) : Decidable (conn.HeartbeatCloses nowUs) :=
  inferInstanceAs (Decidable (_ ∧ _ ∧ _))

/-- In a run in which every datagram that decrypts while a probe is unanswered brings a heartbeat,
and no time of a next probe overflows, the heartbeat closes a connection only if nothing that
decrypts was received for three intervals. -/
theorem heartbeat_death_justified {evp : Evp} {env : Env} {conn : Conn} {intervalUs nowUs : UInt64}
    {inputs : List (Env × ConnOp)} {watch : Watch}
    (fair : Machine.Throughout (Watch.step evp) (Watch.Fair evp) (Watch.start conn intervalUs)
      inputs)
    (reached : Machine.attempt (Watch.step evp) (Watch.start conn intervalUs) inputs = some watch)
    (last : watch.Fair evp (env, .onTimeout nowUs)) (closes : watch.conn.HeartbeatCloses nowUs) :
    ∀ time ∈ watch.decrypted,
      time.toNat + 3 * watch.conn.heartbeat.intervalUs.toNat ≤ nowUs.toNat := by
  obtain ⟨alive, busy, closed⟩ := closes
  have sound : watch.Sound := Machine.attempt_invariant (Watch.Fair evp) Watch.Sound
    (fun _ _ _ sound fair stepped => sound.step fair stepped)
    (Probe.Sound.quiet (fun _ member => (List.not_mem_nil member).elim) rfl rfl) fair reached
  have checked := Probe.Sound.check sound (last.1 nowUs rfl) (last.2.2 rfl)
  have interval : (heartbeatCheck watch.conn.heartbeat nowUs).intervalUs =
      watch.conn.heartbeat.intervalUs := by
    unfold heartbeatCheck
    split
    · rfl
    · split <;> rfl
  rw [← interval]
  exact checked.dead (connOnTimeout_dead busy alive closed)

/-- A client that received a heartbeat and then misses three probes of its own. -/
def unansweredThrice : List (Env × ConnOp) :=
  [(plainEnv, .setEstablished ConnId.empty), (plainEnv, .setHeartbeat 10),
    (plainEnv, .onTimeout 1), (plainEnv, .recv [0x40, 0, 0x20, 1] 5), (plainEnv, .onTimeout 11),
    (plainEnv, .onTimeout 21), (plainEnv, .onTimeout 31)]

/-- Three intervals after a heartbeat, and not before, such a client is given up. -/
theorem heartbeat_death_thrice :
    ∃ watch, Machine.attempt (Watch.step plainEvp)
        (Watch.start (connCreate plainConfig false false) 0) unansweredThrice = some watch ∧
      watch.decrypted = [5] ∧ watch.conn.HeartbeatCloses 41 ∧
      ∀ time ∈ watch.decrypted, time.toNat + 3 * watch.conn.heartbeat.intervalUs.toNat ≤ 41 := by
  obtain ⟨watch, reached, heard, closes, last⟩ : ∃ watch, Machine.attempt (Watch.step plainEvp)
        (Watch.start (connCreate plainConfig false false) 0) unansweredThrice = some watch ∧
      watch.decrypted = [5] ∧ watch.conn.HeartbeatCloses 41 ∧
      watch.Fair plainEvp (plainEnv, .onTimeout 41) := by decide +kernel
  have fair : Machine.Throughout (Watch.step plainEvp) (Watch.Fair plainEvp)
      (Watch.start (connCreate plainConfig false false) 0) unansweredThrice := by decide +kernel
  exact ⟨watch, reached, heard, closes, heartbeat_death_justified fair reached last closes⟩

/-- A client and a server after their handshake, and what the server then sends of a stream. -/
def greeted : Link := plainLink (greeting ++
  [.operate .b plainEnv (.openStream .reliable false),
    .operate .b plainEnv (.streamSend 1 [7] false), .operate .b plainEnv (.send 1200 5)])

/-- A client whose probes go unanswered twice and that then receives data of a stream. -/
def unansweredTwice : List (Env × ConnOp) :=
  [(plainEnv, .onTimeout 1), (plainEnv, .onTimeout 11), (plainEnv, .onTimeout 21),
    (plainEnv, .recv ((greeted.sentB.getLast?.map Posted.bytes).getD []) 30)]

/-- A client with keys is given up a microsecond after it received data of a stream. -/
theorem heartbeat_death_unjustified :
    ∃ watch, Machine.attempt (Watch.step plainEvp) (Watch.start greeted.a 10) unansweredTwice =
        some watch ∧
      Machine.Throughout (Watch.step plainEvp) (fun watch input => watch.Forward input.2)
        (Watch.start greeted.a 10) unansweredTwice ∧
      watch.conn.crypto.available = true ∧ watch.decrypted = [30] ∧
      watch.conn.heartbeat.intervalUs = 10 ∧ watch.conn.HeartbeatCloses 31 := by
  decide +kernel

end Nxp
