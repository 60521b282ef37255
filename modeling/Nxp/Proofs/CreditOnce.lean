import Nxp.Core.Loading
import Nxp.Core.StreamIds
import Mathlib.Algebra.BigOperators.Group.Finset.Piecewise
import Mathlib.Algebra.Order.BigOperators.Group.Finset

/-! When what a connection is charged for is what its streams have sent, each octet once. -/

namespace Nxp

/-- A connection, how far each stream was ever sent, and how many octets were sent once more. -/
structure Metered where
  conn : Conn
  highest : UInt64 → Nat
  repeated : Nat

namespace Metered

/-- Nothing has been sent yet. -/
def new (conn : Conn) : Metered := ⟨conn, fun _ => 0, 0⟩

/-- Streams get as far as they are in the next state; what they pass below the highest offset they
had been sent to is sent once more. -/
def take (m : Metered) (next : Conn) : Metered where
  conn := next
  highest id := max (m.highest id) (next.frontier id)
  repeated := m.repeated +
    ∑ id ∈ next.ids, (min (next.frontier id) (m.highest id) - m.conn.frontier id)

/-- The sum over all streams of the highest offsets they were ever sent to. -/
def total (m : Metered) : Nat := ∑ id ∈ m.conn.ids, m.highest id

/-- No stream is behind the highest offset it was sent to. -/
def Abreast (m : Metered) : Prop := ∀ id, m.conn.frontier id = m.highest id

end Metered

/-- What an operation does to a connection that is metered. -/
def meteredStep (evp : Evp) (m : Metered) (input : Env × ConnOp) : Option Metered :=
  (connStep evp m.conn input).map m.take

/-- An operation by which a stream gets further that is behind the highest offset it was sent to. -/
def Metered.Repeats (evp : Evp) (m : Metered) (input : Env × ConnOp) : Prop :=
  ∃ next, connStep evp m.conn input = some next ∧
    ∃ id, m.conn.frontier id < m.highest id ∧ m.conn.frontier id < next.frontier id

section Frontier

variable {before after : Conn} {act : Act} {id : UInt64} {s s' : Stream}

/-- Outside sending, no sent offset rises. -/
theorem Move.sentOffset_le (move : Move id s act s') (received : act.sending.getD false = false) :
    s'.send.sentOffset.toNat ≤ s.send.sentOffset.toNat := by
  cases move with
  | retimed only => rw [only]
  | @received env f named => rw [(streamOnRecv_send s f).2]
  | raised maxData => exact Nat.le_refl _
  | acked named blocked => rw [streamOnAck_only, streamOnAck_send]
  | lost named =>
    rw [streamOnLoss_send]
    exact (Word.toNat_min_guarded _ _).trans_le (Nat.min_le_right _ _)
  | sent => cases received
  | written data fin => rw [(streamWrite_sent s data fin).2.1]
  | read bufLen => rw [(streamRead_send s bufLen).2]

/-- A new stream has sent nothing. -/
theorem Act.creates_unsent (made : act.creates before id s) : s.send.sentOffset = 0 := by
  cases act with
  | taken env f =>
    obtain ⟨-, -, -, -, -, rfl⟩ := made
    rw [(streamOnRecv_send _ f).2]
    rfl
  | opened =>
    obtain ⟨-, -, -, -, rfl⟩ := made
    rfl
  | _ => cases made

/-- Outside a call to send, no stream gets further and nothing is charged. -/
structure Falls (before after : Conn) : Prop where
  ids : before.ids ⊆ after.ids
  behind : ∀ id, after.frontier id ≤ before.frontier id
  charged : after.connFlow.dataSent = before.connFlow.dataSent

/-- An act of receiving moves no stream ahead and charges nothing. -/
theorem Act.falls (done : act.does before after) (received : act.sending.getD false = false) :
    Falls before after := by
  refine ⟨Act.ids_subset done, fun id => ?_, ?_⟩
  · have step := Act.streams done id
    unfold Conn.frontier
    generalize before.stream id = old, after.stream id = new at step
    cases step with
    | absent => exact Nat.le_refl _
    | @moved s linked moved s' first move last =>
      have start : linked.send = s.send := (congrArg Stream.send first :)
      have final : s'.send = moved.send := (congrArg Stream.send last :)
      have le := move.sentOffset_le received
      rw [start, ← final] at le
      exact le
    | created _ made =>
      rw [Option.elim_some, Act.creates_unsent made]
      exact Nat.zero_le _
  · rcases Act.flow_received done received with same | ⟨maxData, raised⟩
    · rw [same]
    · rw [raised, flowSetPeerMax_only]

/-- In a call to send, streams get further, and as much is charged. -/
structure Pays (before after : Conn) : Prop where
  ids : after.ids = before.ids
  ahead : ∀ id, before.frontier id ≤ after.frontier id
  charged : after.connFlow.dataSent.toNat + ∑ id ∈ before.ids, before.frontier id =
    before.connFlow.dataSent.toNat + ∑ id ∈ before.ids, after.frontier id

theorem Pays.of_same (ids : after.ids = before.ids) (same : after.frontier = before.frontier)
    (charged : after.connFlow.dataSent = before.connFlow.dataSent) : Pays before after := by
  refine ⟨ids, fun id => ?_, ?_⟩
  · rw [same]
  · rw [same, charged]

theorem Pays.trans {middle : Conn} (first : Pays before middle)
    (second : Pays middle after) : Pays before after := by
  refine ⟨second.ids.trans first.ids, fun id => (first.ahead id).trans (second.ahead id), ?_⟩
  have early := first.charged
  have late := second.charged
  rw [first.ids] at late
  omega

theorem sum_update_add (ids : Finset UInt64) (front : UInt64 → Nat) {id : UInt64}
    (member : id ∈ ids)
    (more : Nat) : ∑ other ∈ ids, Function.update front id (front id + more) other =
      (∑ other ∈ ids, front other) + more := by
  rw [Finset.sum_update_of_mem member, ← Finset.add_sum_erase ids front member,
    Finset.sdiff_singleton_eq_erase]
  omega

/-- A turn of the stream loop charges what it sends. -/
theorem Turned.pays {space : Nat} {b b' : SendBuild} (turned : Turned space b b')
    (sound : b.conn.Sound) : Pays b.conn b'.conn := by
  have ids : b'.conn.ids = b.conn.ids :=
    @Act.ids_eq (.turned space b b') _ _ ⟨rfl, rfl, turned⟩ fun _ _ made => made
  cases turned with
  | relinked next =>
    have links := schedNext_links next
    exact .of_same ids (Conn.frontier_relinks links)
      (congrArg (fun conn => conn.connFlow.dataSent) links.only :)
  | @kept conn id s s' next found only =>
    have links := schedNext_links next
    have send : s'.send = s.send := by rw [only]
    refine .of_same ids ?_ (congrArg (fun conn => conn.connFlow.dataSent) links.only :)
    show (conn.setStream id s').frontier = _
    rw [Conn.frontier_setStream, send, ← Conn.frontier_found found, Function.update_eq_self]
    exact Conn.frontier_relinks links
  | @sent conn id limit s refreshed s' f bytes next found able only budget limited filled encoded =>
    have links := schedNext_links next
    have flow : conn.connFlow = b.conn.connFlow := (congrArg Conn.connFlow links.only :)
    have charge := sound.flow.charge (flow ▸ streamFillFrame_remain limited filled)
    have member : id ∈ b.conn.ids := by
      obtain ⟨s₀, there, -⟩ := (Option.map_eq_some_iff.mp
        ((links.streams id).symm.trans (congrArg _ found)))
      exact Conn.mem_ids.mpr ⟨s₀, there⟩
    have front : (SendBuild.putStream { b with conn := conn } id s' f bytes).conn.frontier =
        Function.update b.conn.frontier id (b.conn.frontier id + f.length.toNat) := by
      have send : refreshed.send = s.send := by rw [only]
      obtain ⟨-, -, -, -, moved, -⟩ := streamFillFrame_frontier filled
      rw [SendBuild.putStream_frontier, moved, send, ← Conn.frontier_found found,
        ← Conn.frontier_relinks links]
    refine ⟨ids, fun other => ?_, ?_⟩
    · rw [front]
      by_cases same : other = id
      · rw [same, Function.update_self]
        exact Nat.le_add_right _ _
      · rw [Function.update_of_ne same]
    · rw [front, sum_update_add _ _ member, SendBuild.putStream_flow, flow, charge.1]
      omega

/-- An act of a call to send. -/
theorem Act.pays (done : act.does before after) (sends : act.sending.getD true = true)
    (sound : before.Sound) : Pays before after := by
  have same (streams : after.streams = before.streams)
      (charged : after.connFlow.dataSent = before.connFlow.dataSent) : Pays before after := by
    refine .of_same ?_ ?_ charged
    · unfold Conn.ids
      rw [streams]
    · funext id
      unfold Conn.frontier Conn.stream
      rw [streams]
  cases act with
  | aside =>
    exact same (congrArg Carriage.streams done :)
      (congrArg (fun carriage => carriage.connFlow.dataSent) done :)
  | advertised =>
    obtain ⟨-, rfl⟩ := done
    exact same rfl rfl
  | turned space b b' =>
    obtain ⟨rfl, rfl, turned⟩ := done
    exact turned.pays sound
  | asked =>
    have ids : after.ids = before.ids := Act.ids_eq done fun _ _ made => made
    cases done
    have links := schedNext_relinks before
    exact .of_same ids (Conn.frontier_relinks links)
      (congrArg (fun conn => conn.connFlow.dataSent) links.only :)
  | _ => cases sends

end Frontier

section Steps

variable {evp : Evp} {conn next : Conn} {input : Env × ConnOp}

/-- Nor does a call other than a send. -/
theorem connStep_falls (stepped : connStep evp conn input = some next)
    (other : input.2.isSend = false) : Falls conn next := by
  have performed := connStep_performs (Terms.free_met evp conn input) stepped
  rw [other] at performed
  refine performed.relate Falls (fun _ => ⟨Finset.Subset.refl _, fun _ => Nat.le_refl _, rfl⟩) ?_ ?_
  · exact fun _ _ _ first second => ⟨first.ids.trans second.ids,
      fun id => (second.behind id).trans (first.behind id), second.charged.trans first.charged⟩
  · exact fun _ _ act received done => Act.falls done received

/-- A send charges every octet by which streams get ahead. -/
theorem connStep_pays (stepped : connStep evp conn input = some next)
    (send : input.2.isSend = true) (sound : conn.Sound) : Pays conn next := by
  have performed := connStep_performs (Terms.free_met evp conn input) stepped
  rw [send] at performed
  have both := performed.relate
    (fun before after => before.Sound → after.Sound ∧ Pays before after)
    (fun _ sound => ⟨sound, .of_same rfl rfl rfl⟩) ?_ ?_
  · exact (both sound).2
  · intro _ _ _ first second sound
    obtain ⟨middle, early⟩ := first sound
    obtain ⟨final, late⟩ := second middle
    exact ⟨final, early.trans late⟩
  · exact fun _ _ act sends done sound => ⟨sound.act done, Act.pays done sends sound⟩

end Steps

/-- Every stream has been sent to its highest offset at most, and what is charged is the sum of
these and what was sent once more. -/
structure Metered.Balanced (m : Metered) : Prop where
  sound : m.conn.Sound
  ahead : ∀ id, m.conn.frontier id ≤ m.highest id
  blank : ∀ id, id ∉ m.conn.ids → m.highest id = 0
  charged : m.conn.connFlow.dataSent.toNat = m.total + m.repeated

namespace Metered

theorem new_balanced (config : ConnConfig) (isServer allocCc : Bool) :
    (new (connCreate config isServer allocCc)).Balanced :=
  ⟨connCreate_sound config isServer allocCc, fun _ => Nat.le_refl _, fun _ _ => rfl, rfl⟩

variable {m : Metered} {next : Conn}

theorem take_falls (balanced : m.Balanced) (falls : Falls m.conn next) :
    (m.take next).highest = m.highest ∧ (m.take next).repeated = m.repeated := by
  constructor
  · funext id
    have behind := falls.behind id
    have ahead := balanced.ahead id
    show max (m.highest id) (next.frontier id) = m.highest id
    omega
  · show m.repeated + _ = m.repeated
    rw [Nat.add_eq_left]
    refine Finset.sum_eq_zero fun id _ => ?_
    have behind := falls.behind id
    omega

theorem Balanced.falls (balanced : m.Balanced) (sound : next.Sound) (falls : Falls m.conn next) :
    (m.take next).Balanced := by
  obtain ⟨highest, repeated⟩ := take_falls balanced falls
  refine ⟨sound, fun id => Nat.le_max_right _ _, fun id absent => ?_, ?_⟩
  · rw [highest]
    exact balanced.blank id fun member => absent (falls.ids member)
  · -- Streams that are new have not been sent yet.
    have same : (m.take next).total = m.total := by
      unfold total
      rw [highest]
      exact (Finset.sum_subset falls.ids fun id _ absent => balanced.blank id absent).symm
    rw [same, repeated, ← balanced.charged]
    exact congrArg UInt64.toNat falls.charged

/-- A call to send keeps the balance. -/
theorem Balanced.pays (balanced : m.Balanced) (sound : next.Sound) (pays : Pays m.conn next) :
    (m.take next).Balanced := by
  refine ⟨sound, fun id => Nat.le_max_right _ _, fun id absent => ?_, ?_⟩
  · rw [show (m.take next).conn.ids = m.conn.ids from pays.ids] at absent
    have none : next.frontier id = 0 := by
      rw [← pays.ids, Conn.not_mem_ids] at absent
      unfold Conn.frontier
      rw [absent]
      rfl
    show max (m.highest id) (next.frontier id) = 0
    rw [balanced.blank id absent, none]
    rfl
  · -- A stream gets further over octets that were sent before, and then over new ones.
    have split : ∑ id ∈ m.conn.ids, (next.frontier id + m.highest id) =
        ∑ id ∈ m.conn.ids, (m.conn.frontier id + max (m.highest id) (next.frontier id) +
          (min (next.frontier id) (m.highest id) - m.conn.frontier id)) := by
      refine Finset.sum_congr rfl fun id _ => ?_
      have ahead := balanced.ahead id
      have further := pays.ahead id
      omega
    simp only [Finset.sum_add_distrib] at split
    have charged := pays.charged
    have before : m.conn.connFlow.dataSent.toNat =
        ∑ id ∈ m.conn.ids, m.highest id + m.repeated := balanced.charged
    show next.connFlow.dataSent.toNat = ∑ id ∈ next.ids, max (m.highest id) (next.frontier id) +
      (m.repeated + ∑ id ∈ next.ids, (min (next.frontier id) (m.highest id) - m.conn.frontier id))
    rw [pays.ids]
    omega

/-- One call keeps the meter balanced. -/
theorem Balanced.step {evp : Evp} {input : Env × ConnOp} {m' : Metered} (balanced : m.Balanced)
    (metered : meteredStep evp m input = some m') : m'.Balanced := by
  obtain ⟨next, stepped, rfl⟩ := Option.map_eq_some_iff.mp metered
  have sound : next.Sound := (connStep_acts (Terms.free_met evp _ _) stepped).preserve
    (fun _ _ _ _ done sound => sound.act done) balanced.sound
  cases send : input.2.isSend with
  | true => exact balanced.pays sound (connStep_pays stepped send balanced.sound)
  | false => exact balanced.falls sound (connStep_falls stepped send)

/-- An octet is sent again only where a stream behind its highest offset gets ahead. -/
theorem take_repeated_iff (m : Metered) (next : Conn) :
    (m.take next).repeated = m.repeated ↔
      ∀ id, m.conn.frontier id < m.highest id → next.frontier id ≤ m.conn.frontier id := by
  show m.repeated + _ = m.repeated ↔ _
  rw [Nat.add_eq_left, Finset.sum_eq_zero_iff]
  constructor
  · intro none id behind
    by_contra further
    have member : id ∈ next.ids := by
      by_contra absent
      rw [Conn.not_mem_ids] at absent
      unfold Conn.frontier at further
      rw [absent] at further
      exact further (Nat.zero_le _)
    have zero := none id member
    omega
  · intro still id _
    have := still id
    omega

/-- Only streams that exist can be behind. -/
theorem Balanced.abreast (balanced : m.Balanced)
    (level : ∀ id ∈ m.conn.ids, m.conn.frontier id = m.highest id) : m.Abreast := by
  intro id
  by_cases present : id ∈ m.conn.ids
  · exact level id present
  · have ahead := balanced.ahead id
    have blank := balanced.blank id present
    omega

end Metered

/-- Every run of the connection can be metered. -/
theorem metered_attempt {evp : Evp} {m : Metered} {inputs : List (Env × ConnOp)} {conn : Conn}
    (reached : Machine.attempt (connStep evp) m.conn inputs = some conn) :
    ∃ m', Machine.attempt (meteredStep evp) m inputs = some m' ∧ m'.conn = conn := by
  induction inputs generalizing m with
  | nil =>
    cases reached
    exact ⟨m, rfl, rfl⟩
  | cons input rest ih =>
    obtain ⟨next, stepped, reached⟩ := Machine.attempt_cons_some.mp reached
    obtain ⟨m', run, same⟩ := @ih (m.take next) reached
    refine ⟨m', ?_, same⟩
    rw [Machine.attempt_cons, meteredStep, stepped]
    exact run

theorem metered_once_iff {evp : Evp} {m m' : Metered} {inputs : List (Env × ConnOp)}
    (start : m.repeated = 0) (reached : Machine.attempt (meteredStep evp) m inputs = some m') :
    m'.repeated = 0 ↔
      Machine.Throughout (meteredStep evp) (fun m input => ¬ m.Repeats evp input) m inputs := by
  refine Machine.attempt_iff (fun m input => m.Repeats evp input) (fun _ => True)
    (fun m => m.repeated = 0) (fun _ _ _ _ _ => trivial) ?_ ?_ ?_ trivial start reached
  · intro m input m' _ none still metered
    obtain ⟨next, stepped, rfl⟩ := Option.map_eq_some_iff.mp metered
    refine ((m.take_repeated_iff next).mpr fun id behind => ?_).trans none
    by_contra further
    exact still ⟨next, stepped, id, behind, Nat.not_le.mp further⟩
  · rintro m input m' _ ⟨next, stepped, id, behind, further⟩ metered none
    rw [meteredStep, stepped] at metered
    cases metered
    -- The count was zero before, so it did not grow.
    have same : (m.take next).repeated = m.repeated := by
      have least : m.repeated ≤ (m.take next).repeated := Nat.le_add_right _ _
      omega
    exact Nat.not_le.mpr further ((m.take_repeated_iff next).mp same id behind)
  · intro m input m' _ some metered none
    obtain ⟨next, stepped, rfl⟩ := Option.map_eq_some_iff.mp metered
    have least : m.repeated ≤ (m.take next).repeated := Nat.le_add_right _ _
    omega

/-- A connection is charged for the highest offsets of its streams and for what it sent once more;
these are the same exactly if no operation of the run took a stream further that was behind its
highest offset, which is so if no stream is behind in any call to send. -/
theorem credit_charged_once_iff {evp : Evp} {config : ConnConfig} {isServer allocCc : Bool}
    {inputs : List (Env × ConnOp)} {conn : Conn}
    (reached : Machine.attempt (connStep evp) (connCreate config isServer allocCc) inputs =
      some conn) :
    ∃ m, Machine.attempt (meteredStep evp) (.new (connCreate config isServer allocCc)) inputs =
        some m ∧ m.conn = conn ∧
      conn.connFlow.dataSent.toNat = m.total + m.repeated ∧
      (conn.connFlow.dataSent.toNat = m.total ↔
        Machine.Throughout (meteredStep evp) (fun m input => ¬ m.Repeats evp input)
          (.new (connCreate config isServer allocCc)) inputs) ∧
      (Machine.Throughout (meteredStep evp) (fun m input => input.2.isSend = true → m.Abreast)
          (.new (connCreate config isServer allocCc)) inputs →
        conn.connFlow.dataSent.toNat = m.total) := by
  obtain ⟨m, run, same⟩ :=
    @metered_attempt evp (.new (connCreate config isServer allocCc)) inputs conn reached
  have start := Metered.new_balanced config isServer allocCc
  have balanced : m.Balanced := Machine.attempt_preserves Metered.Balanced
    (fun _ _ _ balanced stepped => balanced.step stepped) start run
  have law := balanced.charged
  rw [same] at law
  have once : conn.connFlow.dataSent.toNat = m.total ↔
      Machine.Throughout (meteredStep evp) (fun m input => ¬ m.Repeats evp input)
        (.new (connCreate config isServer allocCc)) inputs := by
    rw [law, Nat.add_eq_left]
    exact metered_once_iff rfl run
  refine ⟨m, run, same, law, once, fun abreast => once.mpr (abreast.mono ?_)⟩
  rintro m input abreast ⟨next, stepped, id, behind, further⟩
  cases send : input.2.isSend with
  | true => exact Nat.ne_of_lt behind (abreast send id)
  | false => exact Nat.not_lt.mpr ((connStep_falls stepped send).behind id) further

/-- Three octets are written and sent, and then one more. -/
def fourSent : List (Env × ConnOp) :=
  threeWritten ++
    [(plainEnv, .send 1200 0), (plainEnv, .streamSend 0 [4] false), (plainEnv, .send 1200 0)]

/-- A stream that is at its highest offset in each call to send is charged for once: four octets. -/
theorem credit_charged_once_four :
    ∃ conn, Machine.attempt (connStep plainEvp) (connCreate plainConfig false false) fourSent =
        some conn ∧
      conn.connFlow.dataSent = 4 ∧
      ∃ m, Machine.attempt (meteredStep plainEvp) (.new (connCreate plainConfig false false))
          fourSent = some m ∧ m.conn = conn ∧ conn.connFlow.dataSent.toNat = m.total := by
  have ran : (Machine.attempt (connStep plainEvp) (connCreate plainConfig false false)
      fourSent).map (fun conn => conn.connFlow.dataSent) = some 4 ∧
      Machine.Throughout (meteredStep plainEvp)
        (fun m input => input.2.isSend = true →
          m.conn.streams.keys.all fun id => m.conn.frontier id == m.highest id)
        (.new (connCreate plainConfig false false)) fourSent := by decide +kernel
  obtain ⟨⟨conn, reached, charged⟩, level⟩ := ran.imp_left Option.map_eq_some_iff.mp
  obtain ⟨m, run, same, -, -, once⟩ := credit_charged_once_iff reached
  refine ⟨conn, reached, charged, m, run, same, once (level.mono_of Metered.Balanced
    (fun _ _ _ balanced stepped => balanced.step stepped) (fun m input balanced level sends => ?_)
    (Metered.new_balanced plainConfig false false))⟩
  refine balanced.abreast fun id member => beq_iff_eq.mp ?_
  exact List.all_eq_true.mp (level sends) id (List.mem_toFinset.mp member)

/-- Four packets carry six octets, the first of them is given up as lost when the last is
acknowledged, and all six octets are sent once more. -/
def sixRepeated : List (Env × ConnOp) :=
  threeWritten ++
    [(plainEnv, .send 1200 0), (plainEnv, .streamSend 0 [4] false), (plainEnv, .send 1200 0),
      (plainEnv, .streamSend 0 [5] false), (plainEnv, .send 1200 0),
      (plainEnv, .streamSend 0 [6] false), (plainEnv, .send 1200 0),
      (plainEnv, .recv [0x40, 0, 2, 3, 0, 0, 0] 0), (plainEnv, .send 1200 0)]

/-- A connection whose only stream was sent six octets is charged for twelve. -/
theorem credit_charged_twice :
    ∃ m, Machine.attempt (meteredStep plainEvp) (.new (connCreate plainConfig false false))
        sixRepeated = some m ∧
      m.conn.connFlow.dataSent = 12 ∧ m.total = 6 := by
  decide +kernel

end Nxp
