import Nxp.Core.Ack
import Nxp.Lib.Machine

/-! Runs of the tracker of sent packets, with a log of everything it reports. -/

namespace Nxp

/-- A reported loss: the packet, the time, the delay estimates and the acknowledgements so far. -/
structure LossReport where
  pkt : SentPkt
  nowUs : UInt64
  smoothedRtt : UInt64
  latestRtt : UInt64
  frames : List FrameAck
  deriving DecidableEq

/-- Every packet reported as acknowledged and every packet reported as lost, in order. -/
structure AckLog where
  acked : List SentPkt
  lost : List LossReport
  deriving DecidableEq

/-- Log an acknowledged packet. -/
def reportAck (_ : AckState) (pkt : SentPkt) (log : AckLog) : AckLog :=
  { log with acked := log.acked ++ [pkt] }

/-- Log a lost packet. -/
def reportLoss (nowUs : UInt64) (frames : List FrameAck) (ack : AckState) (pkt : SentPkt)
    (log : AckLog) : AckLog :=
  { log with lost := log.lost ++ [⟨pkt, nowUs, ack.smoothedRtt, ack.latestRtt, frames⟩] }

/-- Everything that can be asked of the tracker. -/
inductive AckOp where
  | received (pktNum nowUs : UInt64) (ackEliciting : Bool)
  | sent (pkt : SentPkt)
  | acknowledged (frame : FrameAck) (nowUs : UInt64)
  | timeout (nowUs : UInt64)

/-- A tracker, the packets it recorded, the acknowledgements it took and what it reported. -/
structure Tracker where
  ack : AckState
  recorded : List SentPkt
  frames : List FrameAck
  log : AckLog

/-- A tracker that has seen nothing. -/
def newTracker : Tracker := ⟨ackInit, [], [], ⟨[], []⟩⟩

/-- One request to the tracker, memory being granted whenever it asks for it. -/
def trackStep (t : Tracker) : AckOp → Tracker
  | .received pktNum nowUs ackEliciting =>
    { t with ack := ackOnPktRecv t.ack pktNum nowUs ackEliciting }
  | .sent pkt =>
    { t with
      ack := ackOnPktSent t.ack pkt true
      recorded := if (growSent t.ack true).isSome then t.recorded ++ [pkt] else t.recorded }
  | .acknowledged frame nowUs =>
    let frames := t.frames ++ [frame]
    let (ack, log) := ackOnAckRecv reportAck (reportLoss nowUs frames) t.ack frame nowUs t.log
    { t with ack, frames, log }
  | .timeout nowUs =>
    let (ack, log) := ackOnLossTimeout (reportLoss nowUs t.frames) t.ack nowUs t.log
    { t with ack, log }

/-- A packet in flight without content. -/
def flyingPkt (number sentTime : UInt64) : SentPkt :=
  ⟨number, sentTime, 1000, true, true, false, FrameRecords.empty, ⟨0, 0, 0, false, 0⟩⟩

/-- An acknowledgement of one packet. -/
def singleAck (number : UInt64) : FrameAck := ⟨number, 0, 0, [], by decide, false, 0, 0, 0⟩

/-- What a loss of this packet is reported as, under the estimates of a tracker. -/
def lossOf (nowUs : UInt64) (frames : List FrameAck) (ack : AckState) (pkt : SentPkt) : LossReport :=
  ⟨{ pkt with declaredLost := true }, nowUs, ack.smoothedRtt, ack.latestRtt, frames⟩

/-- Whether looking for losses reports a packet. -/
def losesPkt (nowUs largestAcked delay : UInt64) (pkt : SentPkt) : Bool :=
  !pkt.declaredLost && !decide (pkt.pktNum > largestAcked) && isLost pkt nowUs largestAcked delay

/-- Whether looking for losses keeps a packet. -/
def keepsPkt (nowUs largestAcked delay : UInt64) (pkt : SentPkt) : Bool :=
  !pkt.declaredLost && !losesPkt nowUs largestAcked delay pkt

section Loops

variable {nowUs largestAcked delay : UInt64} {frames : List FrameAck}

/-- Taking bytes out of flight changes nothing else. -/
theorem removeInFlight_only (ack : AckState) (pkt : SentPkt) :
    ∃ bytesInFlight, removeInFlight ack pkt = { ack with bytesInFlight } := by
  unfold removeInFlight
  split <;> exact ⟨_, rfl⟩

theorem detectLoop_only {σ : Type} (onLoss : AckState → SentPkt → σ → σ)
    (nowUs largestAcked delay : UInt64) (sent : List SentPkt) (ack : AckState) (ctx : σ) :
    ∃ bytesInFlight lossTime, (detectLoop onLoss nowUs largestAcked delay sent ack ctx).2.1 =
      { ack with bytesInFlight, lossTime } := by
  induction sent generalizing ack ctx with
  | nil => exact ⟨_, _, rfl⟩
  | cons pkt rest ih =>
    unfold detectLoop
    split
    · exact ih ack ctx
    · split
      · exact ih ack ctx
      · split
        · obtain ⟨bytes, less⟩ := removeInFlight_only ack pkt
          rw [less]
          exact ih _ _
        · exact ih _ ctx

/-- Taking an acknowledgement changes the bytes in flight only, before the delay is sampled. -/
theorem ackLoop_only {σ : Type} (onAck : AckState → SentPkt → σ → σ) (frame : FrameAck)
    (nowUs : UInt64) (sent : List SentPkt) (ack : AckState) (ctx : σ) (sample : Option UInt64) :
    ∃ bytesInFlight, (ackLoop onAck frame nowUs sent ack ctx sample).2.1 =
      { ack with bytesInFlight } := by
  induction sent generalizing ack ctx sample with
  | nil => exact ⟨_, rfl⟩
  | cons pkt rest ih =>
    unfold ackLoop
    split
    · obtain ⟨bytes, less⟩ := removeInFlight_only ack pkt
      rw [less]
      exact ih _ _ _
    · exact ih ack ctx sample

section View

variable {σ τ : Type} {onAck onLoss : AckState → SentPkt → σ → σ}
  {onAck' onLoss' : AckState → SentPkt → τ → τ} (view : σ → τ)
  (acked : ∀ ack pkt ctx, view (onAck ack pkt ctx) = onAck' ack pkt (view ctx))
  (lost : ∀ ack pkt ctx, view (onLoss ack pkt ctx) = onLoss' ack pkt (view ctx))

include acked in
/-- What a caller keeps does not matter to the loop, nor does a view of it to what is kept. -/
theorem ackLoop_view (frame : FrameAck) (nowUs : UInt64) (sent : List SentPkt)
    (ack : AckState) (ctx : σ) (sample : Option UInt64) :
    ackLoop onAck' frame nowUs sent ack (view ctx) sample =
      (ackLoop onAck frame nowUs sent ack ctx sample).map id (.map id (.map view id)) := by
  induction sent generalizing ack ctx sample with
  | nil => rfl
  | cons pkt rest ih =>
    unfold ackLoop
    split
    · simp only [← acked]
      exact ih _ _ _
    · rw [ih]
      rfl

include lost in
/-- Loss detection commutes with a view of what its callback carries. -/
theorem detectLoop_view (sent : List SentPkt) (ack : AckState) (ctx : σ) :
    detectLoop onLoss' nowUs largestAcked delay sent ack (view ctx) =
      (detectLoop onLoss nowUs largestAcked delay sent ack ctx).map id (.map id view) := by
  induction sent generalizing ack ctx with
  | nil => rfl
  | cons pkt rest ih =>
    unfold detectLoop
    split
    · exact ih ack ctx
    · split
      · rw [ih]
        rfl
      · split
        · simp only [← lost]
          exact ih _ _
        · simp only [ih]
          rfl

include acked lost in
/-- What a caller keeps can be looked at through any view that the callbacks respect. -/
theorem ackOnAckRecv_view (ack : AckState) (frame : FrameAck) (nowUs : UInt64) (ctx : σ) :
    ackOnAckRecv onAck' onLoss' ack frame nowUs (view ctx) =
      (ackOnAckRecv onAck onLoss ack frame nowUs ctx).map id view := by
  unfold ackOnAckRecv detectLostPackets
  rw [ackLoop_view view acked]
  simp only [Prod.map_fst, Prod.map_snd, id_eq]
  rw [detectLoop_view view lost]
  rfl

end View

/-- Looking for losses keeps and reports the packets it should, in their order. -/
theorem detectLoop_log (sent : List SentPkt) (ack origin : AckState) (log : AckLog)
    (smoothed : ack.smoothedRtt = origin.smoothedRtt) (latest : ack.latestRtt = origin.latestRtt) :
    (detectLoop (reportLoss nowUs frames) nowUs largestAcked delay sent ack log).1 =
        sent.filter (keepsPkt nowUs largestAcked delay) ∧
      (detectLoop (reportLoss nowUs frames) nowUs largestAcked delay sent ack log).2.2 =
        { log with lost := log.lost ++
            (sent.filter (losesPkt nowUs largestAcked delay)).map (lossOf nowUs frames origin) } := by
  -- The estimates stay the same all along, since only bytes in flight and the timer change.
  induction sent generalizing ack log with
  | nil => simp [detectLoop]
  | cons pkt rest ih =>
    unfold detectLoop
    split
    · rename_i declared
      have next := ih ack log smoothed latest
      simpa [keepsPkt, losesPkt, declared] using next
    · rename_i fresh
      have fresh : pkt.declaredLost = false := by simpa using fresh
      split
      · rename_i newer
        have next := ih ack log smoothed latest
        simpa [keepsPkt, losesPkt, fresh, newer] using next
      · rename_i older
        split
        · rename_i lost
          obtain ⟨bytes, less⟩ := removeInFlight_only ack pkt
          have next := ih { ack with bytesInFlight := bytes }
            (reportLoss nowUs frames { ack with bytesInFlight := bytes }
              { pkt with declaredLost := true } log) smoothed latest
          rw [less]
          simpa [keepsPkt, losesPkt, fresh, older, lost, reportLoss, lossOf, smoothed, latest]
            using next
        · rename_i kept
          have next := ih { ack with lossTime := if ack.lossTime < pkt.sentTime + delay then
            ack.lossTime else pkt.sentTime + delay } log smoothed latest
          simpa [keepsPkt, losesPkt, fresh, older, kept] using next

/-- Taking an acknowledgement keeps and reports the packets it should, in their order. -/
theorem ackLoop_log (frame : FrameAck) (nowUs : UInt64) (sent : List SentPkt) (ack : AckState)
    (log : AckLog) (sample : Option UInt64) :
    (ackLoop reportAck frame nowUs sent ack log sample).1 =
        sent.filter (fun pkt => !ackCovers frame pkt.pktNum) ∧
      (ackLoop reportAck frame nowUs sent ack log sample).2.2.1 =
        { log with acked := log.acked ++ sent.filter fun pkt => ackCovers frame pkt.pktNum } := by
  induction sent generalizing ack log sample with
  | nil => simp [ackLoop]
  | cons pkt rest ih =>
    unfold ackLoop
    split
    · rename_i covered
      have next := ih (removeInFlight ack pkt) (reportAck (removeInFlight ack pkt) pkt log)
      simpa [covered, reportAck] using next _
    · rename_i uncovered
      have next := ih ack log sample
      simpa [uncovered] using next

/-- Looking for losses keeps the packets it should and logs the others. -/
theorem detectLostPackets_log (nowUs largestAcked : UInt64) (frames : List FrameAck)
    (ack : AckState) (log : AckLog) :
    (detectLostPackets (reportLoss nowUs frames) ack nowUs largestAcked log).1.sent =
        ack.sent.filter (keepsPkt nowUs largestAcked (lossDelay ack)) ∧
      (detectLostPackets (reportLoss nowUs frames) ack nowUs largestAcked log).2 =
        { log with lost := log.lost ++ (ack.sent.filter
            (losesPkt nowUs largestAcked (lossDelay ack))).map (lossOf nowUs frames ack) } :=
  detectLoop_log ack.sent { ack with lossTime := timeNever } ack log rfl rfl

/-- Looking for losses changes the tracked packets, their bytes and the timer only. -/
theorem detectLostPackets_only {σ : Type} (onLoss : AckState → SentPkt → σ → σ)
    (nowUs largestAcked : UInt64) (ack : AckState) (ctx : σ) :
    ∃ sent bytesInFlight lossTime, (detectLostPackets onLoss ack nowUs largestAcked ctx).1 =
      { ack with sent, bytesInFlight, lossTime } := by
  let start : AckState := { ack with lossTime := timeNever }
  let walk := detectLoop onLoss nowUs largestAcked (lossDelay start) start.sent start ctx
  obtain ⟨bytes, time, walked⟩ : ∃ bytesInFlight lossTime,
      walk.2.1 = { start with bytesInFlight, lossTime } := detectLoop_only _ _ _ _ _ _ _
  refine ⟨walk.1, bytes, time, ?_⟩
  show ({ walk.2.1 with sent := walk.1 } : AckState) = _
  rw [walked]

end Loops

/-- The state after the acknowledged packets were taken out, before looking for losses. -/
def afterAcks (ack : AckState) (frame : FrameAck) (nowUs : UInt64) : AckState :=
  let (kept, next, _, sample) := ackLoop reportAck frame nowUs ack.sent ack ⟨[], []⟩ none
  let next := { next with sent := kept }
  let next := match sample with
    | none => next
    | some rtt => updateRtt next rtt frame.ackDelay
  { next with ptoCount := 0 }

/-- A received packet changes nothing about the sent ones. -/
theorem ackOnPktRecv_fields (ack : AckState) (pktNum nowUs : UInt64) (ackEliciting : Bool) :
    ∃ recvRanges largestRecvPn largestRecvTime ackNeeded ackDelayTimer,
      ackOnPktRecv ack pktNum nowUs ackEliciting =
        { ack with recvRanges, largestRecvPn, largestRecvTime, ackNeeded, ackDelayTimer } := by
  unfold ackOnPktRecv
  simp only
  split
  · exact ⟨_, _, _, _, _, rfl⟩
  · split <;> split <;> exact ⟨_, _, _, _, _, rfl⟩

theorem updateRtt_fields (ack : AckState) (rtt ackDelay : UInt64) :
    (updateRtt ack rtt ackDelay).sent = ack.sent ∧
      (updateRtt ack rtt ackDelay).sentCap = ack.sentCap ∧
      (updateRtt ack rtt ackDelay).bytesInFlight = ack.bytesInFlight := by
  unfold updateRtt
  simp only
  split <;> exact ⟨rfl, rfl, rfl⟩

/-- What the acknowledged packets leave behind is the loop's, whatever the delay sample. -/
theorem afterAcks_fields (ack : AckState) (frame : FrameAck) (nowUs : UInt64) :
    (afterAcks ack frame nowUs).sent =
        ack.sent.filter (fun pkt => !ackCovers frame pkt.pktNum) ∧
      (afterAcks ack frame nowUs).sentCap =
        (ackLoop reportAck frame nowUs ack.sent ack ⟨[], []⟩ none).2.1.sentCap ∧
      (afterAcks ack frame nowUs).bytesInFlight =
        (ackLoop reportAck frame nowUs ack.sent ack ⟨[], []⟩ none).2.1.bytesInFlight := by
  have kept := (ackLoop_log frame nowUs ack.sent ack ⟨[], []⟩ none).1
  unfold afterAcks
  simp only [kept]
  split
  · exact ⟨rfl, rfl, rfl⟩
  · exact updateRtt_fields _ _ _

/-- An acknowledgement takes out and logs what it covers, and then looks for losses. -/
theorem ackOnAckRecv_log (ack : AckState) (frame : FrameAck) (nowUs : UInt64) (log : AckLog)
    (onLoss : AckState → SentPkt → AckLog → AckLog) :
    ackOnAckRecv reportAck onLoss ack frame nowUs log =
      detectLostPackets onLoss (afterAcks ack frame nowUs) nowUs frame.largestAcked
        { log with acked := log.acked ++ ack.sent.filter fun pkt => ackCovers frame pkt.pktNum } := by
  have logged := (ackLoop_log frame nowUs ack.sent ack log none).2
  -- The two loops differ by what is in the log already.
  have same (log : AckLog) := @ackLoop_view _ _ reportAck (fun _ _ _ => ()) (fun _ => ())
    (fun _ _ _ => rfl) frame nowUs ack.sent ack log none
  have plain := (same log).symm.trans (same ⟨[], []⟩)
  unfold ackOnAckRecv afterAcks
  generalize ackLoop reportAck frame nowUs ack.sent ack log none = logging at *
  generalize ackLoop reportAck frame nowUs ack.sent ack ⟨[], []⟩ none = plainly at *
  obtain ⟨_, _, _, _⟩ := logging
  obtain ⟨_, _, _, _⟩ := plainly
  cases logged
  cases plain
  rfl

/-- The packets that an acknowledgement makes the sender report as acknowledged. -/
def reportedAcked (sender : AckState) (frame : FrameAck) (nowUs : UInt64) : List SentPkt :=
  (ackOnAckRecv reportAck (reportLoss nowUs []) sender frame nowUs ⟨[], []⟩).2.acked

/-- The sender reports exactly what an acknowledgement covers. -/
theorem reportedAcked_eq (sender : AckState) (frame : FrameAck) (nowUs : UInt64) :
    reportedAcked sender frame nowUs =
      sender.sent.filter fun pkt => ackCovers frame pkt.pktNum := by
  unfold reportedAcked
  rw [ackOnAckRecv_log, (detectLostPackets_log _ _ _ _ _).2]
  rfl

/-- The largest tracked number is that of a tracked packet, and no other is larger. -/
theorem largestSent_mem {sent : List SentPkt} {pkt : SentPkt} (tracked : pkt ∈ sent) :
    ∃ top ∈ sent, largestSent sent = top.pktNum ∧ ∀ other ∈ sent, other.pktNum ≤ top.pktNum := by
  -- The fold returns its start or a packet's number, and at least all of them.
  have fold (rest : List SentPkt) (start : UInt64) :
      let largest := rest.foldl (fun largest pkt => if pkt.pktNum > largest then pkt.pktNum
        else largest) start
      (largest = start ∨ ∃ top ∈ rest, largest = top.pktNum) ∧ start ≤ largest ∧
        ∀ other ∈ rest, other.pktNum ≤ largest := by
    induction rest generalizing start with
    | nil => exact ⟨.inl rfl, UInt64.le_refl _, by simp⟩
    | cons head rest ih =>
      obtain ⟨origin, above, all⟩ := ih (if head.pktNum > start then head.pktNum else start)
      have step : start ≤ (if head.pktNum > start then head.pktNum else start) ∧
          head.pktNum ≤ (if head.pktNum > start then head.pktNum else start) := by
        split
        · rename_i higher
          exact ⟨UInt64.le_of_lt higher, UInt64.le_refl _⟩
        · rename_i lower
          exact ⟨UInt64.le_refl _, UInt64.not_lt.mp lower⟩
      refine ⟨?_, UInt64.le_trans step.1 above, fun other member => ?_⟩
      · rcases origin with same | ⟨top, inside, same⟩
        · rw [List.foldl_cons, same]
          split
          · exact .inr ⟨head, List.mem_cons_self .., rfl⟩
          · exact .inl rfl
        · exact .inr ⟨top, List.mem_cons_of_mem _ inside, same⟩
      · rcases List.mem_cons.mp member with rfl | member
        · exact UInt64.le_trans step.2 above
        · exact all other member
  obtain ⟨origin, -, all⟩ := fold sent 0
  rcases origin with zero | ⟨top, inside, same⟩
  · -- Nothing is above zero, so every number is zero.
    have none : largestSent sent = 0 := zero
    have number : pkt.pktNum = 0 := UInt64.le_antisymm (zero ▸ all pkt tracked) UInt64.zero_le
    exact ⟨pkt, tracked, by rw [none, number], fun other member => by
      rw [number]; exact zero ▸ all other member⟩
  · exact ⟨top, inside, same, fun other member => same ▸ all other member⟩

end Nxp
