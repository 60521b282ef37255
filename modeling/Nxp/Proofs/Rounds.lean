import Nxp.Congestion.Pacing
import Nxp.Lib.Machine

/-! When the rounds that are counted are the rounds that are announced. -/

namespace Nxp

/-- Delivery counters with the snapshots of the packets in flight, and how many rounds there were
before the latest acknowledgment if nothing was sent since. -/
structure DrFlight where
  dr : DeliveryRate
  packets : List DrPktState
  before : Option UInt64

/-- Nothing sent yet. -/
def DrFlight.start : DrFlight := ⟨drInit, [], none⟩

/-- A packet is sent, or one in flight is acknowledged. -/
inductive DrOp where
  | sent (nowUs : UInt64)
  | acked (index : Nat) (ackedBytes : UInt32) (nowUs : UInt64)

/-- Send a packet, or acknowledge one with the snapshot that was taken for it. -/
def drStep (flight : DrFlight) : DrOp → Option DrFlight
  | .sent nowUs =>
    let (pkt, dr) := drOnPacketSent flight.dr nowUs
    some ⟨dr, flight.packets ++ [pkt], none⟩
  | .acked index ackedBytes nowUs => do
    let pkt ← flight.packets[index]?
    some ⟨drOnPacketAcked flight.dr pkt ackedBytes nowUs, flight.packets.eraseIdx index,
      some flight.dr.roundCount⟩

/-- A round is announced exactly when it is counted, and it ends at what is delivered by then. -/
def DrFlight.Coherent (flight : DrFlight) : Prop :=
  flight.dr.nextRoundDelivered ≤ flight.dr.delivered ∧
    ∀ count ∈ flight.before, flight.dr.roundStart = true ↔ flight.dr.roundCount = count + 1

/-- No rate can be computed from a packet, for want of time or of octets. -/
def drUnsampled (dr : DeliveryRate) (pkt : DrPktState) (ackedBytes : UInt32) (nowUs : UInt64) :
    Prop :=
  (elapsedSince dr.firstSentTime pkt.firstSentTime = 0 ∧ elapsedSince nowUs pkt.deliveredTime = 0) ∨
    dr.delivered + ackedBytes.toUInt64 = pkt.delivered

/-- A packet without a sample starts a round only if nothing was delivered since it was sent, and
else its snapshot is still behind once its own octets are taken off; the counter does not wrap. -/
def RoundsAgree (flight : DrFlight) : DrOp → Prop
  | .sent _ => True
  | .acked index ackedBytes nowUs => ∀ pkt ∈ flight.packets[index]?,
    if flight.dr.nextRoundDelivered ≤ pkt.delivered then
      drUnsampled flight.dr pkt ackedBytes nowUs → flight.dr.delivered ≤ pkt.delivered
    else
      flight.dr.nextRoundDelivered ≤ flight.dr.delivered + ackedBytes.toUInt64 ∧
        (drUnsampled flight.dr pkt ackedBytes nowUs →
          pkt.delivered < flight.dr.nextRoundDelivered - ackedBytes.toUInt64)

variable {dr : DeliveryRate} {pkt : DrPktState} {ackedBytes : UInt32} {nowUs : UInt64}

theorem later_eq_zero (a b : UInt64) : (if a > b then a else b) = 0 ↔ a = 0 ∧ b = 0 := by
  split
  · rename_i order
    constructor
    · rintro rfl
      exact absurd order (by simp)
    · exact And.left
  · rename_i order
    constructor
    · rintro rfl
      exact ⟨by simpa using order, rfl⟩
    · exact And.right

/-- What an acknowledgment does to the counters of rounds. -/
theorem drOnPacketAcked_rounds (dr : DeliveryRate) (pkt : DrPktState) (ackedBytes : UInt32)
    (nowUs : UInt64) [Decidable (drUnsampled dr pkt ackedBytes nowUs)] :
    let counted := drDeliver dr pkt ackedBytes nowUs
    let after := drOnPacketAcked dr pkt ackedBytes nowUs
    after.delivered = counted.delivered ∧ after.nextRoundDelivered = counted.nextRoundDelivered ∧
      after.roundCount = counted.roundCount ∧
      after.roundStart = if drUnsampled dr pkt ackedBytes nowUs then
          decide (counted.nextRoundDelivered - ackedBytes.toUInt64 ≤ pkt.delivered)
        else counted.roundStart := by
  have sum : (drDeliver dr pkt ackedBytes nowUs).delivered = dr.delivered + ackedBytes.toUInt64 := by
    unfold drDeliver
    simp only
    split <;> rfl
  have first : (drDeliver dr pkt ackedBytes nowUs).firstSentTime = dr.firstSentTime := by
    unfold drDeliver
    simp only
    split <;> rfl
  have unsampled : drUnsampled dr pkt ackedBytes nowUs ↔
      (if elapsedSince dr.firstSentTime pkt.firstSentTime > elapsedSince nowUs pkt.deliveredTime then
        elapsedSince dr.firstSentTime pkt.firstSentTime
      else elapsedSince nowUs pkt.deliveredTime) = 0 ∨
      dr.delivered + ackedBytes.toUInt64 - pkt.delivered = 0 := by
    rw [later_eq_zero, drUnsampled, UInt64.sub_eq_iff_eq_add, UInt64.zero_add]
  unfold drOnPacketAcked
  simp only [sum, first, Bool.or_eq_true, beq_iff_eq, ← unsampled]
  split <;> exact ⟨rfl, rfl, rfl, rfl⟩

theorem add_one_ne (count : UInt64) : count ≠ count + 1 := by
  intro same
  have := congrArg UInt64.toNat same
  rw [UInt64.toNat_add] at this
  have := count.toNat_lt
  simp only [UInt64.toNat_one] at *
  omega

/-- One acknowledgment keeps the rounds coherent exactly when it agrees with them. -/
theorem drOnPacketAcked_coherent_iff :
    let after := drOnPacketAcked dr pkt ackedBytes nowUs
    (after.nextRoundDelivered ≤ after.delivered ∧
      (after.roundStart = true ↔ after.roundCount = dr.roundCount + 1)) ↔
    if dr.nextRoundDelivered ≤ pkt.delivered then
      drUnsampled dr pkt ackedBytes nowUs → dr.delivered ≤ pkt.delivered
    else
      dr.nextRoundDelivered ≤ dr.delivered + ackedBytes.toUInt64 ∧
        (drUnsampled dr pkt ackedBytes nowUs →
          pkt.delivered < dr.nextRoundDelivered - ackedBytes.toUInt64) := by
  classical
  obtain ⟨delivered, next, count, start⟩ := drOnPacketAcked_rounds dr pkt ackedBytes nowUs
  simp only [delivered, next, count, start]
  unfold drDeliver
  by_cases recent : dr.nextRoundDelivered ≤ pkt.delivered
  · -- The round ends at what is delivered now, which less the packet is what was delivered before.
    simp only [ge_iff_le, recent, if_true, UInt64.le_refl, true_and, iff_true, UInt64.add_sub_cancel]
    by_cases unsampled : drUnsampled dr pkt ackedBytes nowUs <;> simp [unsampled]
  · simp only [ge_iff_le, recent, if_false, add_one_ne, iff_false]
    by_cases unsampled : drUnsampled dr pkt ackedBytes nowUs <;> simp [unsampled]

/-- In every run of packets sent and acknowledged, rounds are coherent in all its states exactly
when each acknowledgment agrees with them. -/
theorem rounds_coherent_iff {ops : List DrOp} {flight : DrFlight}
    (reached : Machine.attempt drStep DrFlight.start ops = some flight) :
    (∀ past rest, ops = past ++ rest → ∀ middle,
      Machine.attempt drStep DrFlight.start past = some middle → middle.Coherent) ↔
    Machine.Throughout drStep RoundsAgree DrFlight.start ops := by
  -- An acknowledgment decides both parts at once; a packet that is sent touches neither.
  have acked {flight next : DrFlight} {op : DrOp} (good : flight.Coherent)
      (stepped : drStep flight op = some next) : next.Coherent ↔ RoundsAgree flight op := by
    cases op with
    | sent nowUs =>
      cases stepped
      refine iff_of_true ⟨?_, nofun⟩ trivial
      by_cases first : flight.dr.firstSentTime = 0 <;> simpa [first] using good.1
    | acked index ackedBytes nowUs =>
      obtain ⟨pkt, found, made⟩ := Option.bind_eq_some_iff.mp stepped
      cases made
      have agree := @drOnPacketAcked_coherent_iff flight.dr pkt ackedBytes nowUs
      simpa [DrFlight.Coherent, RoundsAgree, found] using agree
  exact Machine.everywhere_iff RoundsAgree DrFlight.Coherent DrFlight.Coherent (fun _ => id)
    (fun _ _ _ good agrees stepped => (acked good stepped).mpr agrees)
    (fun _ _ _ good harm stepped sound => harm ((acked good stepped).mp sound))
    ⟨UInt64.le_refl 0, nofun⟩ reached

/-- One packet that takes a millisecond starts one round. -/
theorem rounds_coherent_one : ∃ flight,
    Machine.attempt drStep DrFlight.start [.sent 5, .acked 0 1200 1005] = some flight ∧
      flight.Coherent := by
  obtain ⟨flight, reached⟩ : ∃ flight, Machine.attempt drStep DrFlight.start
      [.sent 5, .acked 0 1200 1005] = some flight := ⟨_, rfl⟩
  refine ⟨flight, reached, (rounds_coherent_iff reached).mpr ?_ _ [] (by simp) flight reached⟩
  refine ⟨trivial, fun sent stepped => ?_⟩
  cases stepped
  refine ⟨?_, fun _ _ => trivial⟩
  rintro pkt ⟨⟩
  exact fun _ => UInt64.le_refl 0

/-- Two packets sent and acknowledged at one instant: the second acknowledgment announces a round
that is not counted. -/
theorem rounds_incoherent : ∃ before after,
    Machine.attempt drStep DrFlight.start [.sent 5, .sent 5, .acked 0 1200 5] = some before ∧
      drStep before (.acked 0 1200 5) = some after ∧ after.dr.roundStart = true ∧
      after.dr.roundCount = before.dr.roundCount :=
  ⟨_, _, rfl, rfl, by decide, rfl⟩

end Nxp
