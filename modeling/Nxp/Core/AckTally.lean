import Mathlib.Data.List.Count
import Nxp.Core.AckRuns

/-! The tracker of sent packets accounts for every packet and every byte. -/

namespace Nxp

/-- Bytes of the packets in a list that count as in flight. -/
def flightBytes (sent : List SentPkt) : Nat :=
  ((sent.filter (·.inFlight)).map fun pkt => pkt.sentBytes.toNat).sum

/-- How many packets of a list have a number. -/
def countPkt (number : UInt64) (pkts : List SentPkt) : Nat := pkts.countP (·.pktNum == number)

/-- How many losses were reported for a number. -/
def countLoss (number : UInt64) (lost : List LossReport) : Nat :=
  lost.countP (·.pkt.pktNum == number)

/-- The tracker accounts for every packet it recorded: its bytes while it is in flight, and itself
as still tracked, acknowledged or lost. -/
structure Tallied (recorded : List SentPkt) (ack : AckState) (log : AckLog) : Prop where
  exact : ack.bytesInFlight.toNat = flightBytes ack.sent
  fresh : ∀ pkt ∈ ack.sent, pkt.declaredLost = false
  each : ∀ number, countPkt number ack.sent + countPkt number log.acked +
    countLoss number log.lost = countPkt number recorded
  room : ack.sent.length ≤ ack.sentCap.toNat
  doubled : ∃ k < 32, ack.sentCap.toNat = 2 ^ k

section Flight

variable {nowUs largestAcked delay : UInt64} {frames : List FrameAck} {others : Nat}

theorem flightBytes_cons (pkt : SentPkt) (sent : List SentPkt) :
    flightBytes (pkt :: sent) =
      (if pkt.inFlight then pkt.sentBytes.toNat else 0) + flightBytes sent := by
  unfold flightBytes
  cases flying : pkt.inFlight <;> simp [flying]

/-- A packet leaves flight with exactly its own bytes. -/
theorem removeInFlight_exact {ack : AckState} {pkt : SentPkt} {rest : List SentPkt}
    (exact : ack.bytesInFlight.toNat = others + flightBytes (pkt :: rest)) :
    (removeInFlight ack pkt).bytesInFlight.toNat = others + flightBytes rest := by
  rw [flightBytes_cons] at exact
  have same : pkt.sentBytes.toUInt64.toNat = pkt.sentBytes.toNat := UInt32.toNat_toUInt64 _
  unfold removeInFlight
  cases flying : pkt.inFlight with
  | false =>
    rw [flying] at exact
    simpa using exact
  | true =>
    rw [flying, if_pos rfl] at exact
    -- The guard of the subtraction always holds.
    have enough : ack.bytesInFlight ≥ pkt.sentBytes.toUInt64 := by
      rw [ge_iff_le, UInt64.le_iff_toNat_le, same]
      omega
    rw [if_pos ⟨rfl, enough⟩]
    show (ack.bytesInFlight - pkt.sentBytes.toUInt64).toNat = _
    rw [UInt64.toNat_sub_of_le _ _ enough, same]
    omega

/-- An acknowledgement pass keeps the bytes in flight exact. -/
theorem ackLoop_exact (frame : FrameAck) {sent : List SentPkt} {ack : AckState} (log : AckLog)
    (sample : Option UInt64) (exact : ack.bytesInFlight.toNat = others + flightBytes sent) :
    (ackLoop reportAck frame nowUs sent ack log sample).2.1.bytesInFlight.toNat =
      others + flightBytes (ackLoop reportAck frame nowUs sent ack log sample).1 := by
  -- The packets kept so far are among the others.
  induction sent generalizing ack log sample others with
  | nil => exact exact
  | cons pkt rest ih =>
    unfold ackLoop
    split
    · exact ih _ _ (removeInFlight_exact exact)
    · rw [flightBytes_cons, ← Nat.add_assoc] at exact
      have next := ih log sample exact
      simp only
      rw [flightBytes_cons, ← Nat.add_assoc]
      exact next

/-- A loss pass keeps the bytes in flight exact. -/
theorem detectLoop_exact {sent : List SentPkt} (fresh : ∀ pkt ∈ sent, pkt.declaredLost = false)
    {ack : AckState} (log : AckLog) (exact : ack.bytesInFlight.toNat = others + flightBytes sent) :
    (detectLoop (reportLoss nowUs frames) nowUs largestAcked delay sent ack
        log).2.1.bytesInFlight.toNat = others + flightBytes
      (detectLoop (reportLoss nowUs frames) nowUs largestAcked delay sent ack log).1 := by
  induction sent generalizing ack log others with
  | nil => exact exact
  | cons pkt rest ih =>
    have tail := fun other member => fresh other (List.mem_cons_of_mem pkt member)
    unfold detectLoop
    rw [if_neg (by simp [fresh pkt (List.mem_cons_self ..)])]
    split
    · rw [flightBytes_cons, ← Nat.add_assoc] at exact
      have next := ih tail log exact
      simp only
      rw [flightBytes_cons, ← Nat.add_assoc]
      exact next
    · split
      · exact ih tail _ (removeInFlight_exact exact)
      · rw [flightBytes_cons, ← Nat.add_assoc] at exact
        simp only
        rw [flightBytes_cons, ← Nat.add_assoc]
        exact ih tail log exact

/-- So does loss detection as a whole. -/
theorem detectLostPackets_exact {ack : AckState} (log : AckLog)
    (fresh : ∀ pkt ∈ ack.sent, pkt.declaredLost = false)
    (exact : ack.bytesInFlight.toNat = flightBytes ack.sent) :
    (detectLostPackets (reportLoss nowUs frames) ack nowUs largestAcked log).1.bytesInFlight.toNat =
      flightBytes (detectLostPackets (reportLoss nowUs frames) ack nowUs largestAcked log).1.sent := by
  have start : ({ ack with lossTime := timeNever } : AckState).bytesInFlight.toNat =
      0 + flightBytes ack.sent := by rw [Nat.zero_add]; exact exact
  exact (detectLoop_exact fresh log start).trans (Nat.zero_add _)

end Flight

theorem countPkt_filter (number : UInt64) (keeps : SentPkt → Bool) (sent : List SentPkt) :
    countPkt number (sent.filter keeps) + countPkt number (sent.filter fun pkt => !keeps pkt) =
      countPkt number sent :=
  (List.countP_eq_countP_filter_add sent _ keeps).symm

section Steps

variable {recorded : List SentPkt} {ack : AckState} {log : AckLog}

/-- Looking for losses keeps everything accounted for. -/
theorem Tallied.detect (accounted : Tallied recorded ack log) (nowUs largestAcked : UInt64)
    (frames : List FrameAck) :
    Tallied recorded (detectLostPackets (reportLoss nowUs frames) ack nowUs largestAcked log).1
      (detectLostPackets (reportLoss nowUs frames) ack nowUs largestAcked log).2 := by
  obtain ⟨exact, fresh, each, room, doubled⟩ := accounted
  obtain ⟨kept, logged⟩ := detectLostPackets_log nowUs largestAcked frames ack log
  have cap : (detectLostPackets (reportLoss nowUs frames) ack nowUs largestAcked log).1.sentCap =
      ack.sentCap := by
    obtain ⟨_, _, _, only⟩ :=
      detectLostPackets_only (reportLoss nowUs frames) nowUs largestAcked ack log
    rw [only]
  refine ⟨?_, ?_, ?_, ?_, ?_⟩
  · exact detectLostPackets_exact log fresh exact
  · rw [kept]
    exact fun pkt member => fresh pkt (List.mem_filter.mp member).1
  · intro number
    -- A packet that is not reported is kept, none being declared lost already.
    have split := countPkt_filter number (losesPkt nowUs largestAcked (lossDelay ack)) ack.sent
    have same : ack.sent.filter (keepsPkt nowUs largestAcked (lossDelay ack)) =
        ack.sent.filter fun pkt => !losesPkt nowUs largestAcked (lossDelay ack) pkt :=
      List.filter_congr fun pkt member => by simp [keepsPkt, fresh pkt member]
    have reported : countLoss number ((ack.sent.filter
        (losesPkt nowUs largestAcked (lossDelay ack))).map (lossOf nowUs frames ack)) =
        countPkt number (ack.sent.filter (losesPkt nowUs largestAcked (lossDelay ack))) :=
      List.countP_map
    have whole := each number
    rw [kept, logged, same]
    show _ + countPkt number log.acked + countLoss number (log.lost ++ _) = _
    rw [countLoss, List.countP_append, ← countLoss, ← countLoss, reported]
    omega
  · rw [kept, cap]
    exact Nat.le_trans (List.length_filter_le _ _) room
  · rw [cap]
    exact doubled

/-- Taking out acknowledged packets keeps everything accounted for. -/
theorem Tallied.acks (accounted : Tallied recorded ack log) (frame : FrameAck) (nowUs : UInt64) :
    Tallied recorded (afterAcks ack frame nowUs)
      { log with acked := log.acked ++ ack.sent.filter fun pkt => ackCovers frame pkt.pktNum } := by
  obtain ⟨exact, fresh, each, room, doubled⟩ := accounted
  obtain ⟨kept, sentCap, flight⟩ := afterAcks_fields ack frame nowUs
  have walked : (ackLoop reportAck frame nowUs ack.sent ack ⟨[], []⟩ none).2.1.bytesInFlight.toNat =
      flightBytes (ackLoop reportAck frame nowUs ack.sent ack ⟨[], []⟩ none).1 :=
    (ackLoop_exact frame ⟨[], []⟩ none (by rw [Nat.zero_add]; exact exact)).trans (Nat.zero_add _)
  have cap : (afterAcks ack frame nowUs).sentCap = ack.sentCap := by
    obtain ⟨_, only⟩ := ackLoop_only reportAck frame nowUs ack.sent ack ⟨[], []⟩ none
    rw [sentCap, only]
  refine ⟨?_, ?_, ?_, ?_, ?_⟩
  · rw [flight, walked, kept, (ackLoop_log frame nowUs ack.sent ack ⟨[], []⟩ none).1]
  · rw [kept]
    exact fun pkt member => fresh pkt (List.mem_filter.mp member).1
  · intro number
    have split := countPkt_filter number (fun pkt => ackCovers frame pkt.pktNum) ack.sent
    have whole := each number
    rw [kept]
    show _ + countPkt number (log.acked ++ _) + countLoss number log.lost = _
    rw [countPkt, countPkt, List.countP_append, ← countPkt, ← countPkt, ← countPkt]
    omega
  · rw [kept, cap]
    exact Nat.le_trans (List.length_filter_le _ _) room
  · rw [cap]
    exact doubled

theorem flightBytes_le (sent : List SentPkt) :
    flightBytes sent ≤ sent.length * 4294967295 := by
  induction sent with
  | nil => exact Nat.le_refl _
  | cons pkt rest ih =>
    have bound := pkt.sentBytes.toNat_lt
    rw [flightBytes_cons, List.length_cons]
    split <;> omega

/-- Room for one more packet is room for it, and still a power of two. -/
theorem growSent_room (room : ack.sent.length ≤ ack.sentCap.toNat)
    (doubled : ∃ k < 32, ack.sentCap.toNat = 2 ^ k) {cap : UInt32}
    (grown : growSent ack true = some cap) :
    ack.sent.length + 1 ≤ cap.toNat ∧ ∃ k < 32, cap.toNat = 2 ^ k := by
  obtain ⟨k, small, power⟩ := doubled
  unfold growSent at grown
  split at grown
  · rename_i below
    cases grown
    exact ⟨below, k, small, power⟩
  · simp only [Bool.true_and] at grown
    split at grown
    · rename_i nonzero
      cases grown
      have twice : (ack.sentCap * 2).toNat = 2 ^ (k + 1) % 2 ^ 32 := by
        rw [UInt32.toNat_mul, power, Nat.pow_succ]
        rfl
      -- Doubling the largest power would give no room at all.
      have below : k + 1 < 32 := by
        by_contra full
        have last : k + 1 = 32 := by omega
        rw [last, Nat.mod_self] at twice
        have zero : ack.sentCap * 2 = 0 := UInt32.toNat_inj.mp twice
        simp [zero] at nonzero
      have exact : (ack.sentCap * 2).toNat = 2 ^ (k + 1) := by
        rw [twice, Nat.mod_eq_of_lt (Nat.pow_lt_pow_right (by decide) below)]
      refine ⟨?_, k + 1, below, exact⟩
      have positive := Nat.two_pow_pos k
      rw [exact, Nat.pow_succ]
      omega
    · cases grown

/-- A recorded packet is accounted for. -/
theorem Tallied.sent (accounted : Tallied recorded ack log) {pkt : SentPkt}
    (new : pkt.declaredLost = false) :
    Tallied (if (growSent ack true).isSome then recorded ++ [pkt] else recorded)
      (ackOnPktSent ack pkt true) log := by
  unfold ackOnPktSent
  cases grown : growSent ack true with
  | none => exact accounted
  | some cap =>
    obtain ⟨exact, fresh, each, room, doubled⟩ := accounted
    obtain ⟨fits, power⟩ := growSent_room room doubled grown
    refine ⟨?_, ?_, ?_, ?_, power⟩
    · have all : flightBytes (ack.sent ++ [pkt]) = flightBytes ack.sent + flightBytes [pkt] := by
        simp [flightBytes]
      have bytes := flightBytes_le ack.sent
      obtain ⟨k, small, size⟩ := doubled
      have largest : 2 ^ k ≤ 2 ^ 31 := Nat.pow_le_pow_right (by decide) (by omega)
      have bound := pkt.sentBytes.toNat_lt
      show (if pkt.inFlight then _ else _ : UInt64).toNat = flightBytes (ack.sent ++ [pkt])
      rw [all, flightBytes_cons]
      -- Even the largest packets in all the room there can be do not wrap the counter.
      cases pkt.inFlight with
      | false => simpa [flightBytes] using exact
      | true =>
        rw [if_pos rfl, if_pos rfl, UInt64.toNat_add, UInt32.toNat_toUInt64, exact]
        simp only [flightBytes, List.filter_nil, List.map_nil, List.sum_nil, Nat.add_zero] at bytes ⊢
        omega
    · intro other member
      rcases List.mem_append.mp member with earlier | latest
      · exact fresh other earlier
      · rw [List.mem_singleton.mp latest]
        exact new
    · intro number
      have whole := each number
      simp only [countPkt, Option.isSome_some, if_true, List.countP_append] at whole ⊢
      omega
    · simpa using fits

end Steps

/-- A packet is not handed to the tracker as lost already. -/
def SentFresh : AckOp → Prop
  | .sent pkt => pkt.declaredLost = false
  | _ => True

/-- One request keeps everything accounted for. -/
theorem trackStep_tallied {t : Tracker} (accounted : Tallied t.recorded t.ack t.log) {op : AckOp}
    (new : SentFresh op) :
    Tallied (trackStep t op).recorded (trackStep t op).ack (trackStep t op).log := by
  cases op with
  | received pktNum nowUs ackEliciting =>
    obtain ⟨_, _, _, _, _, same⟩ := ackOnPktRecv_fields t.ack pktNum nowUs ackEliciting
    simp only [trackStep, same]
    exact ⟨accounted.exact, accounted.fresh, accounted.each, accounted.room, accounted.doubled⟩
  | sent pkt => exact accounted.sent new
  | acknowledged frame nowUs =>
    simp only [trackStep]
    rw [ackOnAckRecv_log]
    exact (accounted.acks frame nowUs).detect nowUs frame.largestAcked _
  | timeout nowUs =>
    simp only [trackStep]
    unfold ackOnLossTimeout
    split
    · exact accounted.detect nowUs _ _
    · exact ⟨accounted.exact, accounted.fresh, accounted.each, accounted.room, accounted.doubled⟩

/-- A new tracker has nothing to account for. -/
theorem newTracker_tallied : Tallied newTracker.recorded newTracker.ack newTracker.log :=
  ⟨rfl, by simp [newTracker, ackInit], fun _ => rfl, Nat.zero_le _, 8, by decide, rfl⟩

end Nxp
