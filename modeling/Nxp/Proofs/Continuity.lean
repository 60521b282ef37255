import Nxp.Core.FrameEffects
import Nxp.Core.PacketLaws
import Nxp.Proofs.Handover

/-! When a connection that was handed over goes on where the original stopped. -/

namespace Nxp

variable {largest : UInt64} {conn taken : Conn}

/-- A largest number so small that the low octets of a number are the number, or one of the two last
words, which are so in the arithmetic of words. -/
def NearStart (largest : UInt64) : Prop := largest + 1 < 128 ∨ largest + 2 = 0

/-- Whether a largest number is near the start is a matter of arithmetic. -/
instance (largest : UInt64) : Decidable (NearStart largest) := inferInstanceAs (Decidable (_ ∨ _))

/-- Near the start every cut number is taken as it stands. -/
theorem pktDecodePktNum_near {truncated : UInt64} {pnLen : Nat} (positive : 1 ≤ pnLen)
    (short : pnLen ≤ 4) (octets : truncated.toNat < 256 ^ pnLen) (near : NearStart largest) :
    pktDecodePktNum largest truncated pnLen = truncated := by
  obtain ⟨half, double, small, -, -⟩ := pktNumWindow positive short
  have halved : 256 ^ pnLen / 2 = half := by omega
  have least : 128 ≤ half := by
    have window : (256 : Nat) ^ 1 ≤ 256 ^ pnLen := Nat.pow_le_pow_right (by decide) positive
    omega
  apply UInt64.toNat_inj.mp
  rw [pktDecodePktNum_wrapped positive short octets rfl rfl, halved]
  rcases near with first | last
  · -- The number expected next is below half of every window.
    have below : (largest + 1).toNat < 128 := UInt64.lt_iff_toNat_lt.mp first
    have block : (largest + 1).toNat / 256 ^ pnLen = 0 := Nat.div_eq_of_lt (by omega)
    rw [block, Nat.zero_mul, Nat.zero_add, if_neg (by omega), if_neg (by omega)]
  · -- The number expected next is the last word, so that every sum wraps.
    have top : (largest + 1).toNat = 2 ^ 64 - 1 := by
      have sum := congrArg UInt64.toNat last
      rw [UInt64.toNat_add] at sum ⊢
      have one : UInt64.toNat 1 = 1 := rfl
      have two : UInt64.toNat 2 = 2 := rfl
      have zero : UInt64.toNat 0 = 0 := rfl
      have bound := largest.toNat_lt
      omega
    have block : (2 ^ 64 - 1) / 256 ^ pnLen * 256 ^ pnLen = 2 ^ 64 - 256 ^ pnLen := by
      have sizes : pnLen = 1 ∨ pnLen = 2 ∨ pnLen = 3 ∨ pnLen = 4 := by omega
      rcases sizes with rfl | rfl | rfl | rfl <;> decide
    rw [top, block, if_pos (by omega)]
    omega

/-- Away from the start some number of one octet is taken for another. -/
theorem pktDecodePktNum_far (far : ¬ NearStart largest) :
    ∃ truncated : UInt64, truncated.toNat < 256 ^ 1 ∧
      pktDecodePktNum largest truncated 1 ≠ truncated := by
  have bound := (largest + 1).toNat_lt
  have least : 128 ≤ (largest + 1).toNat := by
    have above := UInt64.not_lt.mp fun small => far (.inl small)
    exact UInt64.le_iff_toNat_le.mp above
  have most : (largest + 1).toNat ≠ 2 ^ 64 - 1 := by
    intro top
    refine far (.inr (UInt64.toNat_inj.mp ?_))
    rw [UInt64.toNat_add] at top ⊢
    have one : UInt64.toNat 1 = 1 := rfl
    have two : UInt64.toNat 2 = 2 := rfl
    have zero : UInt64.toNat 0 = 0 := rfl
    have bound := largest.toNat_lt
    omega
  -- What the code makes of an octet is compared with the octet, as numbers.
  have differs (n : Nat) (octet : n < 256)
      (other : (pktDecodePktNum largest (UInt64.ofNat n) 1).toNat ≠ n) :
      ∃ truncated : UInt64, truncated.toNat < 256 ^ 1 ∧
        pktDecodePktNum largest truncated 1 ≠ truncated := by
    have size : (UInt64.ofNat n).toNat = n := by
      rw [UInt64.toNat_ofNat']
      omega
    refine ⟨UInt64.ofNat n, by omega, fun same => other ?_⟩
    rw [same, size]
  have decoded (n : Nat) (octet : n < 256) :=
    @pktDecodePktNum_wrapped largest (UInt64.ofNat n) 1 _ _ (by decide) (by decide)
      (by rw [UInt64.toNat_ofNat']; omega) rfl rfl
  have size (n : Nat) (octet : n < 256) : (UInt64.ofNat n).toNat = n := by
    rw [UInt64.toNat_ofNat']
    omega
  generalize (largest + 1).toNat = expected at *
  by_cases low : expected < 256
  · -- Zero is taken for the first number of the next window.
    apply differs 0 (by decide)
    rw [decoded 0 (by decide), size 0 (by decide)]
    rw [if_pos (by omega)]
    omega
  · by_cases high : expected < 2 ^ 64 - 128
    · -- The octet of the number expected is taken for that number.
      apply differs (expected % 256) (by omega)
      rw [decoded _ (by omega), size _ (by omega), if_neg (by omega), if_neg (by omega)]
      omega
    · -- Close to the last word the sums wrap, and a number far below is found.
      apply differs 127 (by decide)
      rw [decoded 127 (by decide), size 127 (by decide), if_neg (by omega), if_pos (by omega)]
      omega

/-- A connection goes on where another stopped: it reconstructs the same packet numbers, opens what
the other opens, knows what the other received, and waits as long before it probes. -/
structure Continues (conn taken : Conn) : Prop where
  numbers : ∀ truncated pnLen, 1 ≤ pnLen → pnLen ≤ 4 → truncated.toNat < 256 ^ pnLen →
    pktDecodePktNum taken.ack.largestRecvPn truncated pnLen =
      pktDecodePktNum conn.ack.largestRecvPn truncated pnLen
  opened : ∀ evp data pktNum payload, readShort evp conn data = some (pktNum, some payload) →
    readShort evp taken data = some (pktNum, some payload)
  duplicates : ∀ pktNum, conn.ack.knows pktNum = true → taken.ack.knows pktNum = true
  pto : computePto taken.ack = computePto conn.ack

/-- A delay estimate that is there exactly when it is positive, or that is worth what an estimate
before any sample is worth. -/
def RttCarried (ack : AckState) : Prop :=
  ack.hasRtt = decide (ack.smoothedRtt > 0) ∨
    ack.smoothedRtt + (if 4 * ack.rttVar > 1000 then 4 * ack.rttVar else 1000) =
      initialRttUs + 4 * (initialRttUs / 2)

/-- Whether an estimate is carried over is a matter of arithmetic. -/
instance (ack : AckState) : Decidable (RttCarried ack) := inferInstanceAs (Decidable (_ ∨ _))

/-- The probe timeout survives exactly when its estimates do. -/
theorem computePto_restored {ack restored : AckState} (rtt : restored.smoothedRtt = ack.smoothedRtt)
    (var : restored.rttVar = ack.rttVar) (has : restored.hasRtt = decide (ack.smoothedRtt > 0)) :
    computePto restored = computePto ack ↔ RttCarried ack := by
  have initial : (if 4 * (initialRttUs / 2) > 1000 then 4 * (initialRttUs / 2) else 1000) =
      4 * (initialRttUs / 2) := by decide
  unfold computePto RttCarried
  rw [rtt, var, has]
  -- Where the two flags differ, one side is the initial value.
  cases known : ack.hasRtt with
  | true =>
    by_cases positive : ack.smoothedRtt > 0
    · simp [positive]
    · simp only [positive, decide_false, Bool.false_eq_true, if_false, if_true, initial,
        UInt64.add_left_inj]
      simp only [Bool.true_eq_false, false_or]
      exact eq_comm
  | false =>
    by_cases positive : ack.smoothedRtt > 0
    · simp only [positive, decide_true, if_true, Bool.false_eq_true, if_false, initial,
        UInt64.add_left_inj, false_or]
    · simp [positive]

/-- Two connections with the same keys and identifier that reconstruct the same numbers open the
same packets. -/
theorem readShort_same (crypto : taken.crypto = conn.crypto) (scid : taken.scid = conn.scid)
    (numbers : ∀ truncated pnLen, 1 ≤ pnLen → pnLen ≤ 4 → truncated.toNat < 256 ^ pnLen →
      pktDecodePktNum taken.ack.largestRecvPn truncated pnLen =
        pktDecodePktNum conn.ack.largestRecvPn truncated pnLen) (evp : Evp)
    (data : Bytes) : readShort evp taken data = readShort evp conn data := by
  have unprotected : unprotectShort evp taken data = unprotectShort evp conn data := by
    unfold unprotectShort
    rw [crypto, scid]
  have openings (pkt : Bytes) (hdrLen : Nat) (fullPn : UInt64) :
      openShort evp taken pkt hdrLen fullPn = openShort evp conn pkt hdrLen fullPn := by
    unfold openShort openCall
    rw [crypto]
  unfold readShort
  rw [unprotected]
  cases unprotectShort evp conn data with
  | none => rfl
  | some pkt =>
    have headers : pktDecodeShortHeader pkt taken.scid.len taken.scid.bounded =
        pktDecodeShortHeader pkt conn.scid.len conn.scid.bounded := by
      simp only [scid]
    simp only [Option.bind_eq_bind, Option.bind_some, headers, openings]
    cases decoded : pktDecodeShortHeader pkt conn.scid.len conn.scid.bounded with
    | none => rfl
    | some hdr =>
      obtain ⟨positive, short, octets⟩ := pktDecodeShortHeader_number decoded
      simp only [Option.bind_some, numbers _ _ positive short octets]

/-- What is imported is the exported fields, restored. -/
theorem imported_eq {bufCap : Nat} {bytes : Bytes} {allocCc : Bool}
    (exported : sessionExport conn bufCap = .ok bytes)
    (imported : sessionImport true allocCc bytes = .ok taken) :
    taken = conn.sessionFields.restore allocCc := by
  have whole : bytes = sessionHead conn ++ sessionBody conn := by
    by_cases room : sessionExportSize conn ≤ bufCap
    · exact Except.ok.inj (exported.symm.trans (sessionExport_ok conn room))
    · unfold sessionExport at exported
      simp only [show bufCap < sessionExportSize conn by omega, if_true] at exported
      cases exported
  have made := sessionImport_ok conn allocCc []
  rw [List.append_nil, ← whole] at made
  exact Except.ok.inj (imported.symm.trans made)

/-- A connection goes on where the original stopped exactly when the original had received nothing,
was near the start of its numbers, and had an estimate that is carried over. -/
theorem handover_continues {conn taken : Conn} {bufCap : Nat} {bytes : Bytes} {allocCc : Bool}
    (exported : sessionExport conn bufCap = .ok bytes)
    (imported : sessionImport true allocCc bytes = .ok taken) :
    Continues conn taken ↔
      (∀ pktNum, conn.ack.knows pktNum = false) ∧ NearStart conn.ack.largestRecvPn ∧
        RttCarried conn.ack := by
  have restored := imported_eq exported imported
  have same : taken.crypto = conn.crypto ∧ taken.scid = conn.scid := by
    rw [restored]
    exact ⟨restore_crypto conn allocCc, rfl⟩
  have largest : taken.ack.largestRecvPn = 0 := by rw [restored]; rfl
  have nothing (pktNum : UInt64) : taken.ack.knows pktNum = false := by rw [restored]; rfl
  have estimate : computePto taken.ack = computePto conn.ack ↔ RttCarried conn.ack := by
    rw [restored]
    exact computePto_restored rfl rfl rfl
  have start : NearStart 0 := by decide
  constructor
  · intro continues
    refine ⟨fun pktNum => ?_, ?_, estimate.mp continues.pto⟩
    · by_contra known
      have still := continues.duplicates pktNum (by simpa using known)
      rw [nothing] at still
      exact Bool.false_ne_true still
    · by_contra far
      obtain ⟨truncated, octet, other⟩ := pktDecodePktNum_far far
      have agreed := continues.numbers truncated 1 (by decide) (by decide) octet
      rw [largest, pktDecodePktNum_near (by decide) (by decide) octet start] at agreed
      exact other agreed.symm
  · rintro ⟨unknown, near, carried⟩
    have numbers : ∀ truncated pnLen, 1 ≤ pnLen → pnLen ≤ 4 → truncated.toNat < 256 ^ pnLen →
        pktDecodePktNum taken.ack.largestRecvPn truncated pnLen =
          pktDecodePktNum conn.ack.largestRecvPn truncated pnLen := by
      intro truncated pnLen positive short octets
      rw [largest, pktDecodePktNum_near positive short octets start,
        pktDecodePktNum_near positive short octets near]
    exact
      { numbers := numbers
        opened := fun evp data pktNum payload read =>
          (readShort_same same.1 same.2 numbers evp data).trans read
        duplicates := fun pktNum known => absurd ((unknown pktNum).symm.trans known)
          Bool.false_ne_true
        pto := estimate.mpr carried }

/-- A connection that was established by hand. -/
def handEstablished : Conn := connSetEstablished (connCreate plainConfig false true) ConnId.empty

/-- A connection that has received nothing is handed over and goes on. -/
theorem handover_continues_fresh :
    Continues handEstablished (handEstablished.sessionFields.restore true) :=
  (handover_continues (sessionExport_ok handEstablished (Nat.le_refl _))
    (by simpa using sessionImport_ok handEstablished true [])).mpr
    ⟨fun _ => rfl, by decide, by decide⟩

/-- The connection after a packet with the number two hundred. -/
def handHeard : Conn :=
  (connRecv plainEvp plainEnv handEstablished [0x41, 0x00, 0xC8, 0x01] 1).2

/-- A connection that was handed over takes a packet for new that the original knows, and takes the
next numbers for others than the original does. -/
theorem handover_forgets :
    ∃ bytes taken, sessionExport handHeard 1024 = .ok bytes ∧
      sessionImport true true bytes = .ok taken ∧
      (handHeard.state = .established ∧ handHeard.ack.knows 200 = true ∧
        pktDecodePktNum handHeard.ack.largestRecvPn 10 1 = 266) ∧
      taken.ack.knows 200 = false ∧ pktDecodePktNum taken.ack.largestRecvPn 10 1 = 10 :=
  ⟨_, _, sessionExport_ok handHeard (by decide +kernel),
    by simpa using sessionImport_ok handHeard true [], by decide +kernel, rfl, by decide +kernel⟩

end Nxp
