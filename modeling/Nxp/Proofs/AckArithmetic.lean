import Nxp.Core.AckRuns
import Nxp.Core.FrameCodec

/-! Whether an acknowledgement is taken as its ranges over the natural numbers. -/

namespace Nxp

/-- The further ranges of an acknowledgement over the natural numbers, down to the first that would
go below zero. -/
def exactFurther : (curEnd : Nat) → List AckRange → List (Nat × Nat)
  | _, [] => []
  | curEnd, range :: rest =>
    if range.gap.toNat + 2 + range.ackRange.toNat ≤ curEnd then
      let last := curEnd - range.gap.toNat - 2
      (last - range.ackRange.toNat, last) :: exactFurther (last - range.ackRange.toNat) rest
    else []

/-- The ranges of an acknowledgement over the natural numbers, each with its first and last. -/
def FrameAck.exactRanges (frame : FrameAck) : List (Nat × Nat) :=
  if frame.firstAckRange ≤ frame.largestAcked then
    let start := frame.largestAcked.toNat - frame.firstAckRange.toNat
    (start, frame.largestAcked.toNat) :: exactFurther start frame.ranges
  else []

/-- A number lies in one of some ranges. -/
def InRanges (ranges : List (Nat × Nat)) (n : Nat) : Prop :=
  ∃ range ∈ ranges, range.1 ≤ n ∧ n ≤ range.2

instance decidableInRanges (ranges : List (Nat × Nat)) (n : Nat) : Decidable (InRanges ranges n) :=
  inferInstanceAs (Decidable (∃ range ∈ ranges, range.1 ≤ n ∧ n ≤ range.2))

/-- No further range starts at or above zero and goes below it. -/
def Descends : (curEnd : Nat) → List AckRange → Prop
  | _, [] => True
  | curEnd, range :: rest =>
    curEnd < range.gap.toNat + 2 ∨
      (range.gap.toNat + 2 + range.ackRange.toNat ≤ curEnd ∧
        Descends (curEnd - range.gap.toNat - 2 - range.ackRange.toNat) rest)

/-- The ranges of an acknowledgement stay above zero or stop between two of them. -/
def FrameAck.Descending (frame : FrameAck) : Prop :=
  if frame.firstAckRange ≤ frame.largestAcked then
    Descends (frame.largestAcked.toNat - frame.firstAckRange.toNat) frame.ranges
  else frame.ranges = []

theorem inRanges_cons {range : Nat × Nat} {ranges : List (Nat × Nat)} {n : Nat} :
    InRanges (range :: ranges) n ↔ (range.1 ≤ n ∧ n ≤ range.2) ∨ InRanges ranges n := by
  simp only [InRanges, List.mem_cons, or_and_right, exists_or, exists_eq_left]

/-- No number lies in no range. -/
@[simp] theorem not_inRanges_nil (n : Nat) : ¬ InRanges [] n := by simp [InRanges]

theorem gap_toNat {gap : UInt64} (small : gap ≤ varintMax) :
    (gap + 2).toNat = gap.toNat + 2 := by
  have limit : varintMax.toNat = 2 ^ 62 - 1 := rfl
  rw [UInt64.le_iff_toNat_le] at small
  rw [UInt64.toNat_add, show (2 : UInt64).toNat = 2 from rfl]
  omega

theorem rangeLast_toNat {curEnd gap : UInt64} (small : gap ≤ varintMax)
    (fits : ¬ curEnd < gap + 2) : (curEnd - gap - 2).toNat = curEnd.toNat - gap.toNat - 2 := by
  rw [UInt64.lt_iff_toNat_lt, gap_toNat small] at fits
  have first : (curEnd - gap).toNat = curEnd.toNat - gap.toNat :=
    UInt64.toNat_sub_of_le _ _ (UInt64.le_iff_toNat_le.mpr (by omega))
  rw [UInt64.toNat_sub_of_le _ _ (UInt64.le_iff_toNat_le.mpr ?_), first]
  · rfl
  · rw [first, show (2 : UInt64).toNat = 2 from rfl]
    omega

variable {ranges : List AckRange}

/-- Ranges that stay above zero are walked as they are over the natural numbers. -/
theorem rangesCover_exact
    (small : ∀ range ∈ ranges, range.gap ≤ varintMax ∧ range.ackRange ≤ varintMax)
    {curEnd : UInt64} (descends : Descends curEnd.toNat ranges) (pktNum : UInt64) :
    rangesCover pktNum curEnd ranges = true ↔
      InRanges (exactFurther curEnd.toNat ranges) pktNum.toNat := by
  induction ranges generalizing curEnd with
  | nil => simp [rangesCover, exactFurther]
  | cons range rest ih =>
    have mine := (small range (List.mem_cons_self ..)).1
    unfold rangesCover exactFurther
    rcases descends with stops | ⟨fits, further⟩
    · have less : curEnd < range.gap + 2 := by
        rw [UInt64.lt_iff_toNat_lt, gap_toNat mine]
        exact stops
      rw [if_pos less, if_neg (by omega)]
      simp
    · have goes : ¬ curEnd < range.gap + 2 := by
        rw [UInt64.lt_iff_toNat_lt, gap_toNat mine]
        omega
      have last := rangeLast_toNat mine goes
      have within : range.ackRange ≤ curEnd - range.gap - 2 := by
        rw [UInt64.le_iff_toNat_le, last]
        omega
      have start := UInt64.toNat_sub_of_le _ _ within
      rw [last] at start
      have below := @ih (fun other member => small other (List.mem_cons_of_mem _ member))
        (curEnd - range.gap - 2 - range.ackRange) (by rw [start]; exact further)
      rw [if_neg goes, if_pos fits]
      simp only [ge_iff_le, within, if_true]
      rw [Bool.or_eq_true, below, inRanges_cons, start, Bool.and_eq_true, decide_eq_true_eq,
        decide_eq_true_eq, UInt64.le_iff_toNat_le, UInt64.le_iff_toNat_le, start, last]

/-- A range that would go below zero is cut off at zero, which covers a number too many. -/
theorem rangesCover_excess
    (small : ∀ range ∈ ranges, range.gap ≤ varintMax ∧ range.ackRange ≤ varintMax)
    {curEnd : UInt64} (leaves : ¬ Descends curEnd.toNat ranges) :
    ∃ pktNum, pktNum < curEnd ∧ rangesCover pktNum curEnd ranges = true ∧
      ¬ InRanges (exactFurther curEnd.toNat ranges) pktNum.toNat := by
  induction ranges generalizing curEnd with
  | nil => exact absurd trivial leaves
  | cons range rest ih =>
    have mine := (small range (List.mem_cons_self ..)).1
    rw [Descends, not_or, not_and] at leaves
    obtain ⟨reaches, deeper⟩ := leaves
    have goes : ¬ curEnd < range.gap + 2 := by
      rw [UInt64.lt_iff_toNat_lt, gap_toNat mine]
      exact reaches
    have last := rangeLast_toNat mine goes
    unfold rangesCover exactFurther
    simp only [if_neg goes]
    by_cases fits : range.gap.toNat + 2 + range.ackRange.toNat ≤ curEnd.toNat
    · have within : range.ackRange ≤ curEnd - range.gap - 2 := by
        rw [UInt64.le_iff_toNat_le, last]
        omega
      have start := UInt64.toNat_sub_of_le _ _ within
      rw [last] at start
      obtain ⟨pktNum, below, covered, missing⟩ :=
        @ih (fun other member => small other (List.mem_cons_of_mem _ member))
          (curEnd - range.gap - 2 - range.ackRange) (by rw [start]; exact deeper fits)
      rw [UInt64.lt_iff_toNat_lt, start] at below
      rw [start] at missing
      refine ⟨pktNum, ?_, ?_, ?_⟩
      · rw [UInt64.lt_iff_toNat_lt]
        omega
      · simp only [ge_iff_le, within, if_true, covered, Bool.or_true]
      · rw [if_pos fits, inRanges_cons]
        simp only
        rintro (inside | inside)
        · omega
        · exact missing inside
    · -- The cut off range goes down to zero, and over the natural numbers there is none.
      have without : ¬ range.ackRange ≤ curEnd - range.gap - 2 := by
        rw [UInt64.le_iff_toNat_le, last]
        omega
      refine ⟨0, ?_, ?_, ?_⟩
      · rw [UInt64.lt_iff_toNat_lt, UInt64.toNat_zero]
        omega
      · simp [without]
      · rw [if_neg fits]
        exact not_inRanges_nil _

theorem firstRange_wraps {frame : FrameAck} (encodable : (Frame.ack frame).Encodable)
    (deep : ¬ frame.firstAckRange ≤ frame.largestAcked) :
    2 ^ 63 < (frame.largestAcked - frame.firstAckRange).toNat ∧
      frame.largestAcked.toNat < 2 ^ 62 := by
  have largest := encodable frame.largestAcked (by simp [FrameAck.fields])
  have first := encodable frame.firstAckRange (by simp [FrameAck.fields])
  have limit : varintMax.toNat = 2 ^ 62 - 1 := rfl
  rw [UInt64.le_iff_toNat_le] at deep largest first
  rw [UInt64.toNat_sub]
  omega

theorem FrameAck.ranges_small {frame : FrameAck} (encodable : (Frame.ack frame).Encodable) :
    ∀ range ∈ frame.ranges, range.gap ≤ varintMax ∧ range.ackRange ≤ varintMax := by
  intro range member
  have inFields : ∀ val ∈ [range.gap, range.ackRange], val ∈ frame.fields := by
    intro val either
    unfold FrameAck.fields
    exact List.mem_append_left _ (List.mem_append_right _
      (List.mem_flatMap.mpr ⟨range, member, either⟩))
  exact ⟨encodable _ (inFields _ (by simp)), encodable _ (inFields _ (by simp))⟩

/-- Numbers are covered as over the natural numbers exactly when the ranges stay above zero. -/
theorem ackCovers_exact_iff {frame : FrameAck} (encodable : (Frame.ack frame).Encodable) :
    (∀ pktNum, ackCovers frame pktNum = true ↔ InRanges frame.exactRanges pktNum.toNat) ↔
      frame.Descending := by
  have small := FrameAck.ranges_small encodable
  unfold FrameAck.exactRanges FrameAck.Descending ackCovers
  by_cases shallow : frame.firstAckRange ≤ frame.largestAcked
  · have start := UInt64.toNat_sub_of_le _ _ shallow
    simp only [shallow, if_true, inRanges_cons, Bool.or_eq_true, Bool.and_eq_true,
      decide_eq_true_eq, ge_iff_le, UInt64.le_iff_toNat_le, ← start]
    constructor
    · intro same
      by_contra leaves
      obtain ⟨pktNum, below, covered, missing⟩ := rangesCover_excess small leaves
      rw [UInt64.lt_iff_toNat_lt] at below
      rcases (same pktNum).mp (.inr covered) with inside | inside
      · omega
      · exact missing inside
    · intro descends pktNum
      rw [rangesCover_exact small descends]
  · obtain ⟨high, low⟩ := firstRange_wraps encodable shallow
    simp only [shallow, if_false, not_inRanges_nil, iff_false, Bool.not_eq_true]
    constructor
    · intro nothing
      cases listed : frame.ranges with
      | nil => rfl
      | cons range rest =>
        -- From so far up the first further range covers its own end.
        have mine := (small range (by rw [listed]; exact List.mem_cons_self ..)).1
        have goes : ¬ frame.largestAcked - frame.firstAckRange < range.gap + 2 := by
          have limit : varintMax.toNat = 2 ^ 62 - 1 := rfl
          rw [UInt64.lt_iff_toNat_lt, gap_toNat mine]
          rw [UInt64.le_iff_toNat_le] at mine
          omega
        have covered := nothing (frame.largestAcked - frame.firstAckRange - range.gap - 2)
        rw [listed, Bool.or_eq_false_iff, rangesCover, if_neg goes] at covered
        simp only [ge_iff_le, UInt64.le_refl, decide_true, Bool.and_true, Bool.or_eq_false_iff,
          decide_eq_false_iff_not] at covered
        refine absurd ?_ covered.2.1
        split
        · rename_i within
          rw [UInt64.le_iff_toNat_le, UInt64.toNat_sub_of_le _ _ within]
          omega
        · exact UInt64.zero_le
    · intro none pktNum
      rw [none]
      simp only [rangesCover, Bool.or_false, Bool.and_eq_false_iff, decide_eq_false_iff_not,
        ge_iff_le, UInt64.le_iff_toNat_le]
      omega

/-- Every sender takes an acknowledgement as its ranges over the natural numbers exactly when these
stay above zero or stop between two of them, and a first range below zero has none behind it. -/
theorem ack_exact_iff (frame : FrameAck) (encodable : (Frame.ack frame).Encodable) :
    (∀ (sender : AckState) (nowUs : UInt64), reportedAcked sender frame nowUs =
      sender.sent.filter fun pkt => InRanges frame.exactRanges pkt.pktNum.toNat) ↔
    frame.Descending := by
  rw [← ackCovers_exact_iff encodable]
  constructor
  · intro same pktNum
    -- A sender with that one packet in flight tells whether it is covered.
    have one := same { ackInit with sent := [flyingPkt pktNum 0] } 0
    rw [reportedAcked_eq] at one
    have number : (flyingPkt pktNum 0).pktNum = pktNum := rfl
    simp only [List.filter_cons, List.filter_nil, number] at one
    by_cases covered : ackCovers frame pktNum = true
    · by_cases inside : InRanges frame.exactRanges pktNum.toNat
      · simp [covered, inside]
      · simp [covered, inside] at one
    · by_cases inside : InRanges frame.exactRanges pktNum.toNat
      · simp [covered, inside] at one
      · simp [covered, inside]
  · intro same sender nowUs
    rw [reportedAcked_eq]
    refine List.filter_congr fun pkt _ => Bool.eq_iff_iff.mpr ?_
    rw [same, decide_eq_true_eq]

theorem FrameAck.encodable_of_all {frame : FrameAck}
    (all : frame.fields.all (· ≤ varintMax) = true) : (Frame.ack frame).Encodable := by
  intro val member
  exact of_decide_eq_true (List.all_eq_true.mp all val member)

/-- A frame whose first range goes below zero and whose further ranges come around to all packets.
-/
def wrappingAck : FrameAck :=
  ⟨0, 0, 1, [⟨0x3FFFFFFFFFFFFFFF, 0x3FFFFFFFFFFFFFFF⟩, ⟨0x3FFFFFFFFFFFFFFF, 0x3FFFFFFFFFFFFFFE⟩],
    by decide, false, 0, 0, 0⟩

/-- A frame with a further range that is longer than the numbers left below it. -/
def clampedAck : FrameAck := ⟨10, 0, 0, [⟨3, 100⟩], by decide, false, 0, 0, 0⟩

/-- A frame that acknowledges nothing is taken to acknowledge packet 7, far above its largest
number, and another one to acknowledge packet 2, which lies in none of its ranges. -/
theorem ack_inexact :
    (Frame.ack wrappingAck).Encodable ∧ wrappingAck.largestAcked < wrappingAck.firstAckRange ∧
    wrappingAck.exactRanges = [] ∧
    reportedAcked { ackInit with sent := [flyingPkt 7 5] } wrappingAck 10 = [flyingPkt 7 5] ∧
    (Frame.ack clampedAck).Encodable ∧ clampedAck.exactRanges = [(10, 10)] ∧
    reportedAcked { ackInit with sent := [flyingPkt 2 5] } clampedAck 10 = [flyingPkt 2 5] := by
  have facts : wrappingAck.largestAcked < wrappingAck.firstAckRange ∧
      wrappingAck.exactRanges = [] ∧
      reportedAcked { ackInit with sent := [flyingPkt 7 5] } wrappingAck 10 = [flyingPkt 7 5] := by
    decide +kernel
  have others : clampedAck.exactRanges = [(10, 10)] ∧
      reportedAcked { ackInit with sent := [flyingPkt 2 5] } clampedAck 10 = [flyingPkt 2 5] := by
    decide +kernel
  exact ⟨FrameAck.encodable_of_all (by decide +kernel), facts.1, facts.2.1, facts.2.2,
    FrameAck.encodable_of_all (by decide +kernel), others⟩

/-- The acknowledgement of one packet is taken as such by every sender. -/
theorem ack_exact_single :
    (Frame.ack (singleAck 4)).Encodable ∧ (singleAck 4).Descending ∧
    ∀ (sender : AckState) (nowUs : UInt64), reportedAcked sender (singleAck 4) nowUs =
      sender.sent.filter fun pkt => InRanges (singleAck 4).exactRanges pkt.pktNum.toNat := by
  have encodable : (Frame.ack (singleAck 4)).Encodable :=
    FrameAck.encodable_of_all (by decide +kernel)
  exact ⟨encodable, trivial, (ack_exact_iff (singleAck 4) encodable).mpr trivial⟩

end Nxp
