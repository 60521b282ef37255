import Nxp.Core.Ack
import Nxp.Util.Varint

/-! The ranges of received numbers stay ordered and apart, and an acknowledgement tells them all. -/

namespace Nxp

variable {ack : AckState} {prev : RecvPnRange} {n : Nat} {nowUs : UInt64} {frame : FrameAck}

/-- A range lies below another with at least one number missing in between. -/
def Apart (above below : RecvPnRange) : Prop := below.last.toNat + 2 ≤ above.start.toNat

/-- A range has both ends in order and below a limit. -/
def RecvPnRange.Within (limit : Nat) (r : RecvPnRange) : Prop :=
  r.start.toNat ≤ r.last.toNat ∧ r.last.toNat < limit

/-- A range has both ends in order and small enough to be encoded. -/
abbrev RecvPnRange.Valid (r : RecvPnRange) : Prop := r.Within (2 ^ 62)

/-- The ends of a range are small enough to be encoded. -/
theorem RecvPnRange.Within.encodable {r : RecvPnRange} (valid : r.Valid) :
    r.start ≤ varintMax ∧ r.last ≤ varintMax := by
  obtain ⟨starts, ends⟩ := valid
  rw [UInt64.le_iff_toNat_le, UInt64.le_iff_toNat_le]
  have limit : varintMax.toNat = 2 ^ 62 - 1 := rfl
  omega

/-- Ranges below a limit from the largest numbers down, no two of which could be joined. -/
structure RangesWithin (limit : Nat) (ranges : List RecvPnRange) : Prop where
  valid : ∀ r ∈ ranges, r.Within limit
  apart : ranges.Pairwise Apart

/-- Ranges of numbers that can be encoded, from the largest down and no two to be joined. -/
abbrev RangesOrdered (ranges : List RecvPnRange) : Prop := RangesWithin (2 ^ 62) ranges

variable {ranges before after : List RecvPnRange} {r : RecvPnRange} {pktNum : UInt64}
  {limit : Nat}

theorem contains_iff : r.contains pktNum = true ↔
    r.start.toNat ≤ pktNum.toNat ∧ pktNum.toNat ≤ r.last.toNat := by
  simp only [RecvPnRange.contains, Bool.and_eq_true, decide_eq_true_eq, ge_iff_le,
    UInt64.le_iff_toNat_le]

theorem not_touches_iff (bound : limit < 2 ^ 64) (valid : r.Within limit)
    (small : pktNum.toNat < limit) :
    r.touches pktNum = false ↔
      pktNum.toNat + 2 ≤ r.start.toNat ∨ r.last.toNat + 2 ≤ pktNum.toNat := by
  obtain ⟨ordered, bounded⟩ := valid
  have next : (r.last + 1).toNat = r.last.toNat + 1 := by
    rw [UInt64.toNat_add, UInt64.toNat_one]
    omega
  have next' : (pktNum + 1).toNat = pktNum.toNat + 1 := by
    rw [UInt64.toNat_add, UInt64.toNat_one]
    omega
  rw [← Bool.not_eq_true]
  simp only [RecvPnRange.touches, Bool.or_eq_true, contains_iff, beq_iff_eq, ← UInt64.toNat_inj,
    next, next']
  omega

theorem extendLast_split (above : ∀ b ∈ before, b.touches pktNum = false) :
    extendLast (before ++ r :: after) before.length pktNum =
      before ++ { r with last := pktNum } :: after := by
  unfold extendLast
  simp only
  have here : (before ++ r :: after).getD before.length default = r := by simp
  rw [here, List.set_append_right _ _ (Nat.le_refl _), Nat.sub_self, List.set_cons_zero]
  refine if_neg fun join => ?_
  -- The range above would have been found first.
  obtain ⟨some, meets⟩ := join
  have inside : before.length - 1 < before.length := by omega
  have other : (before ++ { r with last := pktNum } :: after).getD (before.length - 1) default =
      before[before.length - 1] := by
    rw [List.getD_eq_getElem?_getD, List.getElem?_append_left inside,
      List.getElem?_eq_getElem inside, Option.getD_some]
  rw [other] at meets
  have apart := above _ (List.getElem_mem inside)
  simp [RecvPnRange.touches, meets] at apart

/-- A number right below a range moves its lower end, or joins it with the next range. -/
theorem extendStart_split :
    extendStart (before ++ r :: after) before.length pktNum =
      match after with
      | [] => before ++ [{ r with start := pktNum }]
      | next :: rest =>
        if next.last + 1 = pktNum then before ++ ⟨next.start, r.last⟩ :: rest
        else before ++ { r with start := pktNum } :: next :: rest := by
  unfold extendStart
  simp only
  have here : (before ++ r :: after).getD before.length default = r := by simp
  rw [here, List.set_append_right _ _ (Nat.le_refl _), Nat.sub_self, List.set_cons_zero]
  cases after with
  | nil =>
    refine if_neg fun join => ?_
    have inside := join.1
    simp at inside
  | cons next rest =>
    have below : (before ++ { r with start := pktNum } :: next :: rest).getD (before.length + 1)
        default = next := by simp
    rw [below]
    by_cases meets : next.last + 1 = pktNum
    · simp only [meets, and_true, if_true]
      rw [if_pos (by simp), List.set_append_right _ _ (Nat.le_refl _), Nat.sub_self,
        List.set_cons_zero, List.eraseIdx_append_of_length_le (by omega),
        Nat.add_sub_cancel_left]
      rfl
    · simp only [meets, and_false, if_false]

theorem touched_split {i : Nat} (found : ranges.findIdx? (·.touches pktNum) = some i) :
    ∃ before r after, ranges = before ++ r :: after ∧ i = before.length ∧
      r.touches pktNum = true ∧ ∀ b ∈ before, b.touches pktNum = false := by
  obtain ⟨inside, touching, first⟩ := List.findIdx?_eq_some_iff_getElem.mp found
  refine ⟨ranges.take i, ranges[i], ranges.drop (i + 1), ?_, ?_, touching, ?_⟩
  · rw [← List.drop_eq_getElem_cons inside, List.take_append_drop]
  · rw [List.length_take]
    omega
  · intro b member
    obtain ⟨j, below, rfl⟩ := List.mem_take_iff_getElem.mp member
    have earlier := first j (by omega)
    simpa using earlier

theorem RangesWithin.replace (ordered : RangesWithin limit (before ++ r :: after))
    {r' : RecvPnRange} (valid : r'.Within limit) (above : ∀ b ∈ before, Apart b r')
    (below : ∀ b ∈ after, Apart r' b) : RangesWithin limit (before ++ r' :: after) := by
  obtain ⟨old, apart⟩ := ordered
  rw [List.pairwise_append, List.pairwise_cons] at apart
  refine ⟨?_, ?_⟩
  · intro b member
    rcases List.mem_append.mp member with earlier | later
    · exact old b (List.mem_append_left _ earlier)
    · rcases List.mem_cons.mp later with rfl | later
      · exact valid
      · exact old b (List.mem_append_right _ (List.mem_cons_of_mem _ later))
  · rw [List.pairwise_append, List.pairwise_cons]
    refine ⟨apart.1, ⟨below, apart.2.1.2⟩, fun b earlier b' later => ?_⟩
    rcases List.mem_cons.mp later with rfl | later
    · exact above b earlier
    · exact apart.2.2 b earlier b' (List.mem_cons_of_mem _ later)

theorem RangesWithin.sublist (ordered : RangesWithin limit ranges) {fewer : List RecvPnRange}
    (less : fewer.Sublist ranges) : RangesWithin limit fewer :=
  ⟨fun r member => ordered.valid r (less.subset member), ordered.apart.sublist less⟩

/-- The ranges behind the first one are in order. -/
theorem rangesWithin_cons : RangesWithin limit (r :: ranges) ↔
    r.Within limit ∧ (∀ b ∈ ranges, Apart r b) ∧ RangesWithin limit ranges := by
  constructor
  · rintro ⟨valid, apart⟩
    rw [List.pairwise_cons] at apart
    exact ⟨valid r (List.mem_cons_self ..), apart.1,
      fun b member => valid b (List.mem_cons_of_mem _ member), apart.2⟩
  · rintro ⟨valid, below, rest⟩
    refine ⟨fun b member => ?_, List.pairwise_cons.mpr ⟨below, rest.apart⟩⟩
    rcases List.mem_cons.mp member with rfl | member
    · exact valid
    · exact rest.valid b member

/-- A range of one number goes in where the larger numbers end. -/
theorem RangesWithin.insertNew (bound : limit < 2 ^ 64) (ordered : RangesWithin limit ranges)
    (small : pktNum.toNat < limit) (apart : ∀ r ∈ ranges, r.touches pktNum = false) :
    RangesWithin limit (ranges.insertIdx (ranges.findIdx fun r => !(r.start > pktNum))
      ⟨pktNum, pktNum⟩) := by
  have single : (⟨pktNum, pktNum⟩ : RecvPnRange).Within limit := ⟨Nat.le_refl _, small⟩
  -- The induction passes over the ranges above the number.
  induction ranges with
  | nil => exact rangesWithin_cons.mpr ⟨single, by simp, ordered⟩
  | cons r rest ih =>
    obtain ⟨valid, below, tail⟩ := rangesWithin_cons.mp ordered
    have away := (not_touches_iff bound valid small).mp (apart r (List.mem_cons_self ..))
    rw [List.findIdx_cons]
    by_cases higher : r.start > pktNum
    · simp only [higher, decide_true, Bool.not_true, cond_false]
      rw [gt_iff_lt, UInt64.lt_iff_toNat_lt] at higher
      refine rangesWithin_cons.mpr ⟨valid, fun b member => ?_,
        ih tail fun b member => apart b (List.mem_cons_of_mem _ member)⟩
      rcases (List.mem_insertIdx List.findIdx_le_length).mp member with rfl | member
      · show pktNum.toNat + 2 ≤ r.start.toNat
        have ends := valid.1
        omega
      · exact below b member
    · simp only [higher, decide_false, Bool.not_false, cond_true, List.insertIdx_zero]
      rw [gt_iff_lt, UInt64.lt_iff_toNat_lt] at higher
      refine rangesWithin_cons.mpr ⟨single, fun b member => ?_, ordered⟩
      show b.last.toNat + 2 ≤ pktNum.toNat
      rcases List.mem_cons.mp member with rfl | member
      · omega
      · have lower : b.last.toNat + 2 ≤ r.start.toNat := below b member
        omega

/-- A number next to a range moves an end of it, and the ranges stay in order. -/
theorem RangesWithin.extendSplit (bound : limit < 2 ^ 64)
    (ordered : RangesWithin limit (before ++ r :: after)) (small : pktNum.toNat < limit)
    (touching : r.touches pktNum = true) (above : ∀ b ∈ before, b.touches pktNum = false) :
    RangesWithin limit (extendRange (before ++ r :: after) before.length pktNum) := by
  have mine := ordered.valid r (by simp)
  obtain ⟨starts, ends⟩ := mine
  have apart := ordered.apart
  rw [List.pairwise_append, List.pairwise_cons] at apart
  obtain ⟨-, ⟨lower, -⟩, higher⟩ := apart
  have around : ∀ b ∈ before, r.last.toNat + 2 ≤ b.start.toNat ∧
      (pktNum.toNat + 2 ≤ b.start.toNat ∨ b.last.toNat + 2 ≤ pktNum.toNat) ∧
      b.start.toNat ≤ b.last.toNat := by
    intro b member
    have valid := ordered.valid b (List.mem_append_left _ member)
    exact ⟨higher b member r (List.mem_cons_self ..),
      (not_touches_iff bound valid small).mp (above b member), valid.1⟩
  unfold extendRange
  have here : (before ++ r :: after).getD before.length default = r := by simp
  simp only [here]
  split
  · exact ordered
  · rename_i outside
    rw [contains_iff] at outside
    split
    · rename_i next
      have value := congrArg UInt64.toNat next
      rw [UInt64.toNat_add, UInt64.toNat_one] at value
      rw [extendLast_split above]
      refine ordered.replace ⟨?_, small⟩ (fun b member => ?_) fun b member => lower b member
      · show r.start.toNat ≤ pktNum.toNat
        omega
      · show pktNum.toNat + 2 ≤ b.start.toNat
        have := around b member
        omega
    · rename_i other
      have meets : pktNum + 1 = r.start := by
        simpa [RecvPnRange.touches, contains_iff, outside, other] using touching
      have value := congrArg UInt64.toNat meets
      rw [UInt64.toNat_add, UInt64.toNat_one] at value
      have grown : ({ r with start := pktNum } : RecvPnRange).Within limit := ⟨by
        show pktNum.toNat ≤ r.last.toNat
        omega, ends⟩
      rw [extendStart_split]
      cases after with
      | nil => exact ordered.replace grown (fun b member => (around b member).1) (by simp)
      | cons next rest =>
        have joined : next.Within limit := ordered.valid next (by simp)
        have nearest : next.last.toNat + 2 ≤ r.start.toNat := lower next (List.mem_cons_self ..)
        have behind : ∀ b ∈ rest, Apart next b := by
          have apart := ordered.apart
          rw [List.pairwise_append, List.pairwise_cons, List.pairwise_cons] at apart
          exact apart.2.1.2.1
        simp only
        split
        · -- The number fills the whole gap, and the two ranges become one.
          have fewer : RangesWithin limit (before ++ r :: rest) := ordered.sublist (by simp)
          refine fewer.replace ⟨?_, ends⟩ (fun b member => (around b member).1) behind
          show next.start.toNat ≤ r.last.toNat
          have := joined.1
          omega
        · rename_i gapped
          have distance : next.last.toNat + 2 ≤ pktNum.toNat := by
            have gap : next.last.toNat + 1 ≠ pktNum.toNat := by
              intro same
              refine gapped (UInt64.toNat_inj.mp ?_)
              rw [UInt64.toNat_add, UInt64.toNat_one, ← same]
              have := joined.2
              omega
            omega
          refine ordered.replace grown (fun b member => (around b member).1) fun b member => ?_
          show b.last.toNat + 2 ≤ pktNum.toNat
          rcases List.mem_cons.mp member with rfl | member
          · exact distance
          · have lower' : b.last.toNat + 2 ≤ next.start.toNat := behind b member
            have := joined.1
            omega

/-- A number lies in one of the ranges. -/
def Covered (ranges : List RecvPnRange) (n : Nat) : Prop :=
  ∃ r ∈ ranges, r.start.toNat ≤ n ∧ n ≤ r.last.toNat

/-- A number is not recorded: it touches no range and there is no room for another. -/
def Dropped (ranges : List RecvPnRange) (pktNum : UInt64) : Prop :=
  (∀ r ∈ ranges, r.touches pktNum = false) ∧ maxRecvRanges ≤ ranges.length

theorem covered_split : Covered (before ++ r :: after) n ↔
    (r.start.toNat ≤ n ∧ n ≤ r.last.toNat) ∨ Covered before n ∨ Covered after n := by
  simp only [Covered, List.mem_append, List.mem_cons, or_and_right, exists_or, exists_eq_left]
  exact or_left_comm

/-- The numbers covered by a range and those behind it. -/
theorem covered_cons : Covered (r :: ranges) n ↔
    (r.start.toNat ≤ n ∧ n ≤ r.last.toNat) ∨ Covered ranges n := by
  simp only [Covered, List.mem_cons, or_and_right, exists_or, exists_eq_left]

/-- The packet numbers that some range contains are the covered ones. -/
theorem any_contains_iff : ranges.any (·.contains pktNum) = true ↔
    Covered ranges pktNum.toNat := by
  simp only [List.any_eq_true, contains_iff, Covered]

/-- Extending a range adds exactly the number to those covered. -/
theorem RangesWithin.extendSplit_covered (bound : limit < 2 ^ 64)
    (ordered : RangesWithin limit (before ++ r :: after)) (touching : r.touches pktNum = true)
    (above : ∀ b ∈ before, b.touches pktNum = false) (small : pktNum.toNat < limit) (n : Nat) :
    Covered (extendRange (before ++ r :: after) before.length pktNum) n ↔
      Covered (before ++ r :: after) n ∨ n = pktNum.toNat := by
  obtain ⟨starts, ends⟩ := ordered.valid r (by simp)
  unfold extendRange
  have here : (before ++ r :: after).getD before.length default = r := by simp
  simp only [here]
  split
  · -- The number was there before.
    rename_i inside
    refine ⟨.inl, fun either => either.elim id fun same => covered_split.mpr (.inl ?_)⟩
    rw [same]
    exact contains_iff.mp inside
  · rename_i outside
    split
    · rename_i next
      have value := congrArg UInt64.toNat next
      rw [UInt64.toNat_add, UInt64.toNat_one] at value
      have grown : (r.start.toNat ≤ n ∧ n ≤ pktNum.toNat) ↔
          (r.start.toNat ≤ n ∧ n ≤ r.last.toNat) ∨ n = pktNum.toNat := by
        omega
      rw [extendLast_split above, covered_split, covered_split, grown, or_right_comm]
    · rename_i other
      have meets : pktNum + 1 = r.start := by
        simpa [RecvPnRange.touches, outside, other] using touching
      have value := congrArg UInt64.toNat meets
      rw [UInt64.toNat_add, UInt64.toNat_one] at value
      have grown : (pktNum.toNat ≤ n ∧ n ≤ r.last.toNat) ↔
          (r.start.toNat ≤ n ∧ n ≤ r.last.toNat) ∨ n = pktNum.toNat := by
        omega
      rw [extendStart_split]
      cases after with
      | nil => rw [covered_split, covered_split, grown, or_right_comm]
      | cons next rest =>
        have joined : next.Within limit := ordered.valid next (by simp)
        simp only
        split
        · -- The number fills the whole gap, and the two ranges become one.
          rename_i gap
          have filled := congrArg UInt64.toNat gap
          rw [UInt64.toNat_add, UInt64.toNat_one] at filled
          obtain ⟨begins, finishes⟩ := joined
          have whole : (next.start.toNat ≤ n ∧ n ≤ r.last.toNat) ↔
              (next.start.toNat ≤ n ∧ n ≤ next.last.toNat) ∨
                (r.start.toNat ≤ n ∧ n ≤ r.last.toNat) ∨ n = pktNum.toNat := by
            omega
          rw [covered_split, covered_split, covered_cons, whole]
          simp only [or_assoc, or_left_comm, or_comm]
        · rw [covered_split, covered_split, grown, or_right_comm]

/-- Recording a number adds exactly it to those covered, unless it is dropped. -/
theorem RangesWithin.insert_covered (bound : limit < 2 ^ 64) (ordered : RangesWithin limit ranges)
    (small : pktNum.toNat < limit) (n : Nat) :
    Covered (insertPktNum ranges pktNum) n ↔
      Covered ranges n ∨ (n = pktNum.toNat ∧ ¬ Dropped ranges pktNum) := by
  unfold insertPktNum
  split
  · rename_i i found
    obtain ⟨before, r, after, rfl, rfl, touching, above⟩ := touched_split found
    have kept : ¬ Dropped (before ++ r :: after) pktNum := by
      rintro ⟨away, -⟩
      have apart := away r (by simp)
      rw [touching] at apart
      cases apart
    rw [ordered.extendSplit_covered bound touching above small]
    simp only [kept, not_false_eq_true, and_true]
  · rename_i found
    have apart : ∀ r ∈ ranges, r.touches pktNum = false := by
      simpa using List.findIdx?_eq_none_iff.mp found
    split
    · rename_i room
      have kept : ¬ Dropped ranges pktNum := fun dropped => by
        have full := dropped.2
        omega
      have single : (pktNum.toNat ≤ n ∧ n ≤ pktNum.toNat) ↔ n = pktNum.toNat := by omega
      simp only [kept, not_false_eq_true, and_true, Covered,
        List.mem_insertIdx List.findIdx_le_length, or_and_right, exists_or, exists_eq_left, single]
      exact or_comm
    · rename_i full
      have dropped : Dropped ranges pktNum := ⟨apart, by omega⟩
      simp only [dropped, not_true_eq_false, and_false, or_false]

theorem RangesWithin.insert (bound : limit < 2 ^ 64) (ordered : RangesWithin limit ranges)
    (small : pktNum.toNat < limit) : RangesWithin limit (insertPktNum ranges pktNum) := by
  unfold insertPktNum
  split
  · rename_i i found
    obtain ⟨before, r, after, rfl, rfl, touching, above⟩ := touched_split found
    exact ordered.extendSplit bound small touching above
  · rename_i apart
    split
    · exact ordered.insertNew bound small (by simpa using List.findIdx?_eq_none_iff.mp apart)
    · exact ordered

/-- A received packet keeps the ranges in order. -/
theorem ackOnPktRecv_ordered (bound : limit < 2 ^ 64)
    (ordered : RangesWithin limit ack.recvRanges.ranges) {pktNum : UInt64}
    (small : pktNum.toNat < limit) (nowUs : UInt64) (ackEliciting : Bool) :
    RangesWithin limit (ackOnPktRecv ack pktNum nowUs ackEliciting).recvRanges.ranges := by
  have recorded := ordered.insert bound small
  unfold ackOnPktRecv
  simp only
  split
  · exact ordered
  · split <;> split <;> exact recorded

/-- The length of a range leads back from its upper end to the lower. -/
theorem length_arith (valid : r.Valid) :
    r.last - r.start ≤ r.last ∧ r.last - (r.last - r.start) = r.start := by
  have starts := valid.1
  have length : (r.last - r.start).toNat = r.last.toNat - r.start.toNat :=
    UInt64.toNat_sub_of_le _ _ (UInt64.le_iff_toNat_le.mpr starts)
  have shorter : r.last - r.start ≤ r.last := UInt64.le_iff_toNat_le.mpr (by omega)
  refine ⟨shorter, UInt64.toNat_inj.mp ?_⟩
  rw [UInt64.toNat_sub_of_le _ _ shorter, length]
  omega

theorem gap_arith (valid : r.Valid) (apart : Apart prev r) :
    ¬ prev.start < r.last + 2 ∧ ¬ prev.start < prev.start - r.last - 2 + 2 ∧
      prev.start - (prev.start - r.last - 2) - 2 = r.last ∧
      prev.start - r.last - 2 ≤ prev.start := by
  obtain ⟨starts, ends⟩ := valid
  have distance : r.last.toNat + 2 ≤ prev.start.toNat := apart
  have bound := prev.start.toNat_lt
  have two : (2 : UInt64).toNat = 2 := rfl
  have first : (prev.start - r.last).toNat = prev.start.toNat - r.last.toNat :=
    UInt64.toNat_sub_of_le _ _ (UInt64.le_iff_toNat_le.mpr (by omega))
  have gap : (prev.start - r.last - 2).toNat = prev.start.toNat - r.last.toNat - 2 := by
    rw [UInt64.toNat_sub_of_le _ _ (UInt64.le_iff_toNat_le.mpr (by omega)), first, two]
  have smaller : prev.start - r.last - 2 ≤ prev.start := UInt64.le_iff_toNat_le.mpr (by omega)
  have rest : (prev.start - (prev.start - r.last - 2)).toNat = r.last.toNat + 2 := by
    rw [UInt64.toNat_sub_of_le _ _ smaller, gap]
    omega
  refine ⟨?_, ?_, UInt64.toNat_inj.mp ?_, smaller⟩
  · rw [UInt64.lt_iff_toNat_lt, UInt64.toNat_add, two]
    omega
  · rw [UInt64.lt_iff_toNat_lt, UInt64.toNat_add, gap, two]
    omega
  · rw [UInt64.toNat_sub_of_le _ _ (UInt64.le_iff_toNat_le.mpr (by omega)), rest, two]
    omega

theorem rangesCover_buildRanges (ordered : RangesOrdered (prev :: ranges)) (pktNum : UInt64) :
    rangesCover pktNum prev.start (buildRanges prev.start ranges) =
      ranges.any (·.contains pktNum) := by
  -- The walk down the frame visits the ranges in their order.
  induction ranges generalizing prev with
  | nil => rfl
  | cons r rest ih =>
    obtain ⟨-, below, tail⟩ := rangesWithin_cons.mp ordered
    obtain ⟨mine, -, -⟩ := rangesWithin_cons.mp tail
    obtain ⟨reached, reached', last, -⟩ := gap_arith mine (below r (List.mem_cons_self ..))
    obtain ⟨covered, start⟩ := length_arith mine
    rw [buildRanges, if_neg reached, rangesCover, if_neg reached']
    simp only [last, start, ge_iff_le, covered, if_true]
    rw [ih tail, List.any_cons]
    rfl

/-- The values that tell ordered ranges are small enough to be encoded. -/
theorem buildRanges_bounded (ordered : RangesOrdered (prev :: ranges)) :
    ∀ range ∈ buildRanges prev.start ranges, range.gap ≤ varintMax ∧ range.ackRange ≤ varintMax := by
  induction ranges generalizing prev with
  | nil => simp [buildRanges]
  | cons r rest ih =>
    obtain ⟨higher, below, tail⟩ := rangesWithin_cons.mp ordered
    obtain ⟨mine, -, -⟩ := rangesWithin_cons.mp tail
    obtain ⟨reached, -, -, gap⟩ := gap_arith mine (below r (List.mem_cons_self ..))
    rw [buildRanges, if_neg reached]
    intro range member
    rcases List.mem_cons.mp member with rfl | member
    · refine ⟨UInt64.le_trans gap ?_, UInt64.le_trans (length_arith mine).1 mine.encodable.2⟩
      exact higher.encodable.1
    · exact ih tail range member

theorem buildRanges_length (prevStart : UInt64) (ranges : List RecvPnRange) :
    (buildRanges prevStart ranges).length ≤ ranges.length := by
  induction ranges generalizing prevStart with
  | nil => exact Nat.le_refl _
  | cons r rest ih =>
    unfold buildRanges
    split
    · exact Nat.zero_le _
    · exact Nat.succ_le_succ (ih r.start)

/-- An acknowledgement is built of the ranges there are, the first of them apart. -/
theorem ackBuildFrame_some (built : ackBuildFrame ack nowUs = some frame) :
    ∃ first rest, ack.recvRanges.ranges = first :: rest ∧
      frame = ⟨first.last, if nowUs > ack.largestRecvTime then nowUs - ack.largestRecvTime else 0,
        first.last - first.start, (buildRanges first.start rest).take ackMaxRanges,
        List.length_take_le _ _, false, 0, 0, 0⟩ := by
  unfold ackBuildFrame at built
  split at built
  · cases built
  · rename_i first rest stored
    exact ⟨first, rest, stored, (Option.some.inj built).symm⟩

/-- The acknowledgement of ordered ranges covers exactly the numbers in them. -/
theorem ackBuildFrame_covers (ordered : RangesOrdered ack.recvRanges.ranges)
    (built : ackBuildFrame ack nowUs = some frame) (pktNum : UInt64) :
    ackCovers frame pktNum = ack.recvRanges.ranges.any (·.contains pktNum) := by
  have room := ack.recvRanges.bounded
  obtain ⟨first, rest, stored, rfl⟩ := ackBuildFrame_some built
  rw [stored] at ordered room ⊢
  -- There is room for all further ranges in a frame.
  have all : (buildRanges first.start rest).take ackMaxRanges = buildRanges first.start rest := by
    refine List.take_of_length_le (Nat.le_trans (buildRanges_length _ _) ?_)
    rw [List.length_cons] at room
    exact Nat.le_of_succ_le room
  have valid := (rangesWithin_cons.mp ordered).1
  unfold ackCovers
  simp only [(length_arith valid).2, all]
  rw [rangesCover_buildRanges ordered, List.any_cons]
  rfl

end Nxp
