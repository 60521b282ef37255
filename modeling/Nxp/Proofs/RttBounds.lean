import Nxp.Core.Ack
import Nxp.Lib.Machine
import Mathlib.Order.Bounds.Basic

/-! The delay estimates stay within the samples they are made of. -/

namespace Nxp

/-- A delay sample, with the share of it that the peer reports as its own. -/
structure RttSample where
  latestRtt : UInt64
  ackDelay : UInt64

/-- The tracker after delay samples were taken in turn. -/
def afterSamples (samples : List RttSample) : AckState :=
  Machine.run (fun ack sample => updateRtt ack sample.latestRtt sample.ackDelay) ackInit samples

/-- The delays that were sampled. -/
def sampledRtts (samples : List RttSample) : Set Nat :=
  {rtt | ∃ sample ∈ samples, sample.latestRtt.toNat = rtt}

/-- The sample that enters the estimates of a tracker. -/
def adjustedSample (ack : AckState) (sample : RttSample) : UInt64 :=
  adjustRtt sample.latestRtt
    (if sample.ackDelay > ackDelayUs then ackDelayUs else sample.ackDelay)
    (if ack.minRtt < sample.latestRtt then ack.minRtt else sample.latestRtt)

/-- The estimates are made of samples between two bounds. -/
structure RttWithin (least most : Nat) (ack : AckState) : Prop where
  sampled : ack.hasRtt = true
  minimum : ack.minRtt.toNat = least
  lower : least ≤ ack.smoothedRtt.toNat
  upper : ack.smoothedRtt.toNat ≤ most
  spread : ack.rttVar.toNat ≤ most

/-- The sums that the estimates are computed from fit in a word. -/
def RttSumsFit (ack : AckState) (sample : RttSample) : Prop :=
  3 * ack.rttVar.toNat + (absDiff ack.smoothedRtt (adjustedSample ack sample)).toNat < 2 ^ 64 ∧
    7 * ack.smoothedRtt.toNat + (adjustedSample ack sample).toNat < 2 ^ 64

theorem least_toNat (a b : UInt64) :
    (if a < b then a else b).toNat = min b.toNat a.toNat := by
  split
  · rename_i less
    rw [UInt64.lt_iff_toNat_lt] at less
    omega
  · rename_i less
    rw [UInt64.lt_iff_toNat_lt] at less
    omega

theorem adjustRtt_bounds {latestRtt ackDelay minRtt : UInt64} (least : minRtt ≤ latestRtt) :
    minRtt.toNat ≤ (adjustRtt latestRtt ackDelay minRtt).toNat ∧
      (adjustRtt latestRtt ackDelay minRtt).toNat ≤ latestRtt.toNat := by
  unfold adjustRtt
  split
  · rename_i taken
    have off := UInt64.toNat_sub_of_le _ _ (UInt64.le_of_lt taken.1)
    refine ⟨UInt64.le_iff_toNat_le.mp taken.2, ?_⟩
    omega
  · exact ⟨UInt64.le_iff_toNat_le.mp least, Nat.le_refl _⟩

theorem absDiff_le {a b : UInt64} {most : Nat} (first : a.toNat ≤ most) (second : b.toNat ≤ most) :
    (absDiff a b).toNat ≤ most := by
  unfold absDiff
  split
  · rename_i above
    rw [UInt64.toNat_sub_of_le _ _ (UInt64.le_of_lt above)]
    omega
  · rename_i above
    rw [UInt64.toNat_sub_of_le _ _ (UInt64.not_lt.mp above)]
    omega

theorem updateRtt_first {ack : AckState} (fresh : ack.hasRtt = false)
    (never : ack.minRtt = timeNever) (sample : RttSample) :
    RttWithin sample.latestRtt.toNat sample.latestRtt.toNat
      (updateRtt ack sample.latestRtt sample.ackDelay) := by
  have bound := sample.latestRtt.toNat_lt
  have least : (if ack.minRtt < sample.latestRtt then ack.minRtt else sample.latestRtt).toNat =
      sample.latestRtt.toNat := by
    rw [least_toNat, never, show timeNever.toNat = 2 ^ 64 - 1 from rfl]
    omega
  unfold updateRtt
  simp only [fresh, Bool.not_false, if_true]
  refine ⟨rfl, least, Nat.le_refl _, Nat.le_refl _, ?_⟩
  show (sample.latestRtt / 2).toNat ≤ sample.latestRtt.toNat
  rw [UInt64.toNat_div]
  exact Nat.div_le_self _ _

variable {ack : AckState} {sample : RttSample} {least most : Nat}

theorem RttWithin.adjusted (within : RttWithin least most ack) :
    min sample.latestRtt.toNat least ≤ (adjustedSample ack sample).toNat ∧
      (adjustedSample ack sample).toNat ≤ sample.latestRtt.toNat := by
  have smaller := least_toNat ack.minRtt sample.latestRtt
  have bounds := @adjustRtt_bounds sample.latestRtt
    (if sample.ackDelay > ackDelayUs then ackDelayUs else sample.ackDelay)
    (if ack.minRtt < sample.latestRtt then ack.minRtt else sample.latestRtt)
    (by rw [UInt64.le_iff_toNat_le, smaller]; exact Nat.min_le_left _ _)
  rw [smaller, within.minimum] at bounds
  exact bounds

theorem RttWithin.sumsFit (within : RttWithin least most ack) (small : most < 2 ^ 60)
    (short : sample.latestRtt.toNat < 2 ^ 60) : RttSumsFit ack sample := by
  obtain ⟨-, upper⟩ := @RttWithin.adjusted ack sample least most within
  have top := within.upper
  have spread := within.spread
  have apart := @absDiff_le ack.smoothedRtt (adjustedSample ack sample)
    (max most sample.latestRtt.toNat) (by omega) (by omega)
  constructor <;> omega

/-- A further sample keeps the estimates between the bounds of the samples, itself included. -/
theorem RttWithin.update (within : RttWithin least most ack) (small : most < 2 ^ 60)
    (short : sample.latestRtt.toNat < 2 ^ 60) :
    RttWithin (min sample.latestRtt.toNat least) (max sample.latestRtt.toNat most)
      (updateRtt ack sample.latestRtt sample.ackDelay) := by
  obtain ⟨lower, upper⟩ := @RttWithin.adjusted ack sample least most within
  obtain ⟨spreadSum, smoothSum⟩ := @RttWithin.sumsFit ack sample least most within small short
  obtain ⟨sampled, minimum, bottom, top, spread⟩ := within
  have apart := @absDiff_le ack.smoothedRtt (adjustedSample ack sample)
    (max sample.latestRtt.toNat most) (by omega) (by omega)
  have smaller := least_toNat ack.minRtt sample.latestRtt
  rw [minimum] at smaller
  -- The averages over words are those over the numbers they stand for.
  have smoothed : ((7 * ack.smoothedRtt + adjustedSample ack sample) / 8).toNat =
      (7 * ack.smoothedRtt.toNat + (adjustedSample ack sample).toNat) / 8 := by
    have sum : (7 * ack.smoothedRtt + adjustedSample ack sample).toNat =
        7 * ack.smoothedRtt.toNat + (adjustedSample ack sample).toNat := by
      rw [UInt64.toNat_add, UInt64.toNat_mul, show (7 : UInt64).toNat = 7 from rfl]
      omega
    rw [UInt64.toNat_div, sum]
    rfl
  have varied : ((3 * ack.rttVar + absDiff ack.smoothedRtt (adjustedSample ack sample)) / 4).toNat =
      (3 * ack.rttVar.toNat +
        (absDiff ack.smoothedRtt (adjustedSample ack sample)).toNat) / 4 := by
    have sum : (3 * ack.rttVar + absDiff ack.smoothedRtt (adjustedSample ack sample)).toNat =
        3 * ack.rttVar.toNat + (absDiff ack.smoothedRtt (adjustedSample ack sample)).toNat := by
      rw [UInt64.toNat_add, UInt64.toNat_mul, show (3 : UInt64).toNat = 3 from rfl]
      omega
    rw [UInt64.toNat_div, sum]
    rfl
  unfold updateRtt
  simp only [sampled, Bool.not_true, Bool.false_eq_true, if_false]
  refine ⟨rfl, smaller, ?_, ?_, ?_⟩
  · exact Nat.le_trans (by omega) (Nat.le_of_eq smoothed.symm)
  · exact Nat.le_trans (Nat.le_of_eq smoothed) (by omega)
  · exact Nat.le_trans (Nat.le_of_eq varied) (by omega)

theorem sampledRtts_concat (past : List RttSample) (sample : RttSample) :
    sampledRtts (past ++ [sample]) = insert sample.latestRtt.toNat (sampledRtts past) := by
  ext rtt
  simp [sampledRtts, or_and_right, exists_or, or_comm, eq_comm]

/-- The estimates stay between the least and the greatest sample. -/
theorem afterSamples_within {samples : List RttSample} (any : samples ≠ [])
    (short : ∀ sample ∈ samples, sample.latestRtt.toNat < 2 ^ 60) :
    ∃ least most, IsLeast (sampledRtts samples) least ∧ IsGreatest (sampledRtts samples) most ∧
      RttWithin least most (afterSamples samples) := by
  induction samples using List.reverseRecOn with
  | nil => exact absurd rfl any
  | append_singleton past sample ih =>
    have next : afterSamples (past ++ [sample]) =
        updateRtt (afterSamples past) sample.latestRtt sample.ackDelay := by
      rw [afterSamples, Machine.run_append]
      rfl
    rw [next, sampledRtts_concat]
    by_cases first : past = []
    · subst first
      refine ⟨_, _, ?_, ?_, updateRtt_first rfl rfl sample⟩ <;> simp [sampledRtts]
    · have earlier : ∀ other ∈ past, other.latestRtt.toNat < 2 ^ 60 :=
        fun other member => short other (List.mem_append_left _ member)
      obtain ⟨least, most, isLeast, isGreatest, within⟩ := ih first earlier
      obtain ⟨largest, member, same⟩ := isGreatest.1
      have small : most < 2 ^ 60 := same ▸ earlier largest member
      exact ⟨_, _, isLeast.insert _, isGreatest.insert _, within.update small (short sample (by simp))⟩

/-- After any samples, the least delay is the least of them, the smoothed delay lies between the
least and the largest, its variation is at most the largest, and no sum on the way overflowed. -/
theorem rtt_within_samples (samples : List RttSample) (any : samples ≠ [])
    (short : ∀ sample ∈ samples, sample.latestRtt.toNat < 2 ^ 60) :
    IsLeast (sampledRtts samples) (afterSamples samples).minRtt.toNat ∧
    (∃ most, IsGreatest (sampledRtts samples) most ∧
      (afterSamples samples).minRtt.toNat ≤ (afterSamples samples).smoothedRtt.toNat ∧
      (afterSamples samples).smoothedRtt.toNat ≤ most ∧
      (afterSamples samples).rttVar.toNat ≤ most) ∧
    ∀ past sample rest, samples = past ++ sample :: rest → past ≠ [] →
      RttSumsFit (afterSamples past) sample := by
  obtain ⟨least, most, isLeast, isGreatest, within⟩ := afterSamples_within any short
  refine ⟨within.minimum ▸ isLeast, ⟨most, isGreatest, ?_, within.upper, within.spread⟩, ?_⟩
  · rw [within.minimum]
    exact within.lower
  · rintro past sample rest rfl some
    have earlier : ∀ other ∈ past, other.latestRtt.toNat < 2 ^ 60 :=
      fun other member => short other (List.mem_append_left _ member)
    obtain ⟨least', most', -, ⟨⟨largest, member, same⟩, -⟩, before⟩ :=
      afterSamples_within some earlier
    exact before.sumsFit (same ▸ earlier largest member) (short sample (by simp))

/-- Two samples, the second of them shorter. -/
theorem rtt_within_samples_two :
    (afterSamples [⟨80000, 0⟩, ⟨40000, 30000⟩]).smoothedRtt = 75000 ∧
    IsLeast (sampledRtts [⟨80000, 0⟩, ⟨40000, 30000⟩])
      (afterSamples [⟨80000, 0⟩, ⟨40000, 30000⟩]).minRtt.toNat :=
  ⟨by decide, (rtt_within_samples [⟨80000, 0⟩, ⟨40000, 30000⟩] (by simp) (by simp)).1⟩

end Nxp
