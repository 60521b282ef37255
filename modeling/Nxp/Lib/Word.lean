import Mathlib.Algebra.Order.Ring.Nat

/-! Guarded arithmetic on machine words, read as arithmetic on natural numbers. -/

namespace Word

variable {k x last ones : Nat}

/-- A difference taken only when it is positive is the truncated one. -/
theorem toNat_sub_guarded (a b : UInt64) :
    (if a < b then b - a else 0).toNat = b.toNat - a.toNat := by
  split
  · rename_i less
    exact UInt64.toNat_sub_of_le _ _ (UInt64.le_of_lt less)
  · rename_i notLess
    have := UInt64.le_iff_toNat_le.mp (UInt64.not_lt.mp notLess)
    simp only [UInt64.toNat_zero]
    omega

/-- Choosing the first word when it is the smaller one is the minimum. -/
theorem toNat_min_guarded (a b : UInt64) :
    (if a < b then a else b).toNat = min a.toNat b.toNat := by
  split
  · rename_i less
    have := UInt64.lt_iff_toNat_lt.mp less
    omega
  · rename_i notLess
    have := UInt64.le_iff_toNat_le.mp (UInt64.not_lt.mp notLess)
    omega

/-- The same choice made by a weak comparison is the minimum as well. -/
theorem toNat_min_guarded_le (a b : UInt64) :
    (if a ≤ b then a else b).toNat = min a.toNat b.toNat := by
  split
  · rename_i atMost
    have := UInt64.le_iff_toNat_le.mp atMost
    omega
  · rename_i above
    have := UInt64.lt_iff_toNat_lt.mp (UInt64.not_le.mp above)
    omega

/-- Choosing the second word when it is the larger one is the maximum. -/
theorem toNat_max_guarded (a b : UInt64) :
    (if a < b then b else a).toNat = max a.toNat b.toNat := by
  split
  · rename_i less
    have := UInt64.lt_iff_toNat_lt.mp less
    omega
  · rename_i notLess
    have := UInt64.le_iff_toNat_le.mp (UInt64.not_lt.mp notLess)
    omega

/-- A difference that does not wrap around exceeds a bound when the sum with that bound does not
reach the larger word. -/
theorem lt_sub_iff {past now bound : UInt64} (order : past ≤ now) :
    bound < now - past ↔ past.toNat + bound.toNat < now.toNat := by
  rw [UInt64.le_iff_toNat_le] at order
  rw [UInt64.lt_iff_toNat_lt, UInt64.toNat_sub_of_le _ _ order]
  omega

/-- Changing some bits of an octet leaves those apart from them as they were. -/
theorem and_xor_masked {changed kept : UInt8} (apart : changed &&& kept = 0) (octet mask : UInt8) :
    (octet ^^^ (mask &&& changed)) &&& kept = octet &&& kept := by
  apply UInt8.toBitVec_inj.mp
  apply BitVec.eq_of_getLsbD_eq
  intro i inside
  -- No bit is both changed and kept.
  have clear : (changed.toBitVec.getLsbD i && kept.toBitVec.getLsbD i) = false := by
    simpa using congrArg (fun octet => octet.toBitVec.getLsbD i) apart
  simp only [UInt8.toBitVec_and, BitVec.getLsbD_and, UInt8.toBitVec_xor, BitVec.getLsbD_xor]
  cases bit : changed.toBitVec.getLsbD i with
  | false => simp
  | true =>
    rw [bit, Bool.true_and] at clear
    simp [clear]

/-- Adding bits keeps those that were set. -/
theorem or_and_self (octet more : UInt8) : (octet ||| more) &&& octet = octet := by
  apply UInt8.toBitVec_inj.mp
  apply BitVec.eq_of_getLsbD_eq
  intro i inside
  simp only [UInt8.toBitVec_and, BitVec.getLsbD_and, UInt8.toBitVec_or, BitVec.getLsbD_or]
  cases octet.toBitVec.getLsbD i <;> simp

/-- Changing bits twice changes nothing. -/
theorem xor_xor_cancel (octet mask : UInt8) : octet ^^^ mask ^^^ mask = octet := by
  rw [UInt8.xor_assoc, UInt8.xor_self, UInt8.xor_zero]

/-- Bits of the complement of a word. -/
theorem testBit_not (word : UInt64) (i : Nat) :
    (~~~word).toNat.testBit i = (decide (i < 64) && !word.toNat.testBit i) := by
  have bit := BitVec.getLsbD_not (x := word.toBitVec) (i := i)
  simpa [BitVec.getLsbD] using bit

/-- Clearing the low bits of a word rounds it down. -/
theorem toNat_clear_low (word : UInt64) (inside : k ≤ 63) :
    (word &&& ~~~(UInt64.ofNat (2 ^ k - 1))).toNat = word.toNat / 2 ^ k * 2 ^ k := by
  have small : 2 ^ k ≤ 2 ^ 63 := Nat.pow_le_pow_right (by decide) inside
  have mask : (UInt64.ofNat (2 ^ k - 1)).toNat = 2 ^ k - 1 := by
    rw [UInt64.toNat_ofNat']
    exact Nat.mod_eq_of_lt (by omega)
  apply Nat.eq_of_testBit_eq
  intro i
  rw [UInt64.toNat_and, Nat.testBit_and, testBit_not, mask, Nat.testBit_two_pow_sub_one,
    Nat.mul_comm, Nat.testBit_two_pow_mul, Nat.testBit_div_two_pow]
  by_cases low : i < k
  · simp [low, Nat.not_le.mpr low]
  · have back : i - k + k = i := by omega
    rw [back]
    by_cases high : i < 64
    · simp [low, high, Nat.not_lt.mp low]
    · have clear : word.toNat.testBit i = false :=
        Nat.testBit_lt_two_pow
        (Nat.lt_of_lt_of_le word.toNat_lt (Nat.pow_le_pow_right (by decide) (by omega)))
      simp [clear]
/-- Joining a word whose low bits are clear with a small one adds them. -/
theorem toNat_join_low (word low : UInt64) (inside : k ≤ 63) (small : low.toNat < 2 ^ k) :
    ((word &&& ~~~(UInt64.ofNat (2 ^ k - 1))) ||| low).toNat =
      word.toNat / 2 ^ k * 2 ^ k + low.toNat := by
  rw [UInt64.toNat_or, toNat_clear_low word inside, ← Nat.shiftLeft_eq,
    Nat.shiftLeft_add_eq_or_of_lt small]

/-- Of the numbers with given low digits, the one within half a window of an expected number is in
its block or in one next to it, on the side that the candidate in the block tells. -/
theorem nearest_block {expected number window half : Nat} (double : window = 2 * half)
    (lower : expected < number + half) (upper : number ≤ expected + half) :
    (expected / window * window + number % window + half ≤ expected →
        number = expected / window * window + number % window + window) ∧
      (expected + half < expected / window * window + number % window →
        number + window = expected / window * window + number % window) ∧
      (¬ expected / window * window + number % window + half ≤ expected →
        ¬ expected + half < expected / window * window + number % window →
        number = expected / window * window + number % window) := by
  have positive : 0 < window := by omega
  have split := Nat.div_add_mod' expected window
  have split' := Nat.div_add_mod' number window
  have rest := Nat.mod_lt expected positive
  have rest' := Nat.mod_lt number positive
  generalize expected / window = block at *
  generalize number / window = block' at *
  generalize expected % window = low at *
  generalize number % window = low' at *
  -- The blocks of the two numbers are at most one apart.
  have above : block' ≤ block + 1 := by
    by_contra far
    have far := Nat.mul_le_mul_right window (show block + 2 ≤ block' by omega)
    rw [Nat.add_mul] at far
    omega
  have below : block ≤ block' + 1 := by
    by_contra far
    have far := Nat.mul_le_mul_right window (show block' + 2 ≤ block by omega)
    rw [Nat.add_mul] at far
    omega
  have near : block' = block ∨ block' = block + 1 ∨ block = block' + 1 := by omega
  rcases near with rfl | rfl | rfl
  · omega
  · rw [Nat.add_mul] at *
    omega
  · rw [Nat.add_mul] at *
    omega

/-- The candidate in the block of the expected number, moved by a window where it is too far off and
the move stays in range, is the number itself exactly when that lies within half a window of the
expected one, or beyond it in the first or the last window. -/
theorem nearest_block_iff {expected number window half range : Nat} (double : window = 2 * half)
    (aligned : range % window = 0) (known : expected < range) (bounded : number < range) :
    (if expected / window * window + number % window + half ≤ expected ∧
          expected / window * window + number % window + window < range then
        expected / window * window + number % window + window
      else if expected + half < expected / window * window + number % window ∧
          window ≤ expected / window * window + number % window then
        expected / window * window + number % window - window
      else expected / window * window + number % window) = number ↔
      expected < number + half ∧ number ≤ expected + half ∨
        expected + half < number ∧ number < window ∨
        number + half ≤ expected ∧ range ≤ number + window := by
  have positive : 0 < window := by
    rcases Nat.eq_zero_or_pos window with none | wide
    · rw [none, Nat.mod_zero] at aligned
      omega
    · exact wide
  have split := Nat.div_add_mod' expected window
  have rest := Nat.mod_lt expected positive
  have rest' := Nat.mod_lt number positive
  constructor
  · -- However the candidate was moved, the result is on the side it was moved to.
    intro found
    split at found
    · omega
    · split at found <;> omega
  · rintro (⟨lower, upper⟩ | ⟨above, first⟩ | ⟨below, last⟩)
    · obtain ⟨next, previous, same⟩ := nearest_block double lower upper
      split
      · omega
      · split <;> omega
    · -- Both numbers are in the first block.
      have block : expected / window = 0 := Nat.div_eq_of_lt (by omega)
      have low : number % window = number := Nat.mod_eq_of_lt first
      rw [block, low, Nat.zero_mul, Nat.zero_add]
      rw [if_neg (by omega), if_neg (by omega)]
    · -- Both numbers are in the last block.
      obtain ⟨blocks, rfl⟩ := Nat.dvd_of_mod_eq_zero aligned
      have high : blocks ≤ number / window + 1 := by
        have step : (number + window) / window = number / window + 1 :=
          Nat.add_div_right number positive
        rw [← step]
        exact (Nat.le_div_iff_mul_le positive).mpr (by rw [Nat.mul_comm]; exact last)
      have low : expected / window < blocks :=
        (Nat.div_lt_iff_lt_mul positive).mpr (by rw [Nat.mul_comm]; exact known)
      have order : number / window ≤ expected / window := Nat.div_le_div_right (by omega)
      have same : expected / window = number / window := by omega
      rw [same, Nat.div_add_mod']
      rw [if_neg (by omega), if_neg (by omega)]

/-- A number of so many bits and one whose highest ones are all set. -/
structure Topped (last ones x : Nat) : Prop where
  bounded : x < 2 ^ (last + 1)
  set : ∀ i, last < i + ones → i ≤ last → x.testBit i = true

theorem topped_log2 (positive : x ≠ 0) : Topped x.log2 1 x := by
  refine ⟨Nat.lt_log2_self, fun i above within => ?_⟩
  rw [show i = x.log2 by omega]
  exact Nat.testBit_log2 positive

/-- Copying the highest bits behind themselves sets twice as many. -/
theorem Topped.smear (topped : Topped last ones x) :
    Topped last (2 * ones) (x ||| x >>> ones) := by
  refine ⟨Nat.or_lt_two_pow topped.bounded
    (Nat.lt_of_le_of_lt (Nat.shiftRight_le x ones) topped.bounded), fun i above within => ?_⟩
  rw [Nat.testBit_or, Nat.testBit_shiftRight, Bool.or_eq_true]
  by_cases already : last < i + ones
  · exact .inl (topped.set i already within)
  · exact .inr (topped.set (ones + i) (by omega) (by omega))

/-- All bits set are one less than a power of two. -/
theorem Topped.full (topped : Topped last ones x) (all : last < ones) :
    x = 2 ^ (last + 1) - 1 := by
  apply Nat.eq_of_testBit_eq
  intro i
  rw [Nat.testBit_two_pow_sub_one]
  by_cases within : i ≤ last
  · rw [topped.set i (by omega) within, decide_eq_true (by omega)]
  · have small : x < 2 ^ i :=
      Nat.lt_of_lt_of_le topped.bounded (Nat.pow_le_pow_right (by omega) (by omega))
    rw [Nat.testBit_lt_two_pow small, decide_eq_false (by omega)]

end Word
