import Nxp.Util.Varint
import Mathlib.Data.Nat.Bitwise

/-! A variable-length integer read back is the one that was written. -/

namespace Nxp

variable {value : UInt64} {octet : UInt8}

theorem taggedOctet_split (tag : Nat) (small : tag < 4) (low : octet < 64) :
    ((UInt8.ofNat (tag * 64) ||| octet) >>> 6).toNat = tag ∧
      (UInt8.ofNat (tag * 64) ||| octet) &&& 0x3F = octet := by
  -- There are four tags and sixty-four octets, all of them checked.
  have all : ∀ tag < 4, ∀ n < 64,
      ((UInt8.ofNat (tag * 64) ||| UInt8.ofNat n) >>> 6).toNat = tag ∧
        (UInt8.ofNat (tag * 64) ||| UInt8.ofNat n) &&& 0x3F = UInt8.ofNat n := by
    decide
  have found := all tag small octet.toNat (UInt8.lt_iff_toNat_lt.mp low)
  rwa [UInt8.ofNat_toNat] at found

theorem octetAt_bit (value shift : UInt64) (i : Nat) (inside : shift.toNat + 8 ≤ 64) :
    ((octetAt value shift).toUInt64 <<< shift).toNat.testBit i =
      (decide (shift.toNat ≤ i ∧ i < shift.toNat + 8) && value.toNat.testBit i) := by
  -- Shifting down, cutting to eight bits and shifting up again keeps one window of bits.
  have small : shift.toNat % 64 = shift.toNat := Nat.mod_eq_of_lt (by omega)
  unfold octetAt
  rw [UInt64.toNat_shiftLeft, small, Nat.testBit_mod_two_pow, Nat.testBit_shiftLeft,
    UInt8.toNat_toUInt64, UInt64.toNat_toUInt8, Nat.testBit_mod_two_pow,
    UInt64.toNat_shiftRight, small, Nat.testBit_shiftRight]
  by_cases above : shift.toNat ≤ i
  · rw [show shift.toNat + (i - shift.toNat) = i by omega]
    by_cases below : i < shift.toNat + 8
    · simp [above, below, show i < 64 by omega, show i - shift.toNat < 8 by omega]
    · simp [below, show ¬ i - shift.toNat < 8 by omega]
  · simp [above]

theorem octetAt_bit_low (value : UInt64) (i : Nat) :
    (octetAt value 0).toUInt64.toNat.testBit i = (decide (i < 8) && value.toNat.testBit i) := by
  have window := octetAt_bit value 0 i (by decide)
  rw [UInt64.shiftLeft_zero] at window
  simpa using window

theorem testBit_bounded {width i : Nat} (bounded : value.toNat < 2 ^ width)
    (set : value.toNat.testBit i = true) : i < width := by
  by_contra beyond
  have wide : 2 ^ width ≤ 2 ^ i := Nat.pow_le_pow_right (by decide) (Nat.le_of_not_lt beyond)
  rw [Nat.testBit_lt_two_pow (Nat.lt_of_lt_of_le bounded wide)] at set
  exact Bool.false_ne_true set

/-- Values that agree on every covered bit are equal. -/
theorem eq_of_bits {joined : UInt64} {width : Nat} (covered : Nat → Prop)
    [DecidablePred covered] (bounded : value.toNat < 2 ^ width)
    (bits : ∀ i, joined.toNat.testBit i = (decide (covered i) && value.toNat.testBit i))
    (cover : ∀ i < width, covered i) : joined = value := by
  apply UInt64.toNat_inj.mp
  apply Nat.eq_of_testBit_eq
  intro i
  rw [bits i]
  -- Only a set bit has to be covered, and a set bit stands below the bound.
  cases set : value.toNat.testBit i with
  | false => rw [Bool.and_false]
  | true =>
    rw [Bool.and_true]
    exact decide_eq_true (cover i (testBit_bounded bounded set))

theorem octets_join_two (bounded : value.toNat < 2 ^ 16) :
    ((octetAt value 8).toUInt64 <<< 8) ||| (octetAt value 0).toUInt64 = value := by
  apply eq_of_bits (fun i => (8 ≤ i ∧ i < 16) ∨ i < 8) bounded
  · intro i
    simp only [UInt64.toNat_or, Nat.testBit_or, octetAt_bit value 8 i (by decide),
      octetAt_bit_low, Bool.decide_or, Bool.and_or_distrib_right]
    rfl
  · intro i
    omega

theorem octets_join_four (bounded : value.toNat < 2 ^ 32) :
    ((octetAt value 24).toUInt64 <<< 24) ||| ((octetAt value 16).toUInt64 <<< 16) |||
      ((octetAt value 8).toUInt64 <<< 8) ||| (octetAt value 0).toUInt64 = value := by
  apply eq_of_bits (fun i =>
    (((24 ≤ i ∧ i < 32) ∨ (16 ≤ i ∧ i < 24)) ∨ (8 ≤ i ∧ i < 16)) ∨ i < 8) bounded
  · intro i
    simp only [UInt64.toNat_or, Nat.testBit_or, octetAt_bit value 8 i (by decide),
      octetAt_bit value 16 i (by decide), octetAt_bit value 24 i (by decide),
      octetAt_bit_low, Bool.decide_or, Bool.and_or_distrib_right]
    rfl
  · intro i
    omega

/-- Eight octets give back any value. -/
theorem octets_join_eight (value : UInt64) :
    ((octetAt value 56).toUInt64 <<< 56) ||| ((octetAt value 48).toUInt64 <<< 48) |||
      ((octetAt value 40).toUInt64 <<< 40) ||| ((octetAt value 32).toUInt64 <<< 32) |||
      ((octetAt value 24).toUInt64 <<< 24) ||| ((octetAt value 16).toUInt64 <<< 16) |||
      ((octetAt value 8).toUInt64 <<< 8) ||| (octetAt value 0).toUInt64 = value := by
  apply eq_of_bits (fun i =>
    (((((((56 ≤ i ∧ i < 64) ∨ (48 ≤ i ∧ i < 56)) ∨ (40 ≤ i ∧ i < 48)) ∨ (32 ≤ i ∧ i < 40)) ∨
      (24 ≤ i ∧ i < 32)) ∨ (16 ≤ i ∧ i < 24)) ∨ (8 ≤ i ∧ i < 16)) ∨ i < 8) value.toNat_lt
  · intro i
    simp only [UInt64.toNat_or, Nat.testBit_or, octetAt_bit value 8 i (by decide),
      octetAt_bit value 16 i (by decide), octetAt_bit value 24 i (by decide),
      octetAt_bit value 32 i (by decide), octetAt_bit value 40 i (by decide),
      octetAt_bit value 48 i (by decide), octetAt_bit value 56 i (by decide),
      octetAt_bit_low, Bool.decide_or, Bool.and_or_distrib_right]
    rfl
  · intro i
    omega

theorem octetAt_low {shift : UInt64} (small : shift.toNat < 64)
    (bounded : value.toNat < 64 * 2 ^ shift.toNat) : octetAt value shift < 64 := by
  rw [UInt8.lt_iff_toNat_lt]
  unfold octetAt
  rw [UInt64.toNat_toUInt8, UInt64.toNat_shiftRight, Nat.mod_eq_of_lt small,
    Nat.shiftRight_eq_div_pow]
  have below : value.toNat / 2 ^ shift.toNat < 64 := Nat.div_lt_of_lt_mul (by
    rw [Nat.mul_comm]
    exact bounded)
  exact Nat.lt_of_le_of_lt (Nat.mod_le _ _) below

/-- A first octet with tag zero is the value itself. -/
theorem varintDecode_one (low : octet < 64) (rest : Bytes) :
    varintDecode (octet :: rest) = some (octet.toUInt64, rest) := by
  have split := taggedOctet_split 0 (by decide) low
  rw [show UInt8.ofNat (0 * 64) ||| octet = octet from UInt8.zero_or] at split
  unfold varintDecode
  simp only [split.1, split.2]

theorem varintDecode_two (low : octet < 64) (b1 : UInt8) (rest : Bytes) :
    varintDecode ((0x40 ||| octet) :: b1 :: rest) =
      some ((octet.toUInt64 <<< 8) ||| b1.toUInt64, rest) := by
  have split := taggedOctet_split 1 (by decide) low
  rw [show UInt8.ofNat (1 * 64) = 0x40 from rfl] at split
  unfold varintDecode
  simp only [split.1, split.2]

theorem varintDecode_four (low : octet < 64) (b1 b2 b3 : UInt8) (rest : Bytes) :
    varintDecode ((0x80 ||| octet) :: b1 :: b2 :: b3 :: rest) =
      some ((octet.toUInt64 <<< 24) ||| (b1.toUInt64 <<< 16) ||| (b2.toUInt64 <<< 8) |||
        b3.toUInt64, rest) := by
  have split := taggedOctet_split 2 (by decide) low
  rw [show UInt8.ofNat (2 * 64) = 0x80 from rfl] at split
  unfold varintDecode
  simp only [split.1, split.2]

theorem varintDecode_eight (low : octet < 64) (b1 b2 b3 b4 b5 b6 b7 : UInt8) (rest : Bytes) :
    varintDecode ((0xC0 ||| octet) :: b1 :: b2 :: b3 :: b4 :: b5 :: b6 :: b7 :: rest) =
      some ((octet.toUInt64 <<< 56) ||| (b1.toUInt64 <<< 48) ||| (b2.toUInt64 <<< 40) |||
        (b3.toUInt64 <<< 32) ||| (b4.toUInt64 <<< 24) ||| (b5.toUInt64 <<< 16) |||
        (b6.toUInt64 <<< 8) ||| b7.toUInt64, rest) := by
  have split := taggedOctet_split 3 (by decide) low
  rw [show UInt8.ofNat (3 * 64) = 0xC0 from rfl] at split
  unfold varintDecode
  simp only [split.1, split.2]

/-- Decoding takes back what was encoded and leaves what follows it. -/
theorem varintDecode_encode {bufLen : Nat} {bytes : Bytes}
    (encoded : varintEncode value bufLen = some bytes) (rest : Bytes) :
    varintDecode (bytes ++ rest) = some (value, rest) := by
  unfold varintEncode at encoded
  -- The four lengths are told apart by the tag the first octet carries.
  split_ifs at encoded with one _ two _ four _ eight _ <;>
    simp only [Option.some.injEq] at encoded <;> subst encoded <;>
    simp only [List.cons_append, List.nil_append]
  · have below := UInt64.le_iff_toNat_le.mp one
    have same : value.toUInt8.toNat = value.toNat := by
      rw [UInt64.toNat_toUInt8]
      exact Nat.mod_eq_of_lt (Nat.lt_of_le_of_lt below (by decide))
    have low : value.toUInt8 < 64 := by
      rw [UInt8.lt_iff_toNat_lt, same]
      exact Nat.lt_succ_of_le below
    rw [varintDecode_one low]
    -- One octet holds the whole value.
    have widened : value.toUInt8.toUInt64 = value := by
      apply UInt64.toNat_inj.mp
      rw [UInt8.toNat_toUInt64, same]
    rw [widened]
  · have below := UInt64.le_iff_toNat_le.mp two
    rw [varintDecode_two (octetAt_low (by decide) (by simp at below ⊢; omega)),
      octets_join_two (by simp at below; omega)]
  · have below := UInt64.le_iff_toNat_le.mp four
    rw [varintDecode_four (octetAt_low (by decide) (by simp at below ⊢; omega)),
      octets_join_four (by simp at below; omega)]
  · have below := UInt64.le_iff_toNat_le.mp eight
    rw [varintDecode_eight (octetAt_low (by decide) (by simp [varintMax] at below ⊢; omega)),
      octets_join_eight]

end Nxp
