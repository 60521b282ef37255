import Mathlib.Data.BitVec
import Mathlib.Data.List.Basic

/-! Reflected cyclic redundancy checks of any width, bit by bit and a block of bits at a time. -/

namespace Crc

variable {w : Nat} (poly : BitVec w)

/-- One message bit shifted into the register, which is divided when a one falls out. -/
def turn (reg : BitVec w) (bit : Bool) : BitVec w :=
  if reg.getLsbD 0 ^^ bit then (reg >>> 1) ^^^ poly else reg >>> 1

/-- The register after all bits of a message. -/
def absorb (reg : BitVec w) (bits : List Bool) : BitVec w :=
  bits.foldl (turn poly) reg

/-- The register turned without any message bit. -/
def turns : Nat → BitVec w → BitVec w
  | 0, reg => reg
  | count + 1, reg => turns count (turn poly reg false)

/-- The lowest bits of a word, the least significant first. -/
def lowBits (count : Nat) (word : BitVec w) : List Bool :=
  (List.range count).map word.getLsbD

/-- A word added to the register acts by its lowest bit and then moves down with it. -/
theorem turn_xor (reg word : BitVec w) (bit : Bool) :
    turn poly (reg ^^^ word) bit = turn poly reg (word.getLsbD 0 ^^ bit) ^^^ (word >>> 1) := by
  -- Both registers divide under the same condition, so only the polynomial changes places.
  simp only [turn, BitVec.getLsbD_xor, BitVec.ushiftRight_xor_distrib, Bool.xor_assoc]
  split
  · ac_rfl
  · rfl

theorem lowBits_succ (count : Nat) (word : BitVec w) :
    lowBits (count + 1) word = word.getLsbD 0 :: lowBits count (word >>> 1) := by
  simp [lowBits, List.range_succ_eq_map, Nat.add_comm]

/-- Feeding a short word bit by bit is adding it to the register and turning. -/
theorem absorb_lowBits (count : Nat) (reg word : BitVec w) (short : word >>> count = 0#w) :
    absorb poly reg (lowBits count word) = turns poly count (reg ^^^ word) := by
  -- Each turn uses up the lowest bit of the word and moves the others into its place.
  induction count generalizing reg word with
  | zero =>
    have nothing : word = 0#w := by simpa using short
    simp [nothing, lowBits, absorb, turns]
  | succ count ih =>
    have shorter : (word >>> 1) >>> count = 0#w := by
      rw [← BitVec.shiftRight_add, Nat.add_comm]
      exact short
    have fed := ih (turn poly reg (word.getLsbD 0)) (word >>> 1) shorter
    rw [lowBits_succ, turns, turn_xor, Bool.xor_false, ← fed]
    rfl

/-- Bits that never reach the bottom only move down. -/
theorem turns_xor_high (count : Nat) (reg high : BitVec w)
    (clear : ∀ i < count, high.getLsbD i = false) :
    turns poly count (reg ^^^ high) = turns poly count reg ^^^ (high >>> count) := by
  induction count generalizing reg high with
  | zero => simp [turns]
  | succ count ih =>
    have above : ∀ i < count, (high >>> 1).getLsbD i = false := by
      intro i inside
      rw [BitVec.getLsbD_ushiftRight]
      exact clear (1 + i) (by omega)
    -- A clear lowest bit leaves the division to the rest of the register.
    rw [turns, turn_xor, clear 0 (by omega), Bool.false_xor, ih _ _ above, turns,
      ← BitVec.shiftRight_add, Nat.add_comm 1 count]

/-- A block of turns depends on the lowest bits alone, the others come down unchanged. -/
theorem turns_split (count : Nat) (reg mask : BitVec w)
    (low : ∀ i < w, mask.getLsbD i = decide (i < count)) :
    turns poly count reg = turns poly count (reg &&& mask) ^^^ (reg >>> count) := by
  have parts : (reg &&& mask) ^^^ (reg &&& ~~~mask) = reg := by
    ext i inside
    simp only [BitVec.getElem_xor, BitVec.getElem_and, BitVec.getElem_not]
    cases reg[i] <;> cases mask[i] <;> rfl
  have clear : ∀ i < count, (reg &&& ~~~mask).getLsbD i = false := by
    intro i inside
    simp only [BitVec.getLsbD_and, BitVec.getLsbD_not]
    by_cases within : i < w
    · simp only [low i within, inside, decide_true, Bool.not_true, Bool.and_false]
    · simp only [within, decide_false, Bool.false_and, Bool.and_false]
  have moved : (reg &&& ~~~mask) >>> count = reg >>> count := by
    apply BitVec.eq_of_getLsbD_eq
    intro i _
    simp only [BitVec.getLsbD_ushiftRight, BitVec.getLsbD_and, BitVec.getLsbD_not]
    by_cases within : count + i < w
    · rw [low _ within]
      simp [within]
    · simp [BitVec.getLsbD_of_ge reg (count + i) (by omega)]
  conv => lhs; rw [← parts, turns_xor_high poly count _ _ clear, moved]

end Crc
