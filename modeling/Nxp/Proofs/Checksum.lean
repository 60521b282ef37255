import Nxp.Lib.Crc
import Nxp.Util.Crc32c

/-! The table-driven checksum is the bit-by-bit one, and can be carried on. -/

namespace Nxp

/-- The bits of a message in the order a reflected check takes them, each octet's lowest first. -/
def messageBits (data : Bytes) : List Bool :=
  data.flatMap fun octet => (List.range 8).map octet.toBitVec.getLsbD

/-- The bit-by-bit reflected check: all ones to begin with, and complemented at the end. -/
def crc32cBitwise (data : Bytes) : BitVec 32 :=
  Crc.absorb 0x82F63B78#32 0xFFFFFFFF#32 (messageBits data) ^^^ 0xFFFFFFFF#32

theorem crc32cTurn_toBitVec (crc : UInt32) :
    (crc32cTurn crc).toBitVec = Crc.turn crc32cPoly.toBitVec crc.toBitVec false := by
  -- The source tests the lowest bit by masking it out.
  have lowest : crc &&& 1 ≠ 0 ↔ crc.toBitVec.getLsbD 0 = true := by
    rw [ne_eq, ← UInt32.toNat_inj, UInt32.toNat_and, UInt32.toNat_one, Nat.and_one_is_mod,
      UInt32.toNat_zero, BitVec.getLsbD, Nat.testBit_zero, UInt32.toNat_toBitVec]
    simp
  unfold crc32cTurn Crc.turn
  by_cases odd : crc.toBitVec.getLsbD 0 = true
  · simp [if_pos (lowest.mpr odd), odd]
  · rw [if_neg (mt lowest.mp odd), Bool.xor_false, if_neg odd, UInt32.toBitVec_shiftRight]
    rfl

theorem crc32cTurns_toBitVec (turns : Nat) (crc : UInt32) :
    (crc32cTurns turns crc).toBitVec = Crc.turns crc32cPoly.toBitVec turns crc.toBitVec := by
  induction turns generalizing crc with
  | zero => rfl
  | succ turns ih => rw [crc32cTurns, ih, crc32cTurn_toBitVec, Crc.turns]

theorem crc32cTable_getElem (crc : UInt32) :
    crc32cTable[(crc &&& 0xFF).toNat]?.getD 0 = crc32cTurns 8 (crc &&& 0xFF) := by
  have inside : (crc &&& 0xFF).toNat < 256 := by
    rw [UInt32.toNat_and]
    exact Nat.lt_succ_of_le Nat.and_le_right
  rw [crc32cTable, Vector.getElem?_eq_getElem inside, Vector.getElem_ofFn, Option.getD_some,
    UInt32.ofNat_toNat]

/-- One look into the table does the work of eight bits. -/
theorem crc32cOctet_toBitVec (crc : UInt32) (octet : UInt8) :
    (crc32cOctet crc octet).toBitVec =
      Crc.absorb crc32cPoly.toBitVec crc.toBitVec
        ((List.range 8).map octet.toBitVec.getLsbD) := by
  have fed : (List.range 8).map octet.toBitVec.getLsbD =
      Crc.lowBits 8 octet.toUInt32.toBitVec := by
    apply List.map_congr_left
    intro i inside
    have narrow : i < 32 := by have := List.mem_range.mp inside; omega
    simp [narrow]
  have short : octet.toUInt32.toBitVec >>> 8 = 0#32 := by
    apply BitVec.eq_of_toNat_eq
    have small := octet.toNat_lt
    simp [Nat.shiftRight_eq_div_pow]
    omega
  have low : ∀ i < 32, (0xFF#32).getLsbD i = decide (i < 8) := by decide
  -- The octet lies in the low part, so what comes down is the register's own high part.
  rw [fed, Crc.absorb_lowBits _ _ _ _ short, Crc.turns_split _ 8 _ 0xFF#32 low,
    BitVec.ushiftRight_xor_distrib, short, BitVec.xor_zero, crc32cOctet, crc32cTable_getElem,
    UInt32.toBitVec_xor, crc32cTurns_toBitVec, UInt32.toBitVec_and, UInt32.toBitVec_xor,
    UInt32.toBitVec_shiftRight]
  rfl

theorem crc32cOctets_toBitVec (data : Bytes) (crc : UInt32) :
    (data.foldl crc32cOctet crc).toBitVec =
      Crc.absorb crc32cPoly.toBitVec crc.toBitVec (messageBits data) := by
  induction data generalizing crc with
  | nil => rfl
  | cons octet data ih =>
    rw [List.foldl_cons, ih, crc32cOctet_toBitVec, messageBits, messageBits, List.flatMap_cons,
      Crc.absorb, Crc.absorb, Crc.absorb, List.foldl_append]

/-- The checksum is the bit-by-bit one, and that of a whole follows from that of its first part. -/
theorem crc32c_correct_incremental :
    (∀ data, (crc32c data).toBitVec = crc32cBitwise data) ∧
      ∀ first second, crc32cUpdate (crc32c first) second = crc32c (first ++ second) := by
  constructor
  · intro data
    rw [crc32c, crc32cUpdate, UInt32.toBitVec_not, crc32cOctets_toBitVec, crc32cBitwise,
      ← BitVec.xor_allOnes]
    rfl
  · intro first second
    -- The complement taken at the end of one part is undone at the start of the next.
    simp only [crc32c, crc32cUpdate, UInt32.not_not, List.foldl_append]

end Nxp
