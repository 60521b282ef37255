import Mathlib.Data.List.Induction
import Nxp.Core.Packet
import Nxp.Lib.Word
import Nxp.Util.VarintLaws

/-! What the header parsers accept, and that they read back what was written. -/

namespace Nxp

variable {cidLen pktNumLen bufLen : Nat} {buf token hdr : Bytes} {type : PacketType}
  {version : UInt32} {largest truncated : UInt64}

/-- Octets that start with a short header over an identifier of a given length. -/
def ShortFormat (cidLen : Nat) : Bytes → Prop
  | [] => False
  | first :: rest =>
    first &&& 0x80 = 0 ∧ first &&& 0x40 ≠ 0 ∧
      cidLen + ((first &&& 0x03).toNat + 1) ≤ rest.length

instance decidableShortFormat (cidLen : Nat) : ∀ buf, Decidable (ShortFormat cidLen buf)
  | [] => inferInstanceAs (Decidable False)
  | first :: rest =>
    inferInstanceAs (Decidable (first &&& 0x80 = 0 ∧ first &&& 0x40 ≠ 0 ∧
      cidLen + ((first &&& 0x03).toNat + 1) ≤ rest.length))

/-- A short header is accepted exactly when the octets have its format. -/
theorem pktDecodeShortHeader_format (buf : Bytes) (cidLen : Nat) (bounded : cidLen ≤ maxCidLen) :
    (pktDecodeShortHeader buf cidLen bounded).isSome = true ↔ ShortFormat cidLen buf := by
  cases buf with
  | nil => simp [pktDecodeShortHeader, ShortFormat]
  | cons first rest =>
    unfold pktDecodeShortHeader ShortFormat
    simp only [List.length_cons]
    -- Each check of the parser refutes one part of the format, and the last case meets them all.
    split
    · exact iff_of_false Bool.false_ne_true fun format => by omega
    · split
      · rename_i long
        exact iff_of_false Bool.false_ne_true fun format => long format.1
      · split
        · rename_i unfixed
          exact iff_of_false Bool.false_ne_true fun format => format.2.1 unfixed
        · rename_i clear fixed
          split
          · exact iff_of_false Bool.false_ne_true fun format => by omega
          · exact iff_of_true rfl ⟨not_not.mp clear, fixed, by omega⟩

/-- What has the format of a short header is not taken for a long one. -/
theorem ShortFormat.short (format : ShortFormat cidLen buf) :
    ∃ first rest, buf = first :: rest ∧ pktIsLongHeader first = false := by
  cases buf with
  | nil => exact format.elim
  | cons first rest => exact ⟨first, rest, rfl, by simp [pktIsLongHeader, format.1]⟩

/-- The first octet of a long header says that it is long. -/
theorem longFirstByte_long (typeBits : UInt8) (pktNumLen : Nat) :
    pktIsLongHeader (longFirstByte typeBits pktNumLen) = true := by
  have set : longFirstByte typeBits pktNumLen &&& 0x80 = 0x80 := by
    unfold longFirstByte
    rw [UInt8.or_assoc, UInt8.or_assoc, Word.or_and_self]
  unfold pktIsLongHeader
  rw [set]
  decide

/-- An encoded long header starts with its first octet and goes on for more than its number. -/
theorem pktEncodeLongHeader_head {dcid scid : ConnId} {payloadLen pktNum : UInt64}
    (encoded : pktEncodeLongHeader type version dcid scid token payloadLen pktNum pktNumLen bufLen =
      some hdr) :
    ∃ typeBits rest, hdr = longFirstByte typeBits pktNumLen :: rest ∧ pktNumLen < hdr.length := by
  unfold pktEncodeLongHeader at encoded
  split at encoded
  · cases encoded
  · rw [Option.bind_eq_bind, Option.bind_eq_some_iff] at encoded
    obtain ⟨typeBits, -, encoded⟩ := encoded
    simp only [Option.ite_none_left_eq_some] at encoded
    obtain ⟨-, -, -, whole⟩ := encoded
    cases whole
    exact ⟨typeBits, _, rfl, by simp; omega⟩

/-- An encoded long header stays in its room. -/
theorem pktEncodeLongHeader_room {dcid scid : ConnId} {payloadLen pktNum : UInt64}
    (encoded : pktEncodeLongHeader type version dcid scid token payloadLen pktNum pktNumLen bufLen =
      some hdr) : hdr.length ≤ bufLen := by
  unfold pktEncodeLongHeader at encoded
  split at encoded
  · cases encoded
  · rw [Option.bind_eq_bind, Option.bind_eq_some_iff] at encoded
    obtain ⟨typeBits, -, encoded⟩ := encoded
    simp only [Option.ite_none_left_eq_some] at encoded
    obtain ⟨-, -, room, whole⟩ := encoded
    cases whole
    omega

/-- Header of an application packet with neither spin bit nor key phase. -/
def shortHeader (dcid : ConnId) (pnLen : Nat) (pktNum : UInt64) : Bytes :=
  shortFirstByte false false pnLen :: dcid.data ++ pktNumBytes pnLen pktNum

/-- A header for which there is room is encoded. -/
theorem pktEncodeShortHeader_fits (dcid : ConnId) (pktNum : UInt64) {len : Nat}
    (positive : 1 ≤ len) (short : len ≤ 4) (fits : 1 + dcid.len + len ≤ bufLen) :
    pktEncodeShortHeader dcid false false pktNum len bufLen = some (shortHeader dcid len pktNum) := by
  unfold pktEncodeShortHeader
  rw [if_neg (by omega), if_neg (by omega)]
  rfl

section ShortHeader

variable {dcid : ConnId} {pnLen : Nat} {pktNum : UInt64}

/-- A header has one octet before the identifier and the number behind it. -/
@[simp] theorem shortHeader_length : (shortHeader dcid pnLen pktNum).length = 1 + dcid.len + pnLen := by
  simp [shortHeader, ConnId.len]
  omega

/-- The first octet of a short header gives back its two bits and how long the number is. -/
theorem shortFirstByte_fields (spinBit keyPhase : Bool) (positive : 1 ≤ pnLen) (short : pnLen ≤ 4) :
    shortFirstByte spinBit keyPhase pnLen &&& 0x80 = 0 ∧
      shortFirstByte spinBit keyPhase pnLen &&& 0x40 ≠ 0 ∧
      (shortFirstByte spinBit keyPhase pnLen &&& 0x03).toNat + 1 = pnLen ∧
      (shortFirstByte spinBit keyPhase pnLen &&& 0x20 != 0) = spinBit ∧
      (shortFirstByte spinBit keyPhase pnLen &&& 0x10 != 0) = keyPhase := by
  -- There are four lengths and two bits.
  have sizes : pnLen = 1 ∨ pnLen = 2 ∨ pnLen = 3 ∨ pnLen = 4 := by omega
  rcases sizes with rfl | rfl | rfl | rfl <;> cases spinBit <;> cases keyPhase <;> decide

/-- Header of an application packet with its two bits. -/
def markedHeader (spinBit keyPhase : Bool) (dcid : ConnId) (pnLen : Nat) (pktNum : UInt64) : Bytes :=
  shortFirstByte spinBit keyPhase pnLen :: dcid.data ++ pktNumBytes pnLen pktNum

/-- A header with its two bits is as long as one without them. -/
@[simp] theorem markedHeader_length {spinBit keyPhase : Bool} :
    (markedHeader spinBit keyPhase dcid pnLen pktNum).length = 1 + dcid.len + pnLen := by
  simp [markedHeader, ConnId.len]
  omega

/-- A short header is read back whole, with what its octets hold of the number. -/
theorem pktDecodeShortHeader_markedHeader (spinBit keyPhase : Bool) (positive : 1 ≤ pnLen)
    (short : pnLen ≤ 4) (rest : Bytes) :
    pktDecodeShortHeader (markedHeader spinBit keyPhase dcid pnLen pktNum ++ rest) dcid.len
        dcid.len_le =
      some { dcid, spinBit, keyPhase
             pktNum := readBigEndian (pktNumBytes pnLen pktNum)
             pktNumLen := pnLen
             headerLen := 1 + dcid.len + pnLen
             pktNumOffset := 1 + dcid.len } := by
  obtain ⟨form, fixed, number, spun, phased⟩ := shortFirstByte_fields spinBit keyPhase positive short
  have octets : ((markedHeader spinBit keyPhase dcid pnLen pktNum ++ rest).drop (1 + dcid.len)).take
      pnLen = pktNumBytes pnLen pktNum := by
    have size : 1 + dcid.len = (shortFirstByte spinBit keyPhase pnLen :: dcid.data).length := by
      simp [ConnId.len]
      omega
    rw [markedHeader, List.append_assoc, size, List.drop_left,
      List.take_append_of_le_length (by simp), List.take_of_length_le (by simp)]
  have size : (markedHeader spinBit keyPhase dcid pnLen pktNum ++ rest).length =
      1 + dcid.len + pnLen + rest.length := by
    rw [List.length_append, markedHeader_length]
  unfold pktDecodeShortHeader
  -- The first octet is exposed for the parser, the octets of the number stay where they are.
  have front : markedHeader spinBit keyPhase dcid pnLen pktNum ++ rest =
      shortFirstByte spinBit keyPhase pnLen ::
        (dcid.data ++ (pktNumBytes pnLen pktNum ++ rest)) := by
    rw [markedHeader, List.cons_append, List.cons_append, List.append_assoc]
  have named : (dcid.data ++ (pktNumBytes pnLen pktNum ++ rest)).take dcid.len = dcid.data :=
    List.take_left' rfl
  rw [front] at octets size ⊢
  simp only [number, spun, phased, named, octets]
  rw [if_neg (by omega), if_neg (by simp [form]), if_neg fixed, if_neg (by omega)]

/-- A short header is read back with its identifier and the octets of its number. -/
theorem pktDecodeShortHeader_shortHeader (positive : 1 ≤ pnLen) (short : pnLen ≤ 4) (rest : Bytes)
    (bounded : cidLen ≤ maxCidLen) (named : cidLen = dcid.len) :
    ∃ hdr, pktDecodeShortHeader (shortHeader dcid pnLen pktNum ++ rest) cidLen bounded = some hdr ∧
      hdr.pktNum = readBigEndian (pktNumBytes pnLen pktNum) ∧ hdr.pktNumLen = pnLen ∧
      hdr.headerLen = 1 + dcid.len + pnLen := by
  subst named
  exact ⟨_, pktDecodeShortHeader_markedHeader false false positive short rest, rfl, rfl, rfl⟩

end ShortHeader

/-- One more octet shifts a number up. -/
theorem toNat_shift_join {high : UInt64} (small : high.toNat < 2 ^ 56) (low : UInt8) :
    ((high <<< 8) ||| low.toUInt64).toNat = high.toNat * 256 + low.toNat := by
  have bound := low.toNat_lt
  have shifted : (high <<< 8).toNat = high.toNat <<< 8 := by
    rw [UInt64.toNat_shiftLeft]
    exact Nat.mod_eq_of_lt (by rw [Nat.shiftLeft_eq]; simp; omega)
  rw [UInt64.toNat_or, shifted, UInt8.toNat_toUInt64,
    ← Nat.shiftLeft_add_eq_or_of_lt (by simpa using bound), Nat.shiftLeft_eq]

theorem pktNumBytes_succ (pnLen : Nat) (short : pnLen < 8) (pktNum : UInt64) :
    pktNumBytes (pnLen + 1) pktNum = pktNumBytes pnLen (pktNum >>> 8) ++ [pktNum.toUInt8] := by
  unfold pktNumBytes
  rw [List.range_succ, List.map_append]
  congr 1
  · apply List.map_congr_left
    intro i inside
    have inside := List.mem_range.mp inside
    have shift : (UInt64.ofNat ((pnLen + 1 - 1 - i) * 8)).toNat = (pnLen - 1 - i) * 8 + 8 := by
      rw [UInt64.toNat_ofNat']
      omega
    have lower : (UInt64.ofNat ((pnLen - 1 - i) * 8)).toNat = (pnLen - 1 - i) * 8 := by
      rw [UInt64.toNat_ofNat']
      omega
    unfold octetAt
    congr 1
    apply UInt64.toNat_inj.mp
    have eight : (8 : UInt64).toNat % 64 = 8 := rfl
    simp only [UInt64.toNat_shiftRight, shift, lower, eight, ← Nat.shiftRight_add]
    congr 1
    omega
  · simp [octetAt]

/-- Reading the octets of a number gives what they can hold of it. -/
theorem readBigEndian_pktNumBytes (pnLen : Nat) (short : pnLen ≤ 8) (pktNum : UInt64) :
    (readBigEndian (pktNumBytes pnLen pktNum)).toNat = pktNum.toNat % 256 ^ pnLen := by
  induction pnLen generalizing pktNum with
  | zero => simp [pktNumBytes, readBigEndian, Nat.mod_one]
  | succ pnLen ih =>
    have upper := ih (by omega) (pktNum >>> 8)
    have small : (readBigEndian (pktNumBytes pnLen (pktNum >>> 8))).toNat < 2 ^ 56 := by
      rw [upper]
      calc (pktNum >>> 8).toNat % 256 ^ pnLen
        _ < 256 ^ pnLen := Nat.mod_lt _ (Nat.pow_pos (by decide))
        _ ≤ 256 ^ 7 := Nat.pow_le_pow_right (by decide) (by omega)
        _ = 2 ^ 56 := by decide
    rw [pktNumBytes_succ pnLen (by omega)]
    unfold readBigEndian at *
    rw [List.foldl_append, List.foldl_cons, List.foldl_nil, toNat_shift_join small, upper]
    have part : (pktNum >>> 8).toNat = pktNum.toNat / 256 := by
      rw [UInt64.toNat_shiftRight]
      exact Nat.shiftRight_eq_div_pow _ 8
    have octet : pktNum.toUInt8.toNat = pktNum.toNat % 256 := UInt64.toNat_toUInt8 pktNum
    rw [part, octet, Nat.pow_succ', Nat.mod_mul]
    omega

/-- Two octets hold a number below two to the sixteenth. -/
theorem readBigEndian_pair {p : UInt64} (short : p ≤ 65535) :
    readBigEndian [(p >>> 8).toUInt8, p.toUInt8] = p := by
  have octets : pktNumBytes 2 p = [(p >>> 8).toUInt8, p.toUInt8] := by
    simp [pktNumBytes, octetAt, List.range_succ]
  have read := readBigEndian_pktNumBytes 2 (by decide) p
  rw [octets] at read
  rw [UInt64.le_iff_toNat_le] at short
  rw [← UInt64.toNat_inj, read]
  exact Nat.mod_eq_of_lt (by simp only [UInt64.reduceToNat] at short; omega)

/-- Reading the octets of a time gives it back. -/
theorem readBigEndian_timestampBytes (timeUs : UInt64) :
    readBigEndian (timestampBytes timeUs) = timeUs := by
  -- The octets are those of a packet number as long as a word.
  have read := readBigEndian_pktNumBytes 8 (by decide) timeUs
  have whole : timeUs.toNat % 256 ^ 8 = timeUs.toNat := Nat.mod_eq_of_lt timeUs.toNat_lt
  rw [whole] at read
  exact UInt64.toNat_inj.mp read

/-- A time takes eight octets. -/
@[simp] theorem timestampBytes_length (timeUs : UInt64) : (timestampBytes timeUs).length = 8 := by
  simp [timestampBytes]

/-- A number can be told from its low octets: it lies within half a window of the one expected next,
or above it in the first window, or below it in the last. -/
def Recoverable (largest pktNum : UInt64) (pnLen : Nat) : Prop :=
  largest.toNat + 1 < pktNum.toNat + 256 ^ pnLen / 2 ∧
      pktNum.toNat ≤ largest.toNat + 1 + 256 ^ pnLen / 2 ∨
    largest.toNat + 1 + 256 ^ pnLen / 2 < pktNum.toNat ∧ pktNum.toNat < 256 ^ pnLen ∨
    pktNum.toNat + 256 ^ pnLen / 2 ≤ largest.toNat + 1 ∧ 2 ^ 62 ≤ pktNum.toNat + 256 ^ pnLen

/-- Whether a number can be told from its low octets is a matter of arithmetic. -/
instance (largest pktNum : UInt64) (pnLen : Nat) : Decidable (Recoverable largest pktNum pnLen) :=
  inferInstanceAs (Decidable (_ ∨ _ ∨ _))

/-- The window of a packet number is twice its half, and both are small. -/
theorem pktNumWindow {pnLen : Nat} (positive : 1 ≤ pnLen) (short : pnLen ≤ 4) :
    ∃ half, 256 ^ pnLen = 2 * half ∧ half ≤ 2 ^ 31 ∧ 2 ^ 62 % 256 ^ pnLen = 0 ∧
      ((1 : UInt64) <<< UInt64.ofNat (pnLen * 8)) = UInt64.ofNat (2 ^ (8 * pnLen)) ∧
      UInt64.ofNat (2 ^ (8 * pnLen)) - 1 = UInt64.ofNat (2 ^ (8 * pnLen) - 1) := by
  have sizes : pnLen = 1 ∨ pnLen = 2 ∨ pnLen = 3 ∨ pnLen = 4 := by omega
  rcases sizes with rfl | rfl | rfl | rfl
  · exact ⟨128, rfl, by decide, by decide, rfl, rfl⟩
  · exact ⟨32768, rfl, by decide, by decide, rfl, rfl⟩
  · exact ⟨8388608, rfl, by decide, by decide, rfl, rfl⟩
  · exact ⟨2147483648, rfl, by decide, by decide, rfl, rfl⟩

/-- What is made of the low octets of a number, in numbers that wrap as words do. -/
theorem pktDecodePktNum_wrapped {largest truncated : UInt64} {pnLen expected candidate : Nat}
    (positive : 1 ≤ pnLen) (short : pnLen ≤ 4) (octets : truncated.toNat < 256 ^ pnLen)
    (expectedDef : expected = (largest + 1).toNat)
    (candidateDef : candidate = expected / 256 ^ pnLen * 256 ^ pnLen + truncated.toNat) :
    (pktDecodePktNum largest truncated pnLen).toNat =
      if (candidate + 256 ^ pnLen / 2) % 2 ^ 64 ≤ expected ∧
          (candidate + 256 ^ pnLen) % 2 ^ 64 < 2 ^ 62 then
        (candidate + 256 ^ pnLen) % 2 ^ 64
      else if (expected + 256 ^ pnLen / 2) % 2 ^ 64 < candidate ∧ 256 ^ pnLen ≤ candidate then
        candidate - 256 ^ pnLen
      else candidate := by
  obtain ⟨half, double, small, -, window⟩ := pktNumWindow positive short
  have power : (256 : Nat) ^ pnLen = 2 ^ (8 * pnLen) := by rw [Nat.pow_mul]
  have halved : 256 ^ pnLen / 2 = half := by omega
  have wide : (UInt64.ofNat (2 ^ (8 * pnLen))).toNat = 256 ^ pnLen := by
    rw [UInt64.toNat_ofNat', ← power]
    omega
  have joined : (((largest + 1) &&& ~~~(UInt64.ofNat (2 ^ (8 * pnLen) - 1))) ||| truncated).toNat =
      candidate := by
    rw [Word.toNat_join_low (largest + 1) truncated (by omega) (by rw [← power]; exact octets),
      candidateDef, expectedDef, power]
  have limit : ((1 : UInt64) <<< 62).toNat = 2 ^ 62 := rfl
  unfold pktDecodePktNum
  simp only [window.1, window.2]
  generalize ((largest + 1) &&& ~~~(UInt64.ofNat (2 ^ (8 * pnLen) - 1))) ||| truncated = found
    at joined
  generalize UInt64.ofNat (2 ^ (8 * pnLen)) = words at wide
  have narrow : (words / 2).toNat = half := by
    rw [UInt64.toNat_div, wide, double]
    exact Nat.mul_div_cancel_left half (by decide)
  simp only [UInt64.le_iff_toNat_le, UInt64.lt_iff_toNat_lt, gt_iff_lt, ge_iff_le,
    UInt64.toNat_add found, UInt64.toNat_add (largest + 1), limit, wide, narrow, halved,
    ← expectedDef, joined]
  split
  · rw [UInt64.toNat_add, joined, wide]
  · split
    · rename_i above
      rw [UInt64.toNat_sub_of_le _ _ (by rw [UInt64.le_iff_toNat_le, wide, joined]; exact above.2),
        wide, joined]
    · exact joined

/-- What is made of the low octets of a number, by the candidate in the block of the expected one.
-/
theorem pktDecodePktNum_toNat {pnLen candidate : Nat}
    (positive : 1 ≤ pnLen) (short : pnLen ≤ 4) (octets : truncated.toNat < 256 ^ pnLen)
    (known : largest.toNat + 2 ^ 33 < 2 ^ 64) (candidateDef : candidate =
      (largest.toNat + 1) / 256 ^ pnLen * 256 ^ pnLen + truncated.toNat) :
    (pktDecodePktNum largest truncated pnLen).toNat =
      if candidate + 256 ^ pnLen / 2 ≤ largest.toNat + 1 ∧ candidate + 256 ^ pnLen < 2 ^ 62 then
        candidate + 256 ^ pnLen
      else if largest.toNat + 1 + 256 ^ pnLen / 2 < candidate ∧ 256 ^ pnLen ≤ candidate then
        candidate - 256 ^ pnLen
      else candidate := by
  obtain ⟨half, double, small, -⟩ := pktNumWindow positive short
  have expected : (largest + 1).toNat = largest.toNat + 1 := by
    rw [UInt64.toNat_add, UInt64.toNat_one]
    omega
  have below : (largest.toNat + 1) / 256 ^ pnLen * 256 ^ pnLen ≤ largest.toNat + 1 :=
    Nat.div_mul_le_self _ _
  -- No sum leaves the range of a word, so the tests are those of the numbers.
  have sums : (candidate + 256 ^ pnLen / 2) % 2 ^ 64 = candidate + 256 ^ pnLen / 2 ∧
      (candidate + 256 ^ pnLen) % 2 ^ 64 = candidate + 256 ^ pnLen ∧
      (largest.toNat + 1 + 256 ^ pnLen / 2) % 2 ^ 64 = largest.toNat + 1 + 256 ^ pnLen / 2 := by
    refine ⟨Nat.mod_eq_of_lt ?_, Nat.mod_eq_of_lt ?_, Nat.mod_eq_of_lt ?_⟩ <;> omega
  rw [pktDecodePktNum_wrapped positive short octets expected.symm candidateDef, sums.1, sums.2.1,
    sums.2.2]

/-- A number is reconstructed from its low octets exactly when it can be told from them. -/
theorem pktDecodePktNum_iff {pktNum : UInt64} {pnLen : Nat} (positive : 1 ≤ pnLen)
    (short : pnLen ≤ 4) (octets : truncated.toNat = pktNum.toNat % 256 ^ pnLen)
    (known : largest.toNat + 1 < 2 ^ 62) (bounded : pktNum.toNat < 2 ^ 62) :
    pktDecodePktNum largest truncated pnLen = pktNum ↔ Recoverable largest pktNum pnLen := by
  obtain ⟨half, double, small, aligned, -⟩ := pktNumWindow positive short
  have below : truncated.toNat < 256 ^ pnLen := by
    rw [octets]
    exact Nat.mod_lt _ (Nat.pow_pos (by decide))
  have halved : 256 ^ pnLen / 2 = half := by omega
  rw [← UInt64.toNat_inj, pktDecodePktNum_toNat positive short below (by omega) rfl, octets]
  unfold Recoverable
  rw [halved]
  exact Word.nearest_block_iff double aligned known bounded

theorem readBigEndian_lt {bytes : Bytes} (short : bytes.length ≤ 7) :
    (readBigEndian bytes).toNat < 256 ^ bytes.length := by
  -- The last octet is joined below all the others.
  induction bytes using List.reverseRecOn with
  | nil => simp [readBigEndian]
  | append_singleton front octet ih =>
    rw [List.length_append, List.length_singleton] at short ⊢
    have upper := ih (by omega)
    have small : (readBigEndian front).toNat < 2 ^ 56 := by
      calc (readBigEndian front).toNat
        _ < 256 ^ front.length := upper
        _ ≤ 256 ^ 6 := Nat.pow_le_pow_right (by decide) (by omega)
        _ < 2 ^ 56 := by decide
    have bound : octet.toNat < 256 := octet.toNat_lt
    unfold readBigEndian at *
    rw [List.foldl_append, List.foldl_cons, List.foldl_nil, toNat_shift_join small, Nat.pow_succ]
    omega

/-- What a short header says about the number of its packet. -/
theorem pktDecodeShortHeader_number {dcidLen : Nat} {bounded : dcidLen ≤ maxCidLen}
    {hdr : PktShortHeader} (decoded : pktDecodeShortHeader buf dcidLen bounded = some hdr) :
    1 ≤ hdr.pktNumLen ∧ hdr.pktNumLen ≤ 4 ∧ hdr.pktNum.toNat < 256 ^ hdr.pktNumLen := by
  unfold pktDecodeShortHeader at decoded
  split at decoded
  · cases decoded
  · rename_i first rest
    simp only at decoded
    split_ifs at decoded
    rename_i fits
    cases decoded
    have bits : (first &&& 0x03).toNat ≤ 3 := by
      rw [UInt8.toNat_and]
      exact Nat.and_le_right
    have whole : (((first :: rest).drop (1 + dcidLen)).take ((first &&& 0x03).toNat + 1)).length =
        (first &&& 0x03).toNat + 1 := by
      rw [List.length_take, List.length_drop]
      omega
    refine ⟨Nat.le_add_left 1 _, Nat.succ_le_succ bits, ?_⟩
    have bound := readBigEndian_lt (show _ ≤ 7 by rw [whole]; omega)
    rw [whole] at bound
    exact bound

end Nxp
