import Nxp.Core.FrameCodec
import Nxp.Core.PacketLaws

/-! The octets of a long header, and that they are read back. -/

namespace Nxp

theorem versionOctet_bit (version shift : UInt32) (i : Nat) (inside : shift.toNat + 8 ≤ 32) :
    ((version >>> shift).toUInt8.toUInt32 <<< shift).toNat.testBit i =
      (decide (shift.toNat ≤ i ∧ i < shift.toNat + 8) && version.toNat.testBit i) := by
  -- Shifting down, cutting to eight bits and shifting up again keeps one window of bits.
  have small : shift.toNat % 32 = shift.toNat := Nat.mod_eq_of_lt (by omega)
  rw [UInt32.toNat_shiftLeft, small, Nat.testBit_mod_two_pow, Nat.testBit_shiftLeft,
    UInt8.toNat_toUInt32, UInt32.toNat_toUInt8, Nat.testBit_mod_two_pow,
    UInt32.toNat_shiftRight, small, Nat.testBit_shiftRight]
  by_cases above : shift.toNat ≤ i
  · rw [show shift.toNat + (i - shift.toNat) = i by omega]
    by_cases below : i < shift.toNat + 8
    · simp [above, below, show i < 32 by omega, show i - shift.toNat < 8 by omega]
    · simp [below, show ¬ i - shift.toNat < 8 by omega]
  · simp [above]

/-- The four octets of a version give it back. -/
theorem versionBytes_join (version : UInt32) :
    ((version >>> 24).toUInt8.toUInt32 <<< 24) ||| ((version >>> 16).toUInt8.toUInt32 <<< 16) |||
      ((version >>> 8).toUInt8.toUInt32 <<< 8) ||| version.toUInt8.toUInt32 = version := by
  have lowest : version.toUInt8.toUInt32 = (version >>> 0).toUInt8.toUInt32 <<< 0 := by
    rw [UInt32.shiftRight_zero, UInt32.shiftLeft_zero]
  rw [lowest]
  apply UInt32.toNat_inj.mp
  apply Nat.eq_of_testBit_eq
  intro i
  simp only [UInt32.toNat_or, Nat.testBit_or, versionOctet_bit version 24 i (by decide),
    versionOctet_bit version 16 i (by decide), versionOctet_bit version 8 i (by decide),
    versionOctet_bit version 0 i (by decide), ← Bool.and_or_distrib_right, ← Bool.decide_or]
  -- Only a set bit has to be covered by the windows, and the four cover all thirty-two.
  cases set : version.toNat.testBit i with
  | false => rw [Bool.and_false]
  | true =>
    have inside : i < 32 := by
      by_contra beyond
      have wide : 2 ^ 32 ≤ 2 ^ i := Nat.pow_le_pow_right (by decide) (Nat.le_of_not_lt beyond)
      rw [Nat.testBit_lt_two_pow (Nat.lt_of_lt_of_le version.toNat_lt wide)] at set
      exact Bool.false_ne_true set
    have windows : (UInt32.toNat 24 = 24 ∧ UInt32.toNat 16 = 16) ∧
        UInt32.toNat 8 = 8 ∧ UInt32.toNat 0 = 0 := by decide
    rw [Bool.and_true]
    exact decide_eq_true (by omega)

theorem decodeVersion_versionBytes (version : UInt32) (rest : Bytes) :
    decodeVersion (versionBytes version ++ rest) = some (version, rest) := by
  unfold decodeVersion versionBytes
  simp only [List.cons_append, List.nil_append, versionBytes_join]

/-- An identifier preceded by its length. -/
def connIdOctets (cid : ConnId) : Bytes := UInt8.ofNat cid.len :: cid.data

theorem decodeConnId_connIdOctets (cid : ConnId) (rest : Bytes) :
    decodeConnId (connIdOctets cid ++ rest) = some (cid, rest) := by
  have bounded : cid.len ≤ 20 := cid.bounded
  have len : (UInt8.ofNat cid.len).toNat = cid.len := by
    rw [UInt8.toNat_ofNat']
    omega
  unfold decodeConnId connIdOctets
  simp only [List.cons_append, len, cid.len_le, dite_true, List.length_append]
  rw [if_neg (by simp [ConnId.len])]
  simp [ConnId.len]

/-- The token of an initial packet preceded by its length, and nothing under another type. -/
def tokenOctets (type : PacketType) (token : Bytes) : Bytes :=
  if type = .initial then varintOctets (UInt64.ofNat token.length) ++ token else []

/-- The token a header of a type carries. -/
def carriedToken (type : PacketType) (token : Bytes) : Bytes :=
  if type = .initial then token else []

theorem toNat_ofNat_small {len : Nat} (small : len ≤ 65536) :
    (UInt64.ofNat len).toNat = len := by
  rw [UInt64.toNat_ofNat']
  omega

theorem le_varintMax_of_small {value : UInt64} (small : value.toNat ≤ 65536) :
    value ≤ varintMax := by
  rw [UInt64.le_iff_toNat_le]
  exact Nat.le_trans small (by decide)

theorem decodeToken_tokenOctets (type : PacketType) {token : Bytes}
    (short : token.length ≤ maxHeaderTokenLen) (rest : Bytes) :
    decodeToken type (tokenOctets type token ++ rest) = some (carriedToken type token, rest) := by
  have limit : token.length ≤ 1024 := short
  have len := toNat_ofNat_small (show token.length ≤ 65536 by omega)
  have written := le_varintMax_of_small (show (UInt64.ofNat token.length).toNat ≤ 65536 by omega)
  unfold decodeToken tokenOctets carriedToken
  split
  · rw [List.append_assoc, varintDecode_octets written]
    simp only [Option.bind_eq_bind, Option.bind_some, len]
    rw [if_neg (by omega), if_neg (by simp)]
    simp
  · rfl

/-- The octets of a long header. -/
def longHeader (typeBits : UInt8) (type : PacketType) (version : UInt32) (dcid scid : ConnId)
    (token : Bytes) (payloadLen pktNum : UInt64) (pktNumLen : Nat) : Bytes :=
  longFirstByte typeBits pktNumLen :: versionBytes version ++ connIdOctets dcid ++
    connIdOctets scid ++ tokenOctets type token ++ varintOctets payloadLen ++
    pktNumBytes pktNumLen pktNum

/-- The octets of a long header between the first one and the packet number. -/
def longFront (type : PacketType) (version : UInt32) (dcid scid : ConnId) (token : Bytes)
    (payloadLen : UInt64) : Bytes :=
  versionBytes version ++ connIdOctets dcid ++ connIdOctets scid ++ tokenOctets type token ++
    varintOctets payloadLen

theorem longHeader_eq (typeBits : UInt8) (type : PacketType) (version : UInt32) (dcid scid : ConnId)
    (token : Bytes) (payloadLen pktNum : UInt64) (pktNumLen : Nat) :
    longHeader typeBits type version dcid scid token payloadLen pktNum pktNumLen =
      longFirstByte typeBits pktNumLen :: longFront type version dcid scid token payloadLen ++
        pktNumBytes pktNumLen pktNum := by
  simp only [longHeader, longFront, List.cons_append, List.append_assoc]

theorem longFirstByte_fields {type : PacketType} {typeBits : UInt8}
    (named : longTypeBits type = some typeBits) {pktNumLen : Nat}
    (positive : 1 ≤ pktNumLen) (short : pktNumLen ≤ 4) :
    longFirstByte typeBits pktNumLen &&& 0x80 ≠ 0 ∧
      longFirstByte typeBits pktNumLen &&& 0x40 ≠ 0 ∧
      longType (longFirstByte typeBits pktNumLen) = type ∧
      (longFirstByte typeBits pktNumLen &&& 0x03).toNat + 1 = pktNumLen := by
  -- There are four types and four lengths.
  have sizes : pktNumLen = 1 ∨ pktNumLen = 2 ∨ pktNumLen = 3 ∨ pktNumLen = 4 := by omega
  cases type <;> cases named <;> rcases sizes with rfl | rfl | rfl | rfl <;> decide

theorem varintLen_ne_zero {value : UInt64} (written : value ≤ varintMax) :
    varintLen value ≠ 0 := by
  unfold varintLen
  split_ifs <;> decide

section LongHeader

variable {type : PacketType} {typeBits : UInt8} {version : UInt32} {dcid scid : ConnId}
  {token : Bytes} {payloadLen pktNum : UInt64} {pktNumLen : Nat}

/-- A header is written in full into whatever has room for it. -/
theorem pktEncodeLongHeader_eq (named : longTypeBits type = some typeBits)
    (tokenShort : token.length ≤ maxHeaderTokenLen) (payloadShort : payloadLen.toNat ≤ maxPayloadLen)
    (positive : 1 ≤ pktNumLen) (short : pktNumLen ≤ 4) (bufLen : Nat) :
    pktEncodeLongHeader type version dcid scid token payloadLen pktNum pktNumLen bufLen =
      if bufLen < (longHeader typeBits type version dcid scid token payloadLen pktNum
          pktNumLen).length then none
      else some (longHeader typeBits type version dcid scid token payloadLen pktNum pktNumLen) := by
  have limit : token.length ≤ 1024 := tokenShort
  have len := toNat_ofNat_small (show token.length ≤ 65536 by omega)
  have tokenWritten :=
    le_varintMax_of_small (show (UInt64.ofNat token.length).toNat ≤ 65536 by omega)
  unfold pktEncodeLongHeader
  rw [if_neg (by omega), named]
  simp only [Option.bind_eq_bind, Option.bind_some]
  rw [if_neg (fun refused => varintLen_ne_zero tokenWritten refused.2),
    if_neg (varintLen_ne_zero (le_varintMax_of_small payloadShort))]
  simp only [longHeader, connIdOctets, tokenOctets, List.cons_append, List.append_assoc]

/-- A header is read from its first octet and its fields, whatever the octets of its number are. -/
theorem pktDecodeLongHeader_front {first : UInt8} (long : first &&& 0x80 ≠ 0)
    (fixed : first &&& 0x40 ≠ 0) (typed : longType first = type) (numbered : type ≠ .retry)
    (tokenShort : token.length ≤ maxHeaderTokenLen) (payloadShort : payloadLen.toNat ≤ maxPayloadLen)
    {rest : Bytes} (enough : (first &&& 0x03).toNat + 1 ≤ rest.length) :
    pktDecodeLongHeader (first :: longFront type version dcid scid token payloadLen ++ rest) =
      some { type, version, dcid, scid
             token := carriedToken type token
             payloadLen
             pktNum := readBigEndian (rest.take ((first &&& 0x03).toNat + 1))
             pktNumLen := (first &&& 0x03).toNat + 1
             headerLen := 1 + (longFront type version dcid scid token payloadLen).length +
               ((first &&& 0x03).toNat + 1)
             pktNumOffset := 1 + (longFront type version dcid scid token payloadLen).length } := by
  -- The octets are grouped as the parser takes them.
  have grouped : first :: longFront type version dcid scid token payloadLen ++ rest =
      first :: (versionBytes version ++ (connIdOctets dcid ++ (connIdOctets scid ++
        (tokenOctets type token ++ (varintOctets payloadLen ++ rest))))) := by
    simp only [longFront, List.cons_append, List.append_assoc]
  have size : (first :: longFront type version dcid scid token payloadLen ++ rest).length =
      1 + (longFront type version dcid scid token payloadLen).length + rest.length := by
    rw [List.cons_append, List.length_cons, List.length_append]
    omega
  have least : 6 ≤ (longFront type version dcid scid token payloadLen).length := by
    simp [longFront, versionBytes, connIdOctets]
    omega
  generalize (longFront type version dcid scid token payloadLen).length = total at size least ⊢
  rw [grouped] at size ⊢
  unfold pktDecodeLongHeader
  simp only [size, typed, decodeVersion_versionBytes, decodeConnId_connIdOctets,
    decodeToken_tokenOctets type tokenShort, varintDecode_octets (le_varintMax_of_small payloadShort),
    Option.bind_eq_bind, Option.bind_some]
  rw [if_neg (by simp [long, fixed]; omega), if_neg numbered, if_neg (by omega),
    if_neg (by omega)]
  simp only [Nat.add_sub_cancel]

/-- What stands before the payload of a long header. -/
theorem pktDecodeLongHeader_longHeader (named : longTypeBits type = some typeBits)
    (numbered : type ≠ .retry) (tokenShort : token.length ≤ maxHeaderTokenLen)
    (payloadShort : payloadLen.toNat ≤ maxPayloadLen) (positive : 1 ≤ pktNumLen)
    (short : pktNumLen ≤ 4) (payload : Bytes) :
    pktDecodeLongHeader (longHeader typeBits type version dcid scid token payloadLen pktNum
        pktNumLen ++ payload) =
      some { type, version, dcid, scid
             token := carriedToken type token
             payloadLen
             pktNum := readBigEndian (pktNumBytes pktNumLen pktNum)
             pktNumLen
             headerLen := (longHeader typeBits type version dcid scid token payloadLen pktNum
               pktNumLen).length
             pktNumOffset := (longHeader typeBits type version dcid scid token payloadLen pktNum
               pktNumLen).length - pktNumLen } := by
  obtain ⟨long, fixed, typed, number⟩ := longFirstByte_fields named positive short
  have size : (longHeader typeBits type version dcid scid token payloadLen pktNum pktNumLen).length =
      1 + (longFront type version dcid scid token payloadLen).length + pktNumLen := by
    rw [longHeader_eq, List.cons_append, List.length_cons, List.length_append, pktNumBytes_length]
    omega
  rw [size, longHeader_eq, List.append_assoc, pktDecodeLongHeader_front long fixed typed numbered
    tokenShort payloadShort (by rw [number, List.length_append, pktNumBytes_length]; omega), number,
    List.take_left' (pktNumBytes_length _ _), Nat.add_sub_cancel]

end LongHeader

end Nxp
