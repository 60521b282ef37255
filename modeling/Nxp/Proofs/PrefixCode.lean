import Nxp.Util.VarintLaws

/-! Variable-length integers form a prefix code, and each is written as short as it can be. -/

namespace Nxp

variable (octet : UInt8) {value : UInt64} {buf rest : Bytes} {width : Nat}

/-- What the code promises about one value within range. -/
structure VarintRight (value : UInt64) (bytes : Bytes) : Prop where
  /-- The encoding has the length announced. -/
  length_eq : bytes.length = varintLen value
  /-- It is written wherever it fits, and nothing is written elsewhere. -/
  encoded : ∀ bufLen,
    varintEncode value bufLen = if varintLen value ≤ bufLen then some bytes else none
  /-- It is read back, and what follows it is left. -/
  decoded : ∀ rest, varintDecode (bytes ++ rest) = some (value, rest)
  /-- No part of it can be read alone. -/
  cut : ∀ part, part <+: bytes → part ≠ bytes → varintDecode part = none
  /-- Nothing shorter is read as the value. -/
  shortest : ∀ other rest, other.length < varintLen value →
    varintDecode other ≠ some (value, rest)

/-- What is decoded does not depend on the octets that follow it. -/
theorem varintDecode_append (decoded : varintDecode buf = some (value, rest)) (more : Bytes) :
    varintDecode (buf ++ more) = some (value, rest ++ more) := by
  unfold varintDecode at decoded
  split at decoded
  · simp at decoded
  · simp only at decoded
    split at decoded
    all_goals
      simp only [Option.some.injEq, Prod.mk.injEq, reduceCtorEq] at decoded
    all_goals
      obtain ⟨rfl, rfl⟩ := decoded
      simp [varintDecode, *]

theorem octet_lt (shift : UInt64) (fits : shift.toNat + 8 ≤ width) (narrow : shift.toNat < 64) :
    (octet.toUInt64 <<< shift).toNat < 2 ^ width := by
  rw [UInt64.toNat_shiftLeft, Nat.mod_eq_of_lt narrow, Nat.shiftLeft_eq, UInt8.toNat_toUInt64]
  calc octet.toNat * 2 ^ shift.toNat % 2 ^ 64 ≤ octet.toNat * 2 ^ shift.toNat := Nat.mod_le _ _
    _ < 2 ^ 8 * 2 ^ shift.toNat :=
      Nat.mul_lt_mul_of_pos_right octet.toNat_lt (Nat.two_pow_pos _)
    _ = 2 ^ (8 + shift.toNat) := (Nat.pow_add 2 8 _).symm
    _ ≤ 2 ^ width := Nat.pow_le_pow_right (by decide) (by omega)

theorem lowest_lt (fits : 8 ≤ width) :
    octet.toUInt64.toNat < 2 ^ width := by
  rw [UInt8.toNat_toUInt64]
  exact Nat.lt_of_lt_of_le octet.toNat_lt (Nat.pow_le_pow_right (by decide) fits)

theorem top_lt (shift : UInt64) (narrow : shift.toNat + 6 ≤ 64) :
    ((octet &&& 0x3F).toUInt64 <<< shift).toNat < 2 ^ (shift.toNat + 6) := by
  have low : (octet &&& 0x3F).toNat < 64 := by
    rw [UInt8.toNat_and]
    exact Nat.lt_succ_of_le Nat.and_le_right
  rw [UInt64.toNat_shiftLeft, Nat.mod_eq_of_lt (by omega : shift.toNat < 64), Nat.shiftLeft_eq,
    UInt8.toNat_toUInt64, Nat.pow_add, Nat.mul_comm (2 ^ shift.toNat)]
  exact Nat.lt_of_le_of_lt (Nat.mod_le _ _)
    (Nat.mul_lt_mul_of_pos_right low (Nat.two_pow_pos _))

/-- A value with few bits has a short encoding. -/
theorem varintLen_le {len : Nat} (known : len ∈ [1, 2, 4, 8])
    (small : value.toNat < 2 ^ (8 * len - 2)) : varintLen value ≤ len := by
  simp only [List.mem_cons, List.not_mem_nil, or_false] at known
  unfold varintLen
  simp only [UInt64.le_iff_toNat_le, varintMax, UInt64.reduceToNat]
  rcases known with rfl | rfl | rfl | rfl <;> split_ifs <;> omega

/-- Reading a value takes at least as many octets as writing it. -/
theorem varintDecode_len (decoded : varintDecode buf = some (value, rest)) :
    varintLen value + rest.length ≤ buf.length := by
  -- The octets of each length leave room for two bits less than they have.
  suffices ∃ len ∈ [1, 2, 4, 8], value.toNat < 2 ^ (8 * len - 2) ∧
      buf.length = len + rest.length by
    obtain ⟨len, known, small, taken⟩ := this
    have short := varintLen_le known small
    omega
  unfold varintDecode at decoded
  split at decoded
  · simp at decoded
  · simp only at decoded
    split at decoded
    all_goals
      simp only [Option.some.injEq, Prod.mk.injEq, reduceCtorEq] at decoded
    all_goals
      obtain ⟨rfl, rfl⟩ := decoded
    · refine ⟨1, by decide, ?_, by simp; omega⟩
      simpa using top_lt _ 0 (by decide)
    · refine ⟨2, by decide, ?_, by simp; omega⟩
      rw [UInt64.toNat_or]
      exact Nat.or_lt_two_pow (top_lt _ 8 (by decide)) (lowest_lt _ (by decide))
    · refine ⟨4, by decide, ?_, by simp; omega⟩
      simp only [UInt64.toNat_or]
      apply Nat.or_lt_two_pow _ (lowest_lt _ (by decide))
      apply Nat.or_lt_two_pow _ (octet_lt _ 8 (by decide) (by decide))
      apply Nat.or_lt_two_pow _ (octet_lt _ 16 (by decide) (by decide))
      exact top_lt _ 24 (by decide)
    · refine ⟨8, by decide, ?_, by simp; omega⟩
      simp only [UInt64.toNat_or]
      apply Nat.or_lt_two_pow _ (lowest_lt _ (by decide))
      apply Nat.or_lt_two_pow _ (octet_lt _ 8 (by decide) (by decide))
      apply Nat.or_lt_two_pow _ (octet_lt _ 16 (by decide) (by decide))
      apply Nat.or_lt_two_pow _ (octet_lt _ 24 (by decide) (by decide))
      apply Nat.or_lt_two_pow _ (octet_lt _ 32 (by decide) (by decide))
      apply Nat.or_lt_two_pow _ (octet_lt _ 40 (by decide) (by decide))
      apply Nat.or_lt_two_pow _ (octet_lt _ 48 (by decide) (by decide))
      exact top_lt _ 56 (by decide)

theorem ite_room (len bufLen : Nat) (bytes : Bytes) :
    (if bufLen < len then none else some bytes) = if len ≤ bufLen then some bytes else none := by
  simp only [← Nat.not_lt, ite_not]

/-- Room decides whether a value is written, and never which octets it is written as. -/
theorem varintEncode_eq (bounded : value ≤ varintMax) :
    ∃ bytes, bytes.length = varintLen value ∧ ∀ bufLen,
      varintEncode value bufLen = if varintLen value ≤ bufLen then some bytes else none := by
  unfold varintEncode varintLen
  split_ifs
  all_goals
    exact ⟨_, rfl, fun bufLen => ite_room _ bufLen _⟩

/-- Every value below the bound has an encoding that is right, and no other value has any. -/
theorem varint_prefix_code (value : UInt64) :
    (value.toNat < 2 ^ 62 → ∃ bytes, VarintRight value bytes) ∧
      (2 ^ 62 ≤ value.toNat → ∀ bufLen, varintEncode value bufLen = none) := by
  constructor
  · intro small
    have bounded : value ≤ varintMax := by
      rw [UInt64.le_iff_toNat_le]
      simp only [varintMax, UInt64.reduceToNat]
      omega
    obtain ⟨bytes, length_eq, encoded⟩ := varintEncode_eq bounded
    have written := encoded (varintLen value)
    rw [if_pos (Nat.le_refl _)] at written
    have decoded := varintDecode_encode written
    refine ⟨bytes, length_eq, encoded, decoded, ?_, ?_⟩
    · rintro part ⟨tail, rfl⟩ strict
      cases read : varintDecode part with
      | none => rfl
      | some result =>
        -- Reading the part would leave its tail behind when the whole is read.
        have whole := decoded []
        rw [List.append_nil, varintDecode_append read tail] at whole
        simp only [Option.some.injEq, Prod.mk.injEq, List.append_eq_nil_iff] at whole
        simp [whole.2.2] at strict
    · intro other rest shorter read
      have := varintDecode_len read
      omega
  · intro large bufLen
    unfold varintEncode
    simp only [UInt64.le_iff_toNat_le, varintMax, UInt64.reduceToNat]
    split_ifs <;> first | rfl | omega

end Nxp
