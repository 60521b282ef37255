import Nxp.Types

/-! Variable-length integers: two length bits and then six, fourteen, thirty or sixty-two more. -/

namespace Nxp

/-- The largest value that can be encoded. -/
def varintMax : UInt64 := 4611686018427387903

/-- Encoded length of a value, zero when it is too large. -/
def varintLen (value : UInt64) : Nat :=
  if value ≤ 63 then 1
  else if value ≤ 16383 then 2
  else if value ≤ 1073741823 then 4
  else if value ≤ varintMax then 8
  else 0

/-- Octet of a value at a bit position. -/
def octetAt (value shift : UInt64) : UInt8 := (value >>> shift).toUInt8

/-- Encode a value into a buffer with this much room left. -/
def varintEncode (value : UInt64) (bufLen : Nat) : Option Bytes :=
  if value ≤ 63 then
    if bufLen < 1 then none else some [value.toUInt8]
  else if value ≤ 16383 then
    if bufLen < 2 then none else some [0x40 ||| octetAt value 8, octetAt value 0]
  else if value ≤ 1073741823 then
    if bufLen < 4 then none
    else some [0x80 ||| octetAt value 24, octetAt value 16, octetAt value 8, octetAt value 0]
  else if value ≤ varintMax then
    if bufLen < 8 then none
    else some [0xC0 ||| octetAt value 56, octetAt value 48, octetAt value 40, octetAt value 32,
      octetAt value 24, octetAt value 16, octetAt value 8, octetAt value 0]
  else none

/-- Decode a value from the front of a buffer, returning what follows it. -/
def varintDecode (buf : Bytes) : Option (UInt64 × Bytes) :=
  -- The two top bits of the first octet choose the length.
  match buf with
  | [] => none
  | b0 :: rest =>
    let top := (b0 &&& 0x3F).toUInt64
    match (b0 >>> 6).toNat, rest with
    | 0, rest => some (top, rest)
    | 1, b1 :: rest => some ((top <<< 8) ||| b1.toUInt64, rest)
    | 2, b1 :: b2 :: b3 :: rest =>
      some ((top <<< 24) ||| (b1.toUInt64 <<< 16) ||| (b2.toUInt64 <<< 8) ||| b3.toUInt64, rest)
    | 3, b1 :: b2 :: b3 :: b4 :: b5 :: b6 :: b7 :: rest =>
      some ((top <<< 56) ||| (b1.toUInt64 <<< 48) ||| (b2.toUInt64 <<< 40) |||
        (b3.toUInt64 <<< 32) ||| (b4.toUInt64 <<< 24) ||| (b5.toUInt64 <<< 16) |||
        (b6.toUInt64 <<< 8) ||| b7.toUInt64, rest)
    | _, _ => none

/-- An encoding is never empty and never longer than the room it was given. -/
theorem varintEncode_length {value : UInt64} {bufLen : Nat} {bytes : Bytes}
    (encoded : varintEncode value bufLen = some bytes) :
    1 ≤ bytes.length ∧ bytes.length ≤ bufLen := by
  -- Each of the four lengths is checked against the room before its octets are written.
  unfold varintEncode at encoded
  split_ifs at encoded <;> simp only [Option.some.injEq] at encoded <;>
    subst encoded <;> simp only [List.length_cons, List.length_nil] <;> omega

/-- Decoding takes at least one octet from the front of the buffer. -/
theorem varintDecode_shorter {buf rest : Bytes} {value : UInt64}
    (decoded : varintDecode buf = some (value, rest)) : rest.length < buf.length := by
  -- Every successful case drops the first octet and the ones that belong to it.
  unfold varintDecode at decoded
  split at decoded
  · simp at decoded
  · simp only at decoded
    split at decoded <;> simp at decoded <;> obtain ⟨-, rfl⟩ := decoded <;>
      simp only [List.length_cons] <;> omega

end Nxp
