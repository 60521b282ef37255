import Mathlib.Data.Nat.Basic
import Mathlib.Algebra.Order.Group.Nat

/-! Numbers as octets, the least significant first. -/

namespace LittleEndian

/-- The low octets of a number. -/
def octets : Nat → Nat → List UInt8
  | 0, _ => []
  | width + 1, value => UInt8.ofNat value :: octets width (value / 256)

/-- The number some octets stand for. -/
def value : List UInt8 → Nat
  | [] => 0
  | octet :: rest => octet.toNat + 256 * value rest

/-- As many octets are made as were asked for. -/
@[simp] theorem length_octets (width number : Nat) : (octets width number).length = width := by
  induction width generalizing number with
  | zero => rfl
  | succ width ih => rw [octets, List.length_cons, ih]

/-- A number is taken back from enough octets. -/
theorem value_octets {width number : Nat} (bounded : number < 256 ^ width) :
    value (octets width number) = number := by
  induction width generalizing number with
  | zero =>
    rw [Nat.pow_zero] at bounded
    rw [octets, value]
    omega
  | succ width ih =>
    have rest : number / 256 < 256 ^ width :=
      Nat.div_lt_of_lt_mul (by rw [Nat.pow_succ'] at bounded; exact bounded)
    rw [octets, value, ih rest, UInt8.toNat_ofNat']
    omega

/-- Octets stand for less than a number with one digit more. -/
theorem value_lt (digits : List UInt8) : value digits < 256 ^ digits.length := by
  induction digits with
  | nil => exact Nat.one_pos
  | cons octet rest ih =>
    have low := octet.toNat_lt
    rw [value, List.length_cons, Nat.pow_succ']
    omega

/-- Octets are made again from the number they stand for. -/
theorem octets_value (digits : List UInt8) : octets digits.length (value digits) = digits := by
  induction digits with
  | nil => rfl
  | cons octet rest ih =>
    -- The first octet is the low digit, and division removes it.
    have low := octet.toNat_lt
    have quotient : (octet.toNat + 256 * value rest) / 256 = value rest := by omega
    have remainder : UInt8.ofNat (octet.toNat + 256 * value rest) = octet := by
      apply UInt8.toNat_inj.mp
      rw [UInt8.toNat_ofNat']
      omega
    rw [value, List.length_cons, octets, quotient, remainder, ih]

end LittleEndian
