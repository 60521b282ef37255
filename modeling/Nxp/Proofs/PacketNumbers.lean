import Nxp.Core.PacketLaws

/-! A packet number sent in as few octets as its sender chooses is told from them. -/

namespace Nxp

theorem pktNumLen_window {largest pktNum : UInt64} (later : largest < pktNum)
    (near : pktNum.toNat - largest.toNat < 2 ^ 31) :
    pktNum.toNat < largest.toNat + 256 ^ pktNumLen pktNum largest / 2 := by
  rw [UInt64.lt_iff_toNat_lt] at later
  have distance : (pktNum - largest).toNat = pktNum.toNat - largest.toNat :=
    UInt64.toNat_sub_of_le _ _ (UInt64.le_iff_toNat_le.mpr (Nat.le_of_lt later))
  -- The length grows with the distance, and each window is twice what it is chosen for.
  unfold pktNumLen
  simp only [UInt64.lt_iff_toNat_lt, distance, UInt64.reduceToNat]
  split_ifs <;> omega

theorem pktDecodePktNum_window {largest pktNum truncated : UInt64} {pnLen : Nat}
    (positive : 1 ≤ pnLen) (short : pnLen ≤ 4)
    (octets : truncated.toNat = pktNum.toNat % 256 ^ pnLen) (bounded : pktNum.toNat < 2 ^ 62)
    (above : largest.toNat + 1 < pktNum.toNat + 256 ^ pnLen / 2)
    (below : pktNum.toNat ≤ largest.toNat + 1 + 256 ^ pnLen / 2) :
    pktDecodePktNum largest truncated pnLen = pktNum := by
  obtain ⟨half, double, small, -⟩ := pktNumWindow positive short
  have inside : truncated.toNat < 256 ^ pnLen := by
    rw [octets]
    exact Nat.mod_lt _ (Nat.pow_pos (by decide))
  rw [← UInt64.toNat_inj, pktDecodePktNum_toNat positive short inside (by omega) rfl, octets]
  -- The number lies in the block of the expected one or in one of the two next to it.
  have sizes : pnLen = 1 ∨ pnLen = 2 ∨ pnLen = 3 ∨ pnLen = 4 := by omega
  rcases sizes with rfl | rfl | rfl | rfl <;>
  · simp only [Nat.reducePow, Nat.reduceDiv] at above below ⊢
    split_ifs <;> omega

/-- Whoever knows at least as much as the sender assumed, and has not moved on by half a window,
tells a number from the octets its sender chose. -/
theorem pktNum_codec (largest pktNum known : UInt64) (later : largest < pktNum)
    (bounded : pktNum.toNat < 2 ^ 62) (near : pktNum.toNat - largest.toNat < 2 ^ 31)
    (least : largest ≤ known)
    (most : known.toNat ≤ pktNum.toNat + 2 ^ (8 * pktNumLen pktNum largest - 1) - 2) :
    pktDecodePktNum known (UInt64.ofNat (pktNum.toNat % 2 ^ (8 * pktNumLen pktNum largest)))
      (pktNumLen pktNum largest) = pktNum := by
  obtain ⟨positive, short⟩ := pktNumLen_bounds pktNum largest
  have window := pktNumLen_window later near
  rw [UInt64.le_iff_toNat_le] at least
  generalize pktNumLen pktNum largest = len at *
  have power : (2 : Nat) ^ (8 * len) = 256 ^ len := by rw [Nat.pow_mul]
  have halved : (2 : Nat) ^ (8 * len - 1) = 256 ^ len / 2 := by
    rw [← power, ← Nat.pow_div (by omega) (by decide)]
  have wide : 256 ≤ 256 ^ len := Nat.le_self_pow (by omega) 256
  rw [power]
  rw [halved] at most
  refine pktDecodePktNum_window positive short ?_ bounded (by omega) (by omega)
  rw [UInt64.toNat_ofNat', Nat.mod_eq_of_lt]
  exact Nat.lt_of_le_of_lt (Nat.mod_le _ _) (by omega)

/-- The last number that can be sent is told from its last octet by a receiver beyond it. -/
theorem pktNum_codec_last :
    pktNumLen 0x3FFFFFFFFFFFFFFF 0x3FFFFFFFFFFFFFF0 = 1 ∧
    pktDecodePktNum 0x400000000000007D (UInt64.ofNat (0x3FFFFFFFFFFFFFFF % 2 ^ 8)) 1 =
      0x3FFFFFFFFFFFFFFF :=
  ⟨by decide, pktNum_codec 0x3FFFFFFFFFFFFFF0 0x3FFFFFFFFFFFFFFF 0x400000000000007D (by decide)
    (by decide) (by decide) (by decide) (by decide)⟩

end Nxp
