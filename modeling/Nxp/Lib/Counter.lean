import Mathlib.Algebra.Order.Ring.Nat
import Mathlib.Data.List.Nodup

/-! Numbers issued by a counter of sixty-four bits that starts from zero. -/

namespace Counter

variable {issued : List UInt64} {next : UInt64} {calls : Nat}

/-- What a counter has issued after some number of calls: ever larger numbers, all below the next.
-/
structure Issued (issued : List UInt64) (next : UInt64) (calls : Nat) : Prop where
  increasing : issued.Pairwise (· < ·)
  below : ∀ number ∈ issued, number < next
  bounded : next.toNat ≤ calls

/-- A counter that was never called has issued nothing. -/
theorem Issued.start : Issued [] 0 0 := ⟨List.Pairwise.nil, by simp, Nat.le_refl 0⟩

/-- A call that moves the counter does not wrap it around while there are few calls. -/
theorem toNat_succ (state : Issued issued next calls) (few : calls + 1 < 2 ^ 64) :
    (next + 1).toNat = next.toNat + 1 := by
  have bounded := state.bounded
  rw [UInt64.toNat_add, UInt64.toNat_one, Nat.mod_eq_of_lt (by omega)]

/-- A call may issue nothing. -/
theorem Issued.wait {more : Nat} (state : Issued issued next calls) :
    Issued issued next (calls + more) :=
  ⟨state.increasing, state.below, Nat.le_add_right_of_le state.bounded⟩

/-- A call may move the counter and issue nothing. -/
theorem Issued.skip (state : Issued issued next calls) (few : calls + 1 < 2 ^ 64) :
    Issued issued (next + 1) (calls + 1) := by
  have moved := toNat_succ state few
  refine ⟨state.increasing, fun number member => ?_, ?_⟩
  · have below := UInt64.lt_iff_toNat_lt.mp (state.below number member)
    rw [UInt64.lt_iff_toNat_lt]
    omega
  · have bounded := state.bounded
    omega

/-- A call may issue the next number. -/
theorem Issued.issue (state : Issued issued next calls) (few : calls + 1 < 2 ^ 64) :
    Issued (issued ++ [next]) (next + 1) (calls + 1) := by
  have moved := toNat_succ state few
  have skipped := state.skip few
  refine ⟨?_, ?_, skipped.bounded⟩
  · rw [List.pairwise_append]
    refine ⟨state.increasing, List.pairwise_singleton _ _, fun number member other => ?_⟩
    rw [List.mem_singleton]
    rintro rfl
    exact state.below number member
  · intro number member
    rcases List.mem_append.mp member with earlier | latest
    · exact skipped.below number earlier
    · rw [List.mem_singleton.mp latest, UInt64.lt_iff_toNat_lt]
      omega

/-- What is made of the numbers of a counter repeats once the counter has gone around. -/
theorem not_nodup_of_many {α : Type*} (make : UInt64 → α) (earlier : List α) (start : UInt64)
    (many : 2 ^ 64 < calls) :
    ¬ (earlier ++ (List.range calls).map fun i => make (start + UInt64.ofNat i)).Nodup := by
  intro nodup
  have inside := (List.nodup_append.mp nodup).2.1
  have around : (0 : Nat) = 2 ^ 64 :=
    List.inj_on_of_nodup_map inside (List.mem_range.mpr (by omega)) (List.mem_range.mpr many) rfl
  exact absurd around (by decide)

end Counter
