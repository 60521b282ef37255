import Mathlib.Data.Nat.ModEq

/-! Places pointed to in turn by a counter that wraps around, reduced modulo how many there are. -/

namespace Turns

/-- The place pointed to some turns after a start, by a counter that wraps at a bound. -/
def place (wrap size start turn : Nat) : Nat := (start + turn) % wrap % size

variable {wrap size start : Nat}

/-- A counter that is read without its wrapping comes by every place. -/
theorem exists_turn {i : Nat} (inside : i < size) : ∃ turn < size, (start + turn) % size = i := by
  -- The turn makes up for the place the counter starts at.
  have behind := Nat.mod_lt start (Nat.zero_lt_of_lt inside)
  refine ⟨(i + (size - start % size)) % size, Nat.mod_lt _ (by omega), ?_⟩
  rw [Nat.add_mod_mod, ← Nat.mod_add_mod, ← Nat.add_assoc, Nat.add_comm (start % size) i,
    Nat.add_assoc, Nat.add_sub_cancel' behind.le, Nat.add_mod_right, Nat.mod_eq_of_lt inside]

/-- A place that is left out when the counter wraps on the way and places do not divide the bound.
-/
def skipped (wrap size start : Nat) : Nat :=
  if wrap - start ≤ wrap % size then size - 1 else size - (wrap - start) + wrap % size - 1

/-- No turn points to the place that is left out. -/
theorem place_ne_skipped (below : start < wrap) (fits : size ≤ wrap) (wraps : wrap < start + size)
    (rest : 0 < wrap % size) {turn : Nat} (early : turn < size) :
    place wrap size start turn ≠ skipped wrap size start := by
  have small := Nat.mod_lt wrap (Nat.zero_lt_of_lt early)
  have whole := Nat.div_add_mod wrap size
  unfold place skipped
  rcases Nat.lt_or_ge (start + turn) wrap with before | after
  · -- Before it wraps, the counter is some steps short of the bound.
    rw [Nat.mod_eq_of_lt before]
    rcases Nat.lt_or_ge (wrap % size) (wrap - (start + turn)) with far | near
    · obtain ⟨rounds, again⟩ : ∃ rounds, wrap / size = rounds + 1 :=
        Nat.exists_eq_succ_of_ne_zero (Nat.div_pos fits (by omega)).ne'
      rw [again, Nat.mul_succ] at whole
      have split : start + turn =
          size * rounds + (size + wrap % size - (wrap - (start + turn))) := by omega
      rw [split, Nat.mul_add_mod, Nat.mod_eq_of_lt (by omega)]
      split <;> omega
    · have split : start + turn = size * (wrap / size) + (wrap % size - (wrap - (start + turn))) := by
        omega
      rw [split, Nat.mul_add_mod, Nat.mod_eq_of_lt (by omega)]
      split <;> omega
  · -- Afterwards it counts from zero.
    have past : (start + turn) % wrap = start + turn - wrap := by
      rw [Nat.mod_eq_sub_mod after]
      exact Nat.mod_eq_of_lt (by omega)
    have within : start + turn - wrap < size := by omega
    rw [past, Nat.mod_eq_of_lt within]
    split <;> omega

/-- As many turns as there are places come by all of them exactly if the counter does not wrap on
the way or the places divide the bound it wraps at. -/
theorem place_all_iff (below : start < wrap) (fits : size ≤ wrap) :
    (∀ i < size, ∃ turn < size, place wrap size start turn = i) ↔
      start + size ≤ wrap ∨ size ∣ wrap := by
  constructor
  · intro all
    by_contra neither
    rw [not_or, not_le, Nat.dvd_iff_mod_eq_zero] at neither
    have rest : 0 < wrap % size := Nat.pos_of_ne_zero neither.2
    have small : wrap % size < size := Nat.mod_lt wrap (by omega)
    have inside : skipped wrap size start < size := by
      unfold skipped
      split <;> omega
    obtain ⟨turn, early, here⟩ := all _ inside
    exact place_ne_skipped below fits neither.1 rest early here
  · intro either i inside
    obtain ⟨turn, early, here⟩ := @exists_turn size start i inside
    refine ⟨turn, early, ?_⟩
    unfold place
    rcases either with straight | divides
    · have unwrapped : (start + turn) % wrap = start + turn := Nat.mod_eq_of_lt (by omega)
      rw [unwrapped, here]
    · rw [Nat.mod_mod_of_dvd _ divides, here]

end Turns
