import Mathlib.Data.Finset.Card
import Mathlib.Data.List.Pairwise

/-! How many runs of consecutive numbers a finite set consists of. -/

namespace Runs

/-- The numbers whose successor is missing, which are the last ones of the runs. -/
def ends (s : Finset Nat) : Finset Nat := s.filter fun n => n + 1 ∉ s

/-- How many runs of consecutive numbers a set consists of. -/
def count (s : Finset Nat) : Nat := (ends s).card

variable {ι : Type*} {lo hi : ι → Nat} {items : List ι} {s : Finset Nat}

/-- Intervals that leave a gap below each of them end where the runs of their union end. -/
theorem ends_eq (valid : ∀ i ∈ items, lo i ≤ hi i)
    (apart : items.Pairwise fun above below => hi below + 2 ≤ lo above)
    (covers : ∀ n, n ∈ s ↔ ∃ i ∈ items, lo i ≤ n ∧ n ≤ hi i) :
    ends s = (items.map hi).toFinset := by
  -- Two intervals with different ends lie apart in one order or the other.
  have distant : ∀ i ∈ items, ∀ j ∈ items, i ≠ j → hi i + 2 ≤ lo j ∨ hi j + 2 ≤ lo i := by
    have either : items.Pairwise fun i j => hi i + 2 ≤ lo j ∨ hi j + 2 ≤ lo i :=
      apart.imp fun below => .inr below
    have : Std.Symm fun i j => hi i + 2 ≤ lo j ∨ hi j + 2 ≤ lo i := ⟨fun _ _ => Or.symm⟩
    exact fun i one j other => either.forall one other
  ext n
  rw [ends, Finset.mem_filter, covers, covers, List.mem_toFinset, List.mem_map]
  constructor
  · rintro ⟨⟨i, member, starts, within⟩, last⟩
    refine ⟨i, member, ?_⟩
    by_contra differs
    exact last ⟨i, member, by omega, by omega⟩
  · rintro ⟨i, member, rfl⟩
    have ordered := valid i member
    refine ⟨⟨i, member, ordered, Nat.le_refl _⟩, ?_⟩
    rintro ⟨j, other, starts, within⟩
    have different : i ≠ j := by
      rintro rfl
      omega
    have gap := distant i member j other different
    omega

/-- There are as many runs as there are intervals, when these leave gaps between them. -/
theorem count_eq_length (valid : ∀ i ∈ items, lo i ≤ hi i)
    (apart : items.Pairwise fun above below => hi below + 2 ≤ lo above)
    (covers : ∀ n, n ∈ s ↔ ∃ i ∈ items, lo i ≤ n ∧ n ≤ hi i) : count s = items.length := by
  have distinct : (items.map hi).Nodup := by
    rw [List.Nodup, List.pairwise_map]
    refine apart.imp_of_mem fun {above below} higher _ gap same => ?_
    have ordered := valid above higher
    omega
  rw [count, ends_eq valid apart covers, List.toFinset_card_of_nodup distinct, List.length_map]

example : count {0, 1, 2, 5, 8, 9} = 3 := by decide

end Runs
