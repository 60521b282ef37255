import Mathlib.Data.List.Basic

/-! Readers that take a value from the front of a list: what they take, and how much they leave. -/

namespace Codec

variable {α β γ : Type} {count : Nat} {condition : Prop}

/-- A reader's result leaves no more than this many elements. -/
def Leaves (count : Nat) (result : Option (α × List β)) : Prop :=
  ∀ value rest, result = some (value, rest) → rest.length ≤ count

/-- A failed reader leaves nothing to bound. -/
theorem Leaves.none : Leaves count (none : Option (α × List β)) :=
  fun _ _ failed => by simp at failed

/-- A successful reader leaves what it returns. -/
theorem Leaves.some {value : α} {rest : List β} (bounded : rest.length ≤ count) :
    Leaves count (some (value, rest)) := by
  -- The returned remainder is the one that was bounded.
  intro value' rest' same
  simp only [Option.some.injEq, Prod.mk.injEq] at same
  rw [← same.2]
  exact bounded

/-- Readers in sequence leave no more than the bound each of them keeps. -/
theorem Leaves.bind {first : Option (α × List β)}
    {second : α × List β → Option (γ × List β)} (head : Leaves count first)
    (tail : ∀ value rest, rest.length ≤ count → Leaves count (second (value, rest))) :
    Leaves count (first >>= second) := by
  -- The second reader runs only on what the first one left.
  intro value rest success
  cases read : first with
  | none => simp [read] at success
  | some pair =>
    obtain ⟨between, middle⟩ := pair
    rw [read] at success
    exact tail between middle (head between middle read) value rest success

/-- A choice between readers is bounded when both are. -/
theorem Leaves.ite [Decidable condition]
    {yes no : Option (α × List β)} (left : condition → Leaves count yes)
    (right : ¬ condition → Leaves count no) : Leaves count (if condition then yes else no) := by
  by_cases holds : condition
  · rw [if_pos holds]
    exact left holds
  · rw [if_neg holds]
    exact right holds

/-- A choice that remembers its outcome is bounded when both readers are. -/
theorem Leaves.dite [Decidable condition]
    {yes : condition → Option (α × List β)} {no : ¬ condition → Option (α × List β)}
    (left : ∀ holds, Leaves count (yes holds)) (right : ∀ fails, Leaves count (no fails)) :
    Leaves count (if holds : condition then yes holds else no holds) := by
  by_cases holds : condition
  · rw [dif_pos holds]
    exact left holds
  · rw [dif_neg holds]
    exact right holds

/-- A reader takes from the front exactly what a writer puts there. -/
def Exact (read : List β → Option (α × List β)) (write : α → List β) : Prop :=
  ∀ buf value rest, read buf = some (value, rest) ↔ buf = write value ++ rest

section Exact

variable {read : List β → Option (α × List β)} {write : α → List β}

/-- What was written is read back. -/
theorem Exact.reads (faithful : Exact read write) (value : α) (rest : List β) :
    read (write value ++ rest) = some (value, rest) :=
  (faithful _ value rest).mpr rfl

/-- Reading goes on behind what the first reader took. -/
theorem Exact.bind_iff (faithful : Exact read write) {next : α × List β → Option γ} {buf : List β}
    {result : γ} : (read buf >>= next) = some result ↔
      ∃ value rest, buf = write value ++ rest ∧ next (value, rest) = some result := by
  rw [Option.bind_eq_bind, Option.bind_eq_some_iff]
  constructor
  · rintro ⟨⟨value, rest⟩, found, goesOn⟩
    exact ⟨value, rest, (faithful _ _ _).mp found, goesOn⟩
  · rintro ⟨value, rest, rfl, goesOn⟩
    exact ⟨(value, rest), faithful.reads value rest, goesOn⟩

end Exact

end Codec
