import Mathlib.Algebra.Order.Ring.Nat
import Mathlib.Data.List.Basic

/-! Binary heaps in the order of their levels, with one entry that may be out of order. -/

namespace Heap

variable {α β : Type*} [LinearOrder α] {key : β → α} {l : List β} {i : Nat} {e p : β}

/-- No entry comes before its parent. -/
def Ordered (key : β → α) (l : List β) : Prop :=
  ∀ ⦃i e p⦄, 0 < i → l[i]? = some e → l[(i - 1) / 2]? = some p → key p ≤ key e

/-- No entry but one comes before its parent, and its children do not come before its parent. -/
structure UpTo (key : β → α) (l : List β) (hole : Nat) : Prop where
  except : ∀ {i e p}, 0 < i → i ≠ hole → l[i]? = some e → l[(i - 1) / 2]? = some p → key p ≤ key e
  grand : ∀ {i e p}, 0 < hole → 0 < i → (i - 1) / 2 = hole → l[i]? = some e →
    l[(hole - 1) / 2]? = some p → key p ≤ key e

/-- No entry comes before its parent but the children of one, and they do not come before its
parent. -/
structure DownFrom (key : β → α) (l : List β) (hole : Nat) : Prop where
  except : ∀ {i e p}, 0 < i → (i - 1) / 2 ≠ hole → l[i]? = some e → l[(i - 1) / 2]? = some p →
    key p ≤ key e
  grand : ∀ {i e p}, 0 < hole → 0 < i → (i - 1) / 2 = hole → l[i]? = some e →
    l[(hole - 1) / 2]? = some p → key p ≤ key e

/-- Two entries change places. -/
def swap (l : List β) (i j : Nat) (atI atJ : β) : List β := (l.set i atJ).set j atI

theorem swap_perm {j : Nat} (there : l[i]? = some e) (other : l[j]? = some p) :
    (swap l i j e p).Perm l := by
  obtain ⟨inside, rfl⟩ := List.getElem?_eq_some_iff.mp there
  obtain ⟨within, rfl⟩ := List.getElem?_eq_some_iff.mp other
  exact List.set_set_perm inside within

theorem getElem?_swap {j k : Nat} {q : β} (found : (swap l i j e p)[k]? = some q) :
    k = j ∧ q = e ∨ k = i ∧ k ≠ j ∧ q = p ∨ k ≠ i ∧ k ≠ j ∧ l[k]? = some q := by
  unfold swap at found
  grind

/-- The root of an ordered heap comes first. -/
theorem Ordered.root_le (ordered : Ordered key l) {root : β} (first : l[0]? = some root)
    (there : l[i]? = some e) : key root ≤ key e := by
  -- Up from the entry to the root, parent by parent.
  induction i using Nat.strongRecOn generalizing e with
  | _ i ih =>
    rcases Nat.eq_zero_or_pos i with rfl | positive
    · rw [first] at there
      cases there
      exact le_refl _
    · have inside : (i - 1) / 2 < l.length := by
        have := (List.getElem?_eq_some_iff.mp there).1
        omega
      have above := List.getElem?_eq_getElem inside
      exact le_trans (ih _ (by omega) above) (ordered positive there above)

namespace UpTo

/-- A heap is ordered once the entry has reached the root or does not come before its parent. -/
theorem ordered (upTo : UpTo key l i)
    (stop : 0 < i → ∀ {e p}, l[i]? = some e → l[(i - 1) / 2]? = some p → key p ≤ key e) :
    Ordered key l := by
  intro j e p positive there above
  by_cases same : j = i
  · subst same
    exact stop positive there above
  · exact upTo.except positive same there above

/-- An entry behind an ordered heap may be out of order. -/
theorem append (ordered : Ordered key l) (e : β) : UpTo key (l ++ [e]) l.length := by
  constructor
  · intro j q r positive other there above
    have inside := (List.getElem?_eq_some_iff.mp there).1
    rw [List.length_append, List.length_singleton] at inside
    rw [List.getElem?_append_left (by omega)] at there above
    exact ordered positive there above
  · intro j q r _ positive child there above
    have inside := (List.getElem?_eq_some_iff.mp there).1
    rw [List.length_append, List.length_singleton] at inside
    omega

/-- An entry that comes before its parent takes its place. -/
theorem step (upTo : UpTo key l i) (positive : 0 < i) (there : l[i]? = some e)
    (above : l[(i - 1) / 2]? = some p) (less : key e < key p) :
    UpTo key (swap l ((i - 1) / 2) i p e) ((i - 1) / 2) := by
  -- Each of the two entries that are compared may have been moved.
  constructor
  · intro j q r pos other found up
    rcases getElem?_swap found with ⟨rfl, rfl⟩ | ⟨here, -⟩ | ⟨-, apart, kept⟩
    · rcases getElem?_swap up with ⟨index, -⟩ | ⟨-, -, rfl⟩ | ⟨index, -⟩
      · omega
      · exact le_of_lt less
      · exact absurd rfl index
    · exact absurd here other
    · rcases getElem?_swap up with ⟨index, rfl⟩ | ⟨index, -, rfl⟩ | ⟨-, -, up⟩
      · exact upTo.grand positive pos index kept above
      · exact le_trans (le_of_lt less) (upTo.except pos apart kept (index ▸ above))
      · exact upTo.except pos apart kept up
  · intro j q r deep pos child found up
    have far : (i - 1) / 2 ≠ i := by omega
    rcases getElem?_swap up with ⟨index, -⟩ | ⟨index, -⟩ | ⟨-, -, up⟩
    · omega
    · omega
    · have high := upTo.except deep far above up
      rcases getElem?_swap found with ⟨-, rfl⟩ | ⟨index, -⟩ | ⟨-, apart, found⟩
      · exact high
      · omega
      · exact le_trans high (upTo.except pos apart found (child ▸ above))

end UpTo

namespace DownFrom

/-- A heap is ordered once no child of the entry comes before it. -/
theorem ordered (downFrom : DownFrom key l i)
    (stop : ∀ {j e p}, 0 < j → (j - 1) / 2 = i → l[j]? = some e → l[i]? = some p → key p ≤ key e) :
    Ordered key l := by
  intro j e p positive there above
  by_cases same : (j - 1) / 2 = i
  · exact stop positive same there (same ▸ above)
  · exact downFrom.except positive same there above

/-- An ordered heap without its last entry, which takes the place of the root. -/
theorem root (ordered : Ordered key (l ++ [e])) : DownFrom key (l.set 0 e) 0 := by
  refine ⟨fun {j q r} positive deep there above => ?_, fun none => absurd none (Nat.lt_irrefl 0)⟩
  rw [List.getElem?_set_ne (by omega)] at there above
  have inside := (List.getElem?_eq_some_iff.mp there).1
  have within := (List.getElem?_eq_some_iff.mp above).1
  refine ordered positive (by rwa [List.getElem?_append_left inside]) ?_
  rwa [List.getElem?_append_left within]

/-- The child that comes first takes the place of an entry behind it. -/
theorem step (downFrom : DownFrom key l i) {c : Nat} (positive : 0 < c) (child : (c - 1) / 2 = i)
    (there : l[i]? = some p) (below : l[c]? = some e) (less : key e < key p)
    (first : ∀ {j q}, 0 < j → (j - 1) / 2 = i → l[j]? = some q → key e ≤ key q) :
    DownFrom key (swap l i c p e) c := by
  constructor
  · intro j q r pos other found up
    rcases getElem?_swap found with ⟨rfl, rfl⟩ | ⟨rfl, -, rfl⟩ | ⟨-, -, kept⟩
    · rcases getElem?_swap up with ⟨index, -⟩ | ⟨-, -, rfl⟩ | ⟨index, -⟩
      · omega
      · exact le_of_lt less
      · exact absurd child index
    · rcases getElem?_swap up with ⟨index, -⟩ | ⟨index, -⟩ | ⟨-, -, up⟩
      · omega
      · omega
      · exact downFrom.grand pos positive child below up
    · rcases getElem?_swap up with ⟨index, -⟩ | ⟨index, -, rfl⟩ | ⟨index, -, up⟩
      · exact absurd index other
      · exact first pos index kept
      · exact downFrom.except pos index kept up
  · intro j q r deep pos inner found up
    rcases getElem?_swap up with ⟨index, -⟩ | ⟨-, -, rfl⟩ | ⟨index, -⟩
    · omega
    · rcases getElem?_swap found with ⟨index, -⟩ | ⟨index, -⟩ | ⟨-, -, found⟩
      · omega
      · omega
      · exact downFrom.except pos (by omega) found (inner ▸ below)
    · exact absurd child index

end DownFrom

end Heap
