import Mathlib.Order.Nat
import Nxp.Lib.Heap

/-! The priority queue: a binary heap in an array that doubles when it is full. -/

namespace Nxp

open Heap

variable {V : Type}

/-- A value with the key it is ordered by. -/
structure PqEntry (V : Type) where
  key : UInt64
  value : V

/-- A queue with the entries that are counted. -/
structure PriorityQueue (V : Type) where
  entries : List (PqEntry V)
  capacity : UInt32

/-- Move an entry up as long as its key is smaller than its parent's. -/
def siftUp (entries : List (PqEntry V)) (idx : Nat) : List (PqEntry V) :=
  if _positive : idx > 0 then
    let parent := (idx - 1) / 2
    match entries[parent]?, entries[idx]? with
    | some above, some entry =>
      if above.key ≤ entry.key then entries
      else siftUp (swap entries parent idx above entry) parent
    | _, _ => entries
  else entries
termination_by idx
decreasing_by omega

/-- The candidate if it is counted and its key is smaller. -/
def smallerOf (entries : List (PqEntry V)) (smallest candidate : Nat) : Nat :=
  match entries[candidate]?, entries[smallest]? with
  | some other, some entry => if other.key < entry.key then candidate else smallest
  | _, _ => smallest

theorem smallerOf_cases (entries : List (PqEntry V)) (smallest candidate : Nat) :
    smallerOf entries smallest candidate = smallest ∨
      smallerOf entries smallest candidate = candidate ∧ candidate < entries.length := by
  unfold smallerOf
  split
  · rename_i there _
    split
    · exact .inr ⟨rfl, (List.getElem?_eq_some_iff.mp there).1⟩
    · exact .inl rfl
  · exact .inl rfl

/-- The smallest of an entry and its children. -/
def smallestOf (entries : List (PqEntry V)) (idx : Nat) : Nat :=
  smallerOf entries (smallerOf entries idx (2 * idx + 1)) (2 * idx + 2)

theorem smallestOf_child {entries : List (PqEntry V)} {idx : Nat}
    (moves : smallestOf entries idx ≠ idx) :
    idx = (smallestOf entries idx - 1) / 2 ∧ idx < smallestOf entries idx ∧
      smallestOf entries idx < entries.length := by
  unfold smallestOf at moves ⊢
  rcases smallerOf_cases entries (smallerOf entries idx (2 * idx + 1)) (2 * idx + 2) with
    same | ⟨same, inside⟩ <;> rw [same] at moves ⊢
  · rcases smallerOf_cases entries idx (2 * idx + 1) with same | ⟨same, inside⟩
    · exact absurd same moves
    · omega
  · omega

/-- Move an entry down as long as a child's key is smaller. -/
def siftDown (entries : List (PqEntry V)) (idx : Nat) : List (PqEntry V) :=
  if _settled : smallestOf entries idx = idx then entries
  else
    match entries[idx]?, entries[smallestOf entries idx]? with
    | some entry, some child =>
      siftDown (swap entries idx (smallestOf entries idx) entry child) (smallestOf entries idx)
    | _, _ => entries
termination_by entries.length - idx
decreasing_by
  have := smallestOf_child _settled
  simp only [swap, List.length_set]
  omega

/-- A queue with room for at least so many entries. -/
def pqCreate (initialCapacity : UInt32) : PriorityQueue V :=
  ⟨[], if initialCapacity < 16 then 16 else initialCapacity⟩

/-- Add an entry, unless the array is full and no larger one is allocated; nothing is returned when
a slot outside the array is written. -/
def pqPush (allocated : Bool) (pq : PriorityQueue V) (key : UInt64) (value : V) :
    Option (Bool × PriorityQueue V) :=
  let full : Prop := pq.capacity.toNat ≤ pq.entries.length
  if full ∧ !allocated then some (false, pq)
  else
    let capacity := if full then pq.capacity * 2 else pq.capacity
    if pq.entries.length < capacity.toNat then
      some (true, ⟨siftUp (pq.entries ++ [⟨key, value⟩]) pq.entries.length, capacity⟩)
    else none

/-- The entry with the smallest key. -/
def pqPeek (pq : PriorityQueue V) : Option (PqEntry V) := pq.entries.head?

/-- Take the entry with the smallest key, the last one going to its place. -/
def pqPop (pq : PriorityQueue V) : Option (PqEntry V × PriorityQueue V) :=
  match pq.entries.head?, pq.entries.getLast? with
  | some first, some last =>
    let kept := pq.entries.dropLast
    let entries := if kept.length > 0 then siftDown (kept.set 0 last) 0 else kept
    some (first, { pq with entries := entries })
  | _, _ => none

variable {entries : List (PqEntry V)} {idx : Nat} {pq : PriorityQueue V}

/-- Order of the entries. -/
def PqEntry.rank (entry : PqEntry V) : Nat := entry.key.toNat

/-- Sifting up restores the heap order. -/
theorem siftUp_ordered (upTo : UpTo PqEntry.rank entries idx) :
    Ordered PqEntry.rank (siftUp entries idx) ∧ (siftUp entries idx).Perm entries := by
  fun_induction siftUp with
  | case1 entries idx positive parent above entry there up keeps =>
    refine ⟨upTo.ordered fun _ {e p} here upper => ?_, .refl _⟩
    cases here.symm.trans there
    cases upper.symm.trans up
    exact UInt64.le_iff_toNat_le.mp keeps
  | case2 entries idx positive parent above entry there up less ih =>
    have before : entry.rank < above.rank := UInt64.lt_iff_toNat_lt.mp (UInt64.not_le.mp less)
    obtain ⟨ordered, perm⟩ := ih (upTo.step positive there up before)
    exact ⟨ordered, perm.trans (swap_perm up there)⟩
  | case3 entries idx positive parent outside =>
    exact ⟨upTo.ordered fun _ _ _ here up => (outside _ _ up here).elim, .refl _⟩
  | case4 entries idx root => exact ⟨upTo.ordered fun positive => absurd positive root, .refl _⟩

/-- Of two entries the smaller is chosen, and another one only if it is smaller. -/
theorem smallerOf_spec {smallest candidate : Nat} {s : PqEntry V}
    (there : entries[smallest]? = some s) :
    ∃ m, entries[smallerOf entries smallest candidate]? = some m ∧ m.rank ≤ s.rank ∧
      (∀ c, entries[candidate]? = some c → m.rank ≤ c.rank) ∧
      (smallerOf entries smallest candidate ≠ smallest → m.rank < s.rank) := by
  unfold smallerOf
  rw [there]
  split
  · rename_i other entry found same
    cases same
    split
    · rename_i less
      have before : other.rank < s.rank := UInt64.lt_iff_toNat_lt.mp less
      refine ⟨other, found, Nat.le_of_lt before, fun c here => ?_, fun _ => before⟩
      cases found.symm.trans here
      exact Nat.le_refl _
    · rename_i notLess
      refine ⟨s, there, Nat.le_refl _, fun c here => ?_, fun moved => absurd rfl moved⟩
      cases found.symm.trans here
      exact UInt64.le_iff_toNat_le.mp (UInt64.not_lt.mp notLess)
  · rename_i outside
    exact ⟨s, there, Nat.le_refl _, fun c here => (outside c s here rfl).elim,
      fun moved => absurd rfl moved⟩

theorem smallestOf_spec {p : PqEntry V} (there : entries[idx]? = some p) :
    ∃ m, entries[smallestOf entries idx]? = some m ∧
      (∀ {j q}, 0 < j → (j - 1) / 2 = idx → entries[j]? = some q → m.rank ≤ q.rank) ∧
      (smallestOf entries idx ≠ idx → m.rank < p.rank) := by
  obtain ⟨half, found, below, left, moves⟩ := @smallerOf_spec V entries idx (2 * idx + 1) p there
  obtain ⟨m, final, under, right, moved⟩ := @smallerOf_spec V entries _ (2 * idx + 2) half found
  refine ⟨m, final, fun {j q} positive child here => ?_, fun other => ?_⟩
  · rcases show j = 2 * idx + 1 ∨ j = 2 * idx + 2 by omega with rfl | rfl
    · exact Nat.le_trans under (left q here)
    · exact right q here
  · by_cases stays : smallerOf entries idx (2 * idx + 1) = idx
    · refine Nat.lt_of_lt_of_le (moved ?_) below
      rw [stays]
      exact fun same => other (by rw [smallestOf, stays]; exact same)
    · exact Nat.lt_of_le_of_lt under (moves stays)

/-- Sifting down restores the heap order. -/
theorem siftDown_ordered (downFrom : DownFrom PqEntry.rank entries idx) :
    Ordered PqEntry.rank (siftDown entries idx) ∧ (siftDown entries idx).Perm entries := by
  fun_induction siftDown with
  | case1 entries idx settled =>
    refine ⟨downFrom.ordered fun {j e p} positive child here there => ?_, .refl _⟩
    obtain ⟨m, found, least, -⟩ := smallestOf_spec there
    rw [settled, there] at found
    cases found
    exact least positive child here
  | case2 entries idx moves entry child below there ih =>
    obtain ⟨m, found, least, less⟩ := smallestOf_spec there
    cases found.symm.trans below
    obtain ⟨parent, down, inside⟩ := smallestOf_child moves
    obtain ⟨ordered, perm⟩ := ih (downFrom.step (by omega) parent.symm there below (less moves) least)
    exact ⟨ordered, perm.trans (swap_perm there below)⟩
  | case3 entries idx moves outside =>
    refine ⟨downFrom.ordered fun {j e p} positive child here there => ?_, .refl _⟩
    obtain ⟨m, found, -⟩ := smallestOf_spec there
    exact (outside p m there found).elim

/-- An entry that is added is one of the queue, which stays in order. -/
theorem pqPush_ordered (ordered : Ordered PqEntry.rank pq.entries) {allocated : Bool} {key : UInt64}
    {value : V} {next : PriorityQueue V} (pushed : pqPush allocated pq key value = some (true, next)) :
    Ordered PqEntry.rank next.entries ∧ next.entries.Perm (⟨key, value⟩ :: pq.entries) ∧
      next.entries.length ≤ next.capacity.toNat ∧
      next.capacity =
        if pq.capacity.toNat ≤ pq.entries.length then pq.capacity * 2 else pq.capacity := by
  obtain ⟨sifted, perm⟩ := siftUp_ordered (UpTo.append ordered ⟨key, value⟩)
  have added := perm.trans (List.perm_append_singleton _ _)
  rw [pqPush] at pushed
  split at pushed
  · cases pushed
  · simp only at pushed
    generalize (if pq.capacity.toNat ≤ pq.entries.length then pq.capacity * 2
      else pq.capacity) = capacity at pushed ⊢
    split at pushed
    case isTrue fits =>
      cases pushed
      exact ⟨sifted, added, by rw [added.length_eq]; exact fits, rfl⟩
    case isFalse => cases pushed

/-- The first entry is taken, and comes before no other. -/
theorem pqPop_ordered (ordered : Ordered PqEntry.rank pq.entries) {first : PqEntry V}
    (peek : pqPeek pq = some first) :
    ∃ next, pqPop pq = some (first, next) ∧ Ordered PqEntry.rank next.entries ∧
      next.capacity = pq.capacity ∧ pq.entries.Perm (first :: next.entries) ∧
      ∀ entry ∈ pq.entries, first.key ≤ entry.key := by
  have least : ∀ entry ∈ pq.entries, first.key ≤ entry.key := by
    intro entry member
    obtain ⟨i, there⟩ := List.mem_iff_getElem?.mp member
    rw [pqPeek, List.head?_eq_getElem?] at peek
    exact UInt64.le_iff_toNat_le.mpr (ordered.root_le peek there)
  obtain ⟨kept, last, split⟩ : ∃ kept last, pq.entries = kept ++ [last] := by
    refine (List.eq_nil_or_concat' pq.entries).resolve_left fun none => ?_
    rw [pqPeek, none] at peek
    cases peek
  rw [pqPeek, split] at peek
  rw [split] at ordered
  rw [pqPop, split, peek, List.getLast?_concat, List.dropLast_concat]
  cases kept with
  | nil =>
    cases peek
    exact ⟨{ pq with entries := [] }, rfl, fun _ _ _ _ there => (by cases there), rfl, .refl _,
      split ▸ least⟩
  | cons head rest =>
    cases peek
    obtain ⟨sifted, perm⟩ := siftDown_ordered (DownFrom.root ordered)
    rw [List.set_cons_zero] at sifted perm
    exact ⟨{ pq with entries := siftDown (last :: rest) 0 }, rfl, sifted, rfl,
      .cons _ ((List.perm_append_singleton _ _).trans perm.symm), split ▸ least⟩

end Nxp
