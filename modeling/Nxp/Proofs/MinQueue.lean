import Nxp.Lib.Machine
import Nxp.Util.PriorityQueue

/-! The priority queue is a multiset from which a smallest entry is taken. -/

namespace Nxp

open Heap

variable {V : Type}

/-- What a user of the queue does. -/
inductive PqOp (V : Type) where
  | push (key : UInt64) (value : V)
  | pop

/-- A queue with what went into it and what came out. -/
structure PqHistory (V : Type) where
  queue : PriorityQueue V
  pushed : List (PqEntry V)
  popped : List (PqEntry V)

/-- A queue just made. -/
def PqHistory.start (initialCapacity : UInt32) : PqHistory V :=
  ⟨pqCreate initialCapacity, [], []⟩

/-- One operation, every allocation succeeding. -/
def pqStep (history : PqHistory V) : PqOp V → Option (PqHistory V)
  | .push key value => do
    let (done, queue) ← pqPush true history.queue key value
    let pushed := if done then ⟨key, value⟩ :: history.pushed else history.pushed
    pure { history with queue := queue, pushed := pushed }
  | .pop =>
    match pqPop history.queue with
    | some (entry, queue) =>
      some { history with queue := queue, popped := entry :: history.popped }
    | none => some history

/-- The queue is ordered and holds what was pushed and not popped, and the next entry that comes out
is a smallest one. -/
structure PqHistory.Refines (history : PqHistory V) : Prop where
  ordered : Ordered PqEntry.rank history.queue.entries
  holds : (history.popped ++ history.queue.entries).Perm history.pushed
  empty : history.queue.entries = [] → pqPop history.queue = none
  least : history.queue.entries ≠ [] → ∃ entry queue,
    pqPop history.queue = some (entry, queue) ∧
      history.queue.entries.Perm (entry :: queue.entries) ∧
      ∀ other ∈ history.queue.entries, entry.key ≤ other.key

/-- What every operation keeps: order, the balance of entries, and an array no smaller than them. -/
private structure PqHistory.Kept (history : PqHistory V) : Prop where
  ordered : Ordered PqEntry.rank history.queue.entries
  holds : (history.popped ++ history.queue.entries).Perm history.pushed
  room : history.queue.entries.length ≤ history.queue.capacity.toNat
  positive : 0 < history.queue.capacity.toNat

/-- A new queue keeps the correspondence. -/
theorem PqHistory.start_kept (initialCapacity : UInt32) :
    (PqHistory.start initialCapacity : PqHistory V).Kept := by
  refine ⟨fun _ _ _ _ there => (by cases there), .refl _, Nat.zero_le _, ?_⟩
  simp only [PqHistory.start, pqCreate]
  split
  · decide
  · rename_i large
    have := UInt32.le_iff_toNat_le.mp (UInt32.not_lt.mp large)
    simp only [UInt32.reduceToNat] at this
    omega

namespace PqHistory.Kept

variable {history : PqHistory V} (kept : history.Kept)

include kept

/-- Below the bound the array can be doubled, so no entry is written outside it. -/
theorem push (few : history.queue.entries.length < 2 ^ 30) (key : UInt64) (value : V) :
    ∃ next, pqStep history (.push key value) = some next ∧ next.Kept := by
  have room := kept.room
  have positive := kept.positive
  have doubled : history.queue.capacity.toNat ≤ history.queue.entries.length →
      (history.queue.capacity * 2).toNat = 2 * history.queue.capacity.toNat := by
    intro full
    rw [UInt32.toNat_mul]
    simp only [UInt32.reduceToNat]
    omega
  obtain ⟨queue, pushed⟩ : ∃ queue, pqPush true history.queue key value = some (true, queue) := by
    rw [pqPush, if_neg (by simp)]
    refine ⟨_, if_pos ?_⟩
    by_cases full : history.queue.capacity.toNat ≤ history.queue.entries.length
    · rw [if_pos full, doubled full]
      omega
    · rw [if_neg full]
      omega
  obtain ⟨ordered, added, fits, capacity⟩ := pqPush_ordered kept.ordered pushed
  refine ⟨⟨queue, ⟨key, value⟩ :: history.pushed, history.popped⟩, by simp [pqStep, pushed],
    ordered, ?_, fits, ?_⟩
  · exact (added.append_left _).trans (List.perm_middle.trans (kept.holds.cons _))
  · show 0 < queue.capacity.toNat
    rw [added.length_eq, List.length_cons] at fits
    omega

/-- Taking an entry moves it from the queue to what came out. -/
theorem pop : ∃ next, pqStep history .pop = some next ∧ next.Kept := by
  have room := kept.room
  cases peek : pqPeek history.queue with
  | none =>
    refine ⟨history, ?_, kept⟩
    have nothing : history.queue.entries.head? = none := peek
    simp [pqStep, pqPop, nothing]
  | some entry =>
    obtain ⟨queue, popped, ordered, capacity, taken, -⟩ := pqPop_ordered kept.ordered peek
    have fewer := taken.length_eq
    rw [List.length_cons] at fewer
    refine ⟨⟨queue, history.pushed, entry :: history.popped⟩, by simp [pqStep, popped],
      ordered, ?_, ?_, ?_⟩
    · exact List.perm_middle.symm.trans ((taken.symm.append_left _).trans kept.holds)
    · show queue.entries.length ≤ queue.capacity.toNat
      rw [capacity]
      omega
    · show 0 < queue.capacity.toNat
      rw [capacity]
      exact kept.positive

theorem refines : history.Refines := by
  refine ⟨kept.ordered, kept.holds, ?_, ?_⟩
  · intro nothing
    simp [pqPop, nothing]
  · intro something
    obtain ⟨entry, peek⟩ : ∃ entry, pqPeek history.queue = some entry :=
      Option.isSome_iff_exists.mp (by simpa [pqPeek] using something)
    obtain ⟨queue, popped, -, -, taken, least⟩ := pqPop_ordered kept.ordered peek
    exact ⟨entry, queue, popped, taken, least⟩

end PqHistory.Kept

/-- Along every run with few enough entries the queue is the multiset of what it should hold. -/
theorem pq_refines_multiset (initialCapacity : UInt32) (ops : List (PqOp V))
    (few : Machine.Throughout pqStep (fun history _ => history.queue.entries.length < 2 ^ 30)
      (PqHistory.start initialCapacity) ops) :
    ∃ history, Machine.attempt pqStep (PqHistory.start initialCapacity) ops = some history ∧
      history.Refines := by
  suffices ∀ before : PqHistory V, before.Kept →
      Machine.Throughout pqStep (fun history _ => history.queue.entries.length < 2 ^ 30)
        before ops →
      ∃ after, Machine.attempt pqStep before ops = some after ∧ after.Kept by
    obtain ⟨history, reached, kept⟩ := this _ (PqHistory.start_kept initialCapacity) few
    exact ⟨history, reached, kept.refines⟩
  clear few
  -- Each operation is answered and keeps what the next one needs.
  induction ops with
  | nil =>
    intro before kept _
    exact ⟨before, rfl, kept⟩
  | cons op ops ih =>
    intro before kept few
    obtain ⟨next, stepped, kept⟩ : ∃ next, pqStep before op = some next ∧ next.Kept := by
      cases op with
      | push key value => exact kept.push few.1 key value
      | pop => exact kept.pop
    obtain ⟨after, reached, kept⟩ := ih next kept (few.2 next stepped)
    exact ⟨after, Machine.attempt_cons_some.mpr ⟨next, stepped, reached⟩, kept⟩

/-- Two entries pushed in the wrong order, and one taken. -/
theorem pq_refines_multiset_two :
    ∃ history, Machine.attempt pqStep (PqHistory.start 0) [.push 5 true, .push 3 false, .pop] =
      some history ∧ history.Refines :=
  pq_refines_multiset 0 [.push 5 true, .push 3 false, .pop] (by decide +kernel)

end Nxp
