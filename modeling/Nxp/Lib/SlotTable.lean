import Mathlib.Data.Set.Function
import Mathlib.Logic.Function.Basic
import Nxp.Lib.Machine

/-! A table with one slot for every class of keys, each slot keeping the digest last put there. -/

namespace SlotTable

variable {κ δ ι : Type*} (digest : κ → δ) (slot : δ → ι) {key : κ}

/-- Whether the slot of a key holds something else than its digest. -/
def admits [DecidableEq δ] (table : ι → Option δ) (key : κ) : Bool :=
  decide (table (slot (digest key)) ≠ some (digest key))

/-- Put the digest of a key into its slot. -/
def record [DecidableEq ι] (table : ι → Option δ) (key : κ) : ι → Option δ :=
  Function.update table (slot (digest key)) (some (digest key))

/-- A table in which every key seen is found, and nothing stands but in the slots of keys seen. -/
structure Remembers (table : ι → Option δ) (seen : Set κ) : Prop where
  kept : ∀ key ∈ seen, table (slot (digest key)) = some (digest key)
  filled : ∀ i, table i ≠ none → ∃ key ∈ seen, slot (digest key) = i

variable {digest slot}

/-- A key that is not admitted finds its digest in place, so putting it there changes nothing. -/
theorem record_of_refused [DecidableEq δ] [DecidableEq ι] {table : ι → Option δ}
    (refused : admits digest slot table key = false) : record digest slot table key = table := by
  have found : table (slot (digest key)) = some (digest key) := by
    by_contra differs
    simp [admits, differs] at refused
  unfold record
  rw [← found]
  exact Function.update_eq_self _ _

/-- The empty table has seen nothing. -/
theorem remembers_empty : Remembers digest slot (fun _ => none) ∅ :=
  ⟨fun _ absent => absurd absent (Set.notMem_empty _), fun _ filled => absurd rfl filled⟩

section Apart

variable {keys seen : Set κ} (apart : Set.InjOn (slot ∘ digest) keys) (within : seen ⊆ keys)
  {table : ι → Option δ} (remembers : Remembers digest slot table seen)

include apart within remembers

/-- Where no two keys share a slot, a key is admitted exactly when it was not seen. -/
theorem Remembers.admits_iff [DecidableEq δ] (member : key ∈ keys) :
    admits digest slot table key = true ↔ key ∉ seen := by
  unfold admits
  rw [decide_eq_true_iff]
  constructor
  · intro differs known
    exact differs (remembers.kept key known)
  · intro unknown found
    -- Whatever fills the slot was put there by a key seen, and that key is this one.
    obtain ⟨other, known, same⟩ := remembers.filled _ (by rw [found]; exact Option.some_ne_none _)
    have equal : other = key := apart (within known) member same
    exact unknown (equal ▸ known)

/-- Where no two keys share a slot, putting one there keeps all others. -/
theorem Remembers.record [DecidableEq ι] (member : key ∈ keys) :
    Remembers digest slot (record digest slot table key) (insert key seen) := by
  constructor
  · intro other known
    unfold SlotTable.record
    rcases known with rfl | known
    · exact Function.update_self _ _ _
    · by_cases same : slot (digest other) = slot (digest key)
      · have equal : other = key := apart (within known) member same
        rw [equal]
        exact Function.update_self _ _ _
      · rw [Function.update_of_ne same]
        exact remembers.kept other known
  · intro i filled
    by_cases here : slot (digest key) = i
    · exact ⟨key, Set.mem_insert _ _, here⟩
    · unfold SlotTable.record at filled
      rw [Function.update_of_ne (Ne.symm here)] at filled
      obtain ⟨other, known, same⟩ := remembers.filled i filled
      exact ⟨other, Set.mem_insert_of_mem _ known, same⟩

end Apart

/-- Where no two keys share a slot, a run over some keys remembers exactly those. -/
theorem remembers_run [DecidableEq ι] {keys : Set κ} (apart : Set.InjOn (slot ∘ digest) keys)
    (inputs : List κ) (drawn : ∀ key ∈ inputs, key ∈ keys) :
    Remembers digest slot (Machine.run (record digest slot) (fun _ => none) inputs)
      {key | key ∈ inputs} := by
  -- The last key is put into what the keys before it left.
  induction inputs using List.reverseRecOn with
  | nil => simpa using remembers_empty
  | append_singleton earlier key ih =>
    rw [Machine.run_append, Machine.run_cons, Machine.run_nil]
    have grown := (ih fun other known => drawn other (by simp [known])).record apart
      (fun other known => drawn other (List.mem_append_left _ known))
      (drawn key (by simp))
    have same : {other | other ∈ earlier ++ [key]} = insert key {other | other ∈ earlier} := by
      ext other
      simp [or_comm]
    rw [same]
    exact grown

/-- Two keys that share a slot undo each other: either the second is taken for the first, or the
first is admitted again behind the second. -/
theorem shared_slot [DecidableEq δ] [DecidableEq ι] {first second : κ}
    (same : slot (digest first) = slot (digest second)) (table : ι → Option δ) :
    admits digest slot (record digest slot table first) second = false ∨
      admits digest slot
        (record digest slot (record digest slot table first) second) first = true := by
  by_cases equal : digest first = digest second
  · left
    simp [admits, record, equal]
  · right
    simp [admits, record, same, Ne.symm equal]

end SlotTable
