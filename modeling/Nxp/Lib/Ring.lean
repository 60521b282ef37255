import Mathlib.Data.List.Basic
import Mathlib.Order.Interval.Set.Basic

/-! Block copies into circular buffers, and the window of a sequence such a buffer holds. -/

namespace Ring

variable {i cap offset len : Nat} {offsets : Set Nat}

variable {α : Type*} {block : List α}

/-- Copy a block to consecutive cells, leaving every other cell alone. -/
def copyAt (cells : Nat → α) (pos : Nat) (block : List α) : Nat → α :=
  -- Cells past either end of the block keep what they held.
  fun i => if pos ≤ i then (block[i - pos]?).getD (cells i) else cells i

/-- Read consecutive cells. -/
def readAt (cells : Nat → α) (pos len : Nat) : List α :=
  (List.range len).map fun i => cells (pos + i)

/-- Copy a block to a logical offset, continuing at cell zero past the last cell. -/
def wrapCopy (cap : Nat) (cells : Nat → α) (offset : Nat) (block : List α) : Nat → α :=
  -- At most two copies: up to the end of the buffer, then from its beginning.
  let pos := offset % cap
  let first := min (cap - pos) block.length
  let cells := copyAt cells pos (block.take first)
  if first < block.length then copyAt cells 0 (block.drop first) else cells

/-- Read from a logical offset, continuing at cell zero past the last cell. -/
def wrapRead (cap : Nat) (cells : Nat → α) (offset len : Nat) : List α :=
  let pos := offset % cap
  let first := min (cap - pos) len
  readAt cells pos first ++ (if first < len then readAt cells 0 (len - first) else [])

/-- The cell that a wrapping copy puts an element of its block into. -/
def wrapCell (cap offset i : Nat) : Nat :=
  if i < cap - offset % cap then offset % cap + i else i - (cap - offset % cap)

/-- The buffer holds a sequence at every one of a set of logical offsets. -/
def Holds (cap : Nat) (cells : Nat → α) (word : Nat → α) (offsets : Set Nat) : Prop :=
  ∀ o ∈ offsets, cells (o % cap) = word o

/-- A copied cell reads the block. -/
theorem copyAt_inside (cells : Nat → α) (pos : Nat) (block : List α) (within : i < block.length) :
    copyAt cells pos block (pos + i) = block[i] := by
  simp [copyAt, List.getElem?_eq_getElem within]

/-- A cell outside the block keeps its value. -/
theorem copyAt_outside (cells : Nat → α) (pos : Nat) (block : List α)
    (outside : i < pos ∨ pos + block.length ≤ i) : copyAt cells pos block i = cells i := by
  -- Before the block the guard fails, and past it the block has no entry.
  unfold copyAt
  split
  · have absent : block[i - pos]? = none := List.getElem?_eq_none (by omega)
    simp [absent]
  · rfl

/-- Reading yields as many cells as were asked for. -/
@[simp] theorem readAt_length (cells : Nat → α) (pos len : Nat) :
    (readAt cells pos len).length = len := by
  simp [readAt]

/-- A wrapping read yields as many cells as were asked for. -/
@[simp] theorem wrapRead_length (cap : Nat) (cells : Nat → α) (offset len : Nat) :
    (wrapRead cap cells offset len).length = len := by
  -- The two parts split the request at the end of the buffer.
  unfold wrapRead
  simp only [List.length_append, readAt_length]
  split
  · simp only [readAt_length]
    omega
  · simp only [List.length_nil]
    omega

/-- Two offsets less than a lap apart share a cell only when they are equal. -/
theorem offset_eq_of_cell_eq {a b : Nat} (near : a < b + cap) (near' : b < a + cap)
    (same : a % cap = b % cap) : a = b := by
  -- Equal remainders differ by whole laps, and less than one lap is none.
  have qa := Nat.div_add_mod a cap
  have qb := Nat.div_add_mod b cap
  rcases Nat.lt_trichotomy (a / cap) (b / cap) with less | equal | more
  · have lap : cap * (a / cap) + cap ≤ cap * (b / cap) := by
      rw [← Nat.mul_succ]
      exact Nat.mul_le_mul_left cap less
    omega
  · rw [equal] at qa
    omega
  · have lap : cap * (b / cap) + cap ≤ cap * (a / cap) := by
      rw [← Nat.mul_succ]
      exact Nat.mul_le_mul_left cap more
    omega

/-- Advancing within the current lap moves the cell by the same amount. -/
theorem cell_before_wrap (before : i < cap - offset % cap) :
    (offset + i) % cap = offset % cap + i := by
  -- The remainder stays below the capacity, so no reduction happens.
  have positive : 0 < cap := by omega
  have small := Nat.mod_lt offset positive
  rw [Nat.add_mod, Nat.mod_eq_of_lt (show i < cap by omega), Nat.mod_eq_of_lt (by omega)]

/-- Advancing past the end of the lap continues at cell zero. -/
theorem cell_after_wrap (positive : 0 < cap) (after : cap - offset % cap ≤ i) (within : i < cap) :
    (offset + i) % cap = i - (cap - offset % cap) := by
  -- Exactly one lap is crossed, because less than a whole lap is advanced.
  have small := Nat.mod_lt offset positive
  rw [Nat.add_mod, Nat.mod_eq_of_lt within]
  rw [Nat.mod_eq_sub_mod (by omega), Nat.mod_eq_of_lt (by omega)]
  omega

/-- Copying nothing changes nothing. -/
@[simp] theorem wrapCopy_nil (cap : Nat) (cells : Nat → α) (offset : Nat) :
    wrapCopy cap cells offset [] = cells := by
  funext i
  simp [wrapCopy, copyAt]

/-- A wrapping copy puts each element of a block at the cell of its own offset. -/
theorem wrapCopy_inside (cells : Nat → α) (offset : Nat) (block : List α)
    (fits : block.length ≤ cap) (within : i < block.length) :
    wrapCopy cap cells offset block ((offset + i) % cap) = block[i] := by
  -- The element lies either before the end of the buffer or in the wrapped remainder.
  have positive : 0 < cap := by omega
  unfold wrapCopy
  rcases Nat.lt_or_ge i (cap - offset % cap) with before | after
  · rw [cell_before_wrap before]
    have small := Nat.mod_lt offset positive
    have copied : copyAt cells (offset % cap)
        (block.take (min (cap - offset % cap) block.length)) (offset % cap + i) = block[i] := by
      rw [copyAt_inside _ _ _ (by simp only [List.length_take]; omega)]
      simp
    split
    · -- The wrapped remainder is shorter than the gap before the starting cell.
      rw [copyAt_outside _ _ _ (by right; simp only [List.length_drop]; omega)]
      exact copied
    · exact copied
  · rw [cell_after_wrap positive after (by omega), if_pos (by omega)]
    have placed := copyAt_inside (copyAt cells (offset % cap)
      (block.take (min (cap - offset % cap) block.length))) 0
      (block.drop (min (cap - offset % cap) block.length))
      (i := i - (cap - offset % cap)) (by simp only [List.length_drop]; omega)
    rw [Nat.zero_add] at placed
    rw [placed]
    simp only [List.getElem_drop]
    congr 1
    omega

/-- A cell of the buffer that a wrapping copy writes is the one of its offset. -/
theorem wrapCell_eq_mod (real : wrapCell cap offset i < cap) :
    wrapCell cap offset i = (offset + i) % cap := by
  unfold wrapCell at real ⊢
  split at real
  · rename_i before
    rw [if_pos before, cell_before_wrap before]
  · rename_i after
    -- What is left after the end of the lap is less than another lap.
    have small := Nat.mod_lt offset (show 0 < cap by omega)
    have lap : offset + i = cap * (offset / cap + 1) + (i - (cap - offset % cap)) := by
      have := Nat.div_add_mod offset cap
      rw [Nat.mul_succ]
      omega
    rw [if_neg after, lap, Nat.mul_add_mod, Nat.mod_eq_of_lt real]

/-- A block of at most one lap is copied into the buffer. -/
theorem wrapCell_lt (within : i < cap) : wrapCell cap offset i < cap := by
  have small := Nat.mod_lt offset (show 0 < cap by omega)
  unfold wrapCell
  split <;> omega

/-- A wrapping copy leaves every cell that none of its elements goes into. -/
theorem wrapCopy_unwritten (cells : Nat → α) (offset : Nat) (block : List α) {cell : Nat}
    (outside : ∀ i, i < block.length → cell ≠ wrapCell cap offset i) :
    wrapCopy cap cells offset block cell = cells cell := by
  -- A cell inside either copied block would be the cell of one of its elements.
  have notFirst : cell < offset % cap ∨
      offset % cap + (block.take (min (cap - offset % cap) block.length)).length ≤ cell := by
    by_contra inside
    simp only [List.length_take] at inside
    refine outside (cell - offset % cap) (by omega) ?_
    rw [wrapCell, if_pos (by omega)]
    omega
  unfold wrapCopy
  split
  · have notSecond : 0 + (block.drop (min (cap - offset % cap) block.length)).length ≤ cell := by
      by_contra inside
      simp only [List.length_drop] at inside
      refine outside (cell + (cap - offset % cap)) (by omega) ?_
      rw [wrapCell, if_neg (by omega)]
      omega
    rw [copyAt_outside _ _ _ (Or.inr notSecond), copyAt_outside _ _ _ notFirst]
  · rw [copyAt_outside _ _ _ notFirst]

/-- A wrapping copy of at most one lap leaves every cell no copied offset maps to. -/
theorem wrapCopy_outside (cells : Nat → α) (offset : Nat) (block : List α)
    (fits : block.length ≤ cap) {cell : Nat}
    (outside : ∀ i, i < block.length → cell ≠ (offset + i) % cap) :
    wrapCopy cap cells offset block cell = cells cell := by
  refine wrapCopy_unwritten cells offset block fun i within => ?_
  rw [wrapCell_eq_mod (wrapCell_lt (by omega))]
  exact outside i within

/-- A buffer that holds a sequence on some offsets holds it on fewer. -/
theorem Holds.mono {fewer : Set Nat} (held : Holds cap cells word offsets)
    (subset : fewer ⊆ offsets) :
    Holds cap cells word fewer :=
  fun o member => held o (subset member)

/-- Writing the sequence's own elements adds their offsets to those held within one lap. -/
theorem Holds.wrapCopy (lo : Nat)
    (held : Holds cap cells word offsets) (lap : offsets ⊆ Set.Ico lo (lo + cap))
    (above : lo ≤ offset) (fits : offset + block.length ≤ lo + cap)
    (matched : ∀ i (within : i < block.length), block[i] = word (offset + i)) :
    Holds cap (wrapCopy cap cells offset block) word
      (offsets ∪ Set.Ico offset (offset + block.length)) := by
  intro o member
  by_cases written : offset ≤ o ∧ o < offset + block.length
  · -- An offset inside the block reads the element just copied there.
    obtain ⟨i, rfl⟩ := Nat.exists_eq_add_of_le written.1
    rw [wrapCopy_inside cells offset block (by omega) (by omega), matched i (by omega)]
  · -- Every other offset is within a lap of the block, so its cell is untouched.
    have old : o ∈ offsets := member.resolve_right written
    obtain ⟨after, before⟩ := lap old
    rw [wrapCopy_outside cells offset block (by omega)]
    · exact held o old
    · intro i within same
      have := offset_eq_of_cell_eq (by omega) (by omega) same
      omega

/-- A block that does not cross the end of the buffer is copied at once. -/
theorem wrapCopy_straight (cells : Nat → α) (straight : block.length ≤ cap - offset % cap) :
    wrapCopy cap cells offset block = copyAt cells (offset % cap) block := by
  have whole : min (cap - offset % cap) block.length = block.length := by omega
  simp [wrapCopy, whole]

/-- Writing on where the held offsets end, without crossing the end of the buffer, adds to them. -/
theorem Holds.copyAt {lo : Nat}
    (held : Holds cap cells word (Set.Ico lo offset)) (above : lo ≤ offset)
    (fits : offset + block.length ≤ lo + cap) (straight : block.length ≤ cap - offset % cap)
    (matched : ∀ i (within : i < block.length), block[i] = word (offset + i)) :
    Holds cap (copyAt cells (offset % cap) block) word (Set.Ico lo (offset + block.length)) := by
  rw [← wrapCopy_straight cells straight]
  have lap : Set.Ico lo offset ⊆ Set.Ico lo (lo + cap) := fun o member => by
    obtain ⟨low, high⟩ := member
    exact ⟨low, by omega⟩
  refine (held.wrapCopy lo lap above fits matched).mono fun o member => ?_
  obtain ⟨low, high⟩ := member
  by_cases old : o < offset
  · exact .inl ⟨low, old⟩
  · exact .inr ⟨by omega, high⟩

/-- The first offset of the next lap is that of cell zero. -/
theorem cell_next_lap (positive : 0 < cap) : (offset + (cap - offset % cap)) % cap = 0 := by
  have small := Nat.mod_lt offset positive
  rcases Nat.eq_zero_or_pos (offset % cap) with start | inside
  · rw [start, Nat.sub_zero, Nat.add_mod_right, start]
  · rw [cell_after_wrap positive (Nat.le_refl _) (by omega), Nat.sub_self]

/-- Reading offsets that are all held returns the sequence's own elements. -/
theorem Holds.wrapRead (held : Holds cap cells word offsets)
    (within : Set.Ico offset (offset + len) ⊆ offsets) (fits : len ≤ cap) :
    wrapRead cap cells offset len = (List.range len).map fun i => word (offset + i) := by
  -- Both lists have the same length, so they are compared position by position.
  refine List.ext_getElem (by simp) fun i inLeft inRight => ?_
  simp only [wrapRead_length] at inLeft
  have cell := held (offset + i) (within ⟨by omega, by omega⟩)
  simp only [List.getElem_map, List.getElem_range, Ring.wrapRead]
  rcases Nat.lt_or_ge i (cap - offset % cap) with before | after
  · rw [List.getElem_append_left (by simp only [readAt_length]; omega)]
    simp only [readAt, List.getElem_map, List.getElem_range]
    rw [← cell_before_wrap before, cell]
  · have more : min (cap - offset % cap) len < len := by omega
    rw [List.getElem_append_right (by simp only [readAt_length]; omega)]
    simp only [if_pos more, readAt_length]
    simp only [readAt, List.getElem_map, List.getElem_range, Nat.zero_add]
    rw [← cell, cell_after_wrap (by omega) after (by omega)]
    congr 1
    omega

/-- Reading held offsets that do not cross the end of the buffer needs no wrapping. -/
theorem Holds.readAt (held : Holds cap cells word offsets)
    (within : Set.Ico offset (offset + len) ⊆ offsets) (straight : len ≤ cap - offset % cap) :
    readAt cells (offset % cap) len = (List.range len).map fun i => word (offset + i) := by
  -- Every cell read belongs to the lap of the first one.
  refine List.map_congr_left fun i member => ?_
  have inRange := List.mem_range.mp member
  rw [← cell_before_wrap (by omega)]
  exact held (offset + i) (within ⟨by omega, by omega⟩)

/-- A stretch of a list, read element by element. -/
theorem take_drop_eq_map (xs : List α) (default : α) (within : offset + len ≤ xs.length) :
    (xs.drop offset).take len = (List.range len).map fun i => xs.getD (offset + i) default := by
  refine List.ext_getElem (by simp; omega) fun i inLeft inRight => ?_
  simp only [List.length_map, List.length_range] at inRight
  simp [List.getElem?_eq_getElem (show offset + i < xs.length by omega)]

end Ring
