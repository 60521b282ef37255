import Nxp.Lib.Machine
import Nxp.Lib.Word
import Nxp.Memory.Arena

/-! What an arena says it has given out, and when that is true. -/

namespace Nxp

/-- A request to the arena, its alignment a power of two, or a reset. -/
inductive ArenaOp where
  | alloc (size : UInt64) (alignBits : Fin 64) (allocated : Bool)
  | reset
  deriving DecidableEq, Repr

/-- A stretch that was returned, and whether a block was allocated for it. -/
structure Region where
  block : Nat
  offset : Nat
  size : Nat
  opened : Bool
  deriving DecidableEq, Repr

/-- An arena with what it has returned since the last reset. -/
structure ArenaHistory where
  arena : Arena
  regions : List Region
  deriving DecidableEq, Repr

/-- An arena just made. -/
def ArenaHistory.start (blockSize : UInt64) : ArenaHistory := ⟨arenaCreate blockSize, []⟩

/-- One request. -/
def arenaStep (history : ArenaHistory) : ArenaOp → ArenaHistory
  | .alloc size alignBits allocated =>
    match arenaAlloc allocated history.arena size (UInt64.ofNat (2 ^ alignBits.val)) with
    | (none, arena) => { history with arena := arena }
    | (some (block, offset), arena) =>
      ⟨arena, history.regions ++ [⟨block, offset.toNat, size.toNat,
        history.arena.blocks.length < arena.blocks.length⟩]⟩
  | .reset => ⟨arenaReset history.arena, []⟩

/-- Two stretches share no octet. -/
def Region.Apart (first second : Region) : Prop :=
  first.block ≠ second.block ∨ first.offset + first.size ≤ second.offset ∨
    second.offset + second.size ≤ first.offset

/-- Every stretch lies in its block, and apart from the others. -/
structure ArenaHistory.Placed (history : ArenaHistory) : Prop where
  inside : ∀ region ∈ history.regions, ∃ block,
    history.arena.blocks[region.block]? = some block ∧
      region.offset + region.size ≤ block.capacity.toNat
  apart : history.regions.Pairwise Region.Apart

/-- How much of some blocks is taken. -/
def usedSum (blocks : List ArenaBlock) : Nat := (blocks.map (·.used.toNat)).sum

/-- The stretches are disjoint and in their blocks, and the accounts agree with the blocks. -/
structure ArenaHistory.Sound (history : ArenaHistory) : Prop extends history.Placed where
  bounded : ∀ block ∈ history.arena.blocks, block.used ≤ block.capacity
  accounted : history.arena.totalUsed.toNat = usedSum history.arena.blocks

/-- The size of the stretches that a block was allocated for. -/
private def openedSum (regions : List Region) : Nat :=
  ((regions.filter (·.opened)).map (·.size)).sum

/-- What is known of the blocks while the stretches are as they should be. -/
private structure ArenaHistory.Clean (history : ArenaHistory) : Prop where
  positive : ∀ region ∈ history.regions, 0 < region.size
  below : ∀ region ∈ history.regions, ∀ block,
    history.arena.blocks[region.block]? = some block →
      region.offset + region.size ≤ block.used.toNat
  front : ∀ i block, history.arena.blocks[i]? = some block → 0 < block.used.toNat →
    ∃ region ∈ history.regions, region.block = i ∧ region.offset = 0
  short : openedSum history.regions ≤ usedSum history.arena.blocks
  strict : (∃ region ∈ history.regions, region.opened = false) →
    openedSum history.regions < usedSum history.arena.blocks

/-- What every run keeps. -/
private structure ArenaHistory.Tracked (history : ArenaHistory) : Prop where
  last : ∃ front block, history.arena.blocks = front ++ [block] ∧
    history.arena.current = front.length
  known : ∀ region ∈ history.regions, region.block < history.arena.blocks.length
  total : history.arena.totalUsed.toNat = openedSum history.regions % 2 ^ 64
  clean : history.Placed → history.Clean
  opened : (∀ region ∈ history.regions, region.opened = true) →
    history.Placed ∧ (∀ block ∈ history.arena.blocks, block.used ≤ block.capacity) ∧
      openedSum history.regions = usedSum history.arena.blocks

section Align

variable {k : Nat} (inside : k ≤ 63)

include inside

theorem alignUp_toNat (value : UInt64) :
    (alignUp value (UInt64.ofNat (2 ^ k))).toNat =
      (value.toNat + (2 ^ k - 1)) % 2 ^ 64 / 2 ^ k * 2 ^ k := by
  have small : 2 ^ k ≤ 2 ^ 63 := Nat.pow_le_pow_right (by decide) inside
  have positive := Nat.two_pow_pos k
  have less : UInt64.ofNat (2 ^ k) - 1 = UInt64.ofNat (2 ^ k - 1) := by
    apply UInt64.toNat_inj.mp
    rw [UInt64.toNat_sub_of_le _ _ (by
      rw [UInt64.le_iff_toNat_le, UInt64.toNat_ofNat', Nat.mod_eq_of_lt (by omega)]
      exact positive)]
    simp only [UInt64.toNat_ofNat', UInt64.reduceToNat]
    omega
  have sum : value + UInt64.ofNat (2 ^ k) - 1 = value + UInt64.ofNat (2 ^ k - 1) := by
    rw [← less, UInt64.sub_eq_add_neg, UInt64.sub_eq_add_neg, UInt64.add_assoc]
  rw [alignUp, less, sum, Word.toNat_clear_low _ inside, UInt64.toNat_add, UInt64.toNat_ofNat',
    Nat.mod_eq_of_lt (show 2 ^ k - 1 < 2 ^ 64 by omega)]

theorem alignUp_zero : alignUp 0 (UInt64.ofNat (2 ^ k)) = 0 := by
  have small : 2 ^ k ≤ 2 ^ 63 := Nat.pow_le_pow_right (by decide) inside
  have positive := Nat.two_pow_pos k
  apply UInt64.toNat_inj.mp
  rw [alignUp_toNat inside, UInt64.toNat_zero, Nat.zero_add, Nat.mod_eq_of_lt (by omega),
    Nat.div_eq_of_lt (by omega), Nat.zero_mul]

/-- Rounding up goes up, or wraps to zero. -/
theorem alignUp_cases (value : UInt64) :
    value.toNat ≤ (alignUp value (UInt64.ofNat (2 ^ k))).toNat ∨
      (alignUp value (UInt64.ofNat (2 ^ k))).toNat = 0 ∧ 0 < value.toNat := by
  have small : 2 ^ k ≤ 2 ^ 63 := Nat.pow_le_pow_right (by decide) inside
  have positive := Nat.two_pow_pos k
  have bound := value.toNat_lt
  rw [alignUp_toNat inside]
  by_cases fits : value.toNat + (2 ^ k - 1) < 2 ^ 64
  · left
    rw [Nat.mod_eq_of_lt fits]
    have split := Nat.div_add_mod' (value.toNat + (2 ^ k - 1)) (2 ^ k)
    have rest := Nat.mod_lt (value.toNat + (2 ^ k - 1)) positive
    omega
  · -- What is left of a sum that wrapped is smaller than the alignment.
    have excess : (value.toNat + (2 ^ k - 1)) % 2 ^ 64 = value.toNat + (2 ^ k - 1) - 2 ^ 64 := by
      omega
    rw [excess, Nat.div_eq_of_lt (by omega), Nat.zero_mul]
    omega

end Align

variable {history : ArenaHistory}

theorem sub_add_self (offset size : UInt64) : offset - (offset + size) + size = 0 := by
  rw [UInt64.sub_eq_add_neg, UInt64.add_assoc, UInt64.add_comm (-_), ← UInt64.add_assoc,
    UInt64.add_right_neg]

/-- What a request can do: nothing, take more of the newest block, or allocate one. -/
theorem arenaStep_alloc {front : List ArenaBlock} {block : ArenaBlock}
    (blocks : history.arena.blocks = front ++ [block]) (current : history.arena.current = front.length)
    (size : UInt64) (alignBits : Fin 64) (allocated : Bool) :
    arenaStep history (.alloc size alignBits allocated) = history ∨
      (0 < size.toNat ∧ ∃ offset : UInt64,
        (block.used.toNat ≤ offset.toNat ∨ offset.toNat = 0 ∧ 0 < block.used.toNat) ∧
        (block.used.toNat = 0 → offset.toNat = 0) ∧
        arenaStep history (.alloc size alignBits allocated) =
          ⟨{ history.arena with blocks := front ++ [⟨block.capacity, offset + size⟩] },
            history.regions ++ [⟨front.length, offset.toNat, size.toNat, false⟩]⟩) ∨
      (0 < size.toNat ∧ ∃ capacity, size ≤ capacity ∧
        arenaStep history (.alloc size alignBits allocated) =
          ⟨{ history.arena with
              blocks := front ++ [block] ++ [⟨capacity, size⟩]
              current := front.length + 1
              totalAllocated := history.arena.totalAllocated + capacity
              totalUsed := history.arena.totalUsed + size },
            history.regions ++ [⟨front.length + 1, 0, size.toNat, true⟩]⟩) := by
  have inside : alignBits.val ≤ 63 := by omega
  have there : history.arena.blocks[history.arena.current]? = some block := by
    simp [blocks, current]
  simp only [arenaStep, arenaAlloc, there]
  by_cases zero : size = 0
  · left
    simp [zero]
  · have positive : 0 < size.toNat := by
      have := mt UInt64.toNat_inj.mp zero
      simp at this
      omega
    simp only [if_neg zero]
    by_cases fits : alignUp block.used (UInt64.ofNat (2 ^ alignBits.val)) + size ≤ block.capacity
    · right; left
      refine ⟨positive, _, alignUp_cases inside _, fun empty => ?_, ?_⟩
      · rw [UInt64.toNat_inj.mp (empty.trans UInt64.toNat_zero.symm), alignUp_zero inside,
          UInt64.toNat_zero]
      simp only [if_pos fits, sub_add_self, UInt64.add_zero]
      simp [blocks, current]
    · simp only [if_neg fits, alignUp_zero inside, UInt64.zero_add]
      cases allocated with
      | false =>
        left
        simp
      | true =>
        right; right
        refine ⟨positive, if size > history.arena.blockSize then size else history.arena.blockSize,
          ?_, ?_⟩
        · split
          · exact UInt64.le_refl _
          · rename_i small
            exact UInt64.not_lt.mp small
        · simp [blocks]

theorem concat_getElem? {front : List ArenaBlock} {block other : ArenaBlock} {i : Nat} :
    (front ++ [block])[i]? = some other ↔
      front[i]? = some other ∨ i = front.length ∧ other = block := by
  rcases Nat.lt_trichotomy i front.length with before | same | after
  · rw [List.getElem?_append_left before]
    simp [Nat.ne_of_lt before]
  · simp [same, eq_comm]
  · rw [List.getElem?_eq_none (by simp; omega), List.getElem?_eq_none (by omega)]
    simp [Nat.ne_of_gt after]

theorem usedSum_concat (front : List ArenaBlock) (block : ArenaBlock) :
    usedSum (front ++ [block]) = usedSum front + block.used.toNat := by
  simp [usedSum]

theorem openedSum_concat (regions : List Region) (region : Region) :
    openedSum (regions ++ [region]) =
      openedSum regions + if region.opened then region.size else 0 := by
  cases opened : region.opened <;> simp [openedSum, opened]

namespace ArenaHistory

/-- An arena whose blocks are all empty has nothing to account for. -/
theorem tracked_empty {arena : Arena} {front : List ArenaBlock} {block : ArenaBlock}
    (blocks : arena.blocks = front ++ [block]) (current : arena.current = front.length)
    (empty : ∀ block ∈ arena.blocks, block.used = 0) (total : arena.totalUsed = 0) :
    (ArenaHistory.mk arena []).Tracked := by
  have nothing : usedSum arena.blocks = 0 := by
    apply List.sum_eq_zero_iff_forall_eq_nat.mpr
    intro used member
    obtain ⟨block, inside, rfl⟩ := List.mem_map.mp member
    rw [empty block inside]
    rfl
  refine ⟨⟨front, block, blocks, current⟩, by simp, ?_, fun _ => ?_, fun _ => ⟨?_, ?_, ?_⟩⟩
  · rw [total]
    rfl
  · refine ⟨by simp, by simp, fun i block there taken => ?_, Nat.zero_le _, by simp⟩
    rw [empty block (List.mem_of_getElem? there)] at taken
    exact absurd taken (by decide)
  · exact ⟨by simp, .nil⟩
  · intro block inside
    rw [empty block inside]
    exact UInt64.zero_le
  · exact nothing.symm

/-- Stretches that are as they should be were so before the last of them. -/
theorem Placed.earlier {arena arena' : Arena} {regions : List Region} {region : Region}
    (placed : (ArenaHistory.mk arena' (regions ++ [region])).Placed)
    (kept : ∀ region ∈ regions, ∀ block', arena'.blocks[region.block]? = some block' →
      ∃ block, arena.blocks[region.block]? = some block ∧ block.capacity = block'.capacity) :
    (ArenaHistory.mk arena regions).Placed := by
  refine ⟨fun region member => ?_, (List.pairwise_append.mp placed.apart).1⟩
  obtain ⟨block', there, fits⟩ := placed.inside region (List.mem_append_left _ member)
  obtain ⟨block, before, same⟩ := kept region member block' there
  exact ⟨block, before, same ▸ fits⟩

namespace Clean

variable {arena arena' : Arena} {regions : List Region}
  (clean : (ArenaHistory.mk arena regions).Clean)

include clean

/-- An empty block at the end changes nothing. -/
theorem blank (known : ∀ region ∈ regions, region.block < arena.blocks.length) (capacity : UInt64) :
    (ArenaHistory.mk { arena with blocks := arena.blocks ++ [⟨capacity, 0⟩] } regions).Clean := by
  have sum : usedSum (arena.blocks ++ [⟨capacity, 0⟩]) = usedSum arena.blocks := usedSum_concat ..
  refine ⟨clean.positive, fun region member block there => ?_, fun i block there taken => ?_,
    sum ▸ clean.short, sum ▸ clean.strict⟩
  · exact clean.below region member block
      ((List.getElem?_append_left (known region member)).symm.trans there)
  · rcases concat_getElem?.mp there with before | ⟨-, rfl⟩
    · exact clean.front i block before taken
    · cases taken

/-- A stretch that starts where the last block is free is all that block is then taken up to. -/
theorem taken {front : List ArenaBlock} {block last : ArenaBlock} {region : Region}
    (blocks : arena.blocks = front ++ [block]) (blocks' : arena'.blocks = front ++ [last])
    (newest : region.block = front.length) (positive : 0 < region.size)
    (upward : block.used.toNat ≤ region.offset) (start : block.used.toNat = 0 → region.offset = 0)
    (ends : last.used.toNat = region.offset + region.size) :
    (ArenaHistory.mk arena' (regions ++ [region])).Clean := by
  have latest : arena.blocks[front.length]? = some block := by simp [blocks]
  have earlier {i : Nat} {other : ArenaBlock} (before : front[i]? = some other) :
      arena.blocks[i]? = some other := blocks ▸ concat_getElem?.mpr (.inl before)
  have used : usedSum arena.blocks = usedSum front + block.used.toNat := by
    rw [blocks, usedSum_concat]
  have short : openedSum regions ≤ usedSum arena.blocks := clean.short
  refine ⟨List.forall_mem_append.mpr ⟨clean.positive, List.forall_mem_singleton.mpr positive⟩,
    List.forall_mem_append.mpr ⟨fun old member other there => ?_,
      List.forall_mem_singleton.mpr fun other there => ?_⟩, fun i other there taken => ?_, ?_, ?_⟩
  · rcases concat_getElem?.mp (blocks' ▸ there) with before | ⟨same, rfl⟩
    · exact clean.below old member other (earlier before)
    · have below := clean.below old member block (by rw [same]; exact latest)
      omega
  · simp only [blocks', newest, List.getElem?_concat_length, Option.some.injEq] at there
    exact there ▸ Nat.le_of_eq ends.symm
  · have kept {old : ArenaBlock} (there : arena.blocks[i]? = some old) (taken : 0 < old.used.toNat) :
        ∃ region' ∈ regions ++ [region], region'.block = i ∧ region'.offset = 0 := by
      obtain ⟨old, member, place⟩ := clean.front i _ there taken
      exact ⟨old, List.mem_append_left _ member, place⟩
    rcases concat_getElem?.mp (blocks' ▸ there) with before | ⟨rfl, rfl⟩
    · exact kept (earlier before) taken
    · rcases Nat.eq_zero_or_pos block.used.toNat with empty | filled
      · exact ⟨region, List.mem_concat_self, newest, start empty⟩
      · exact kept latest filled
  · simp only [blocks', openedSum_concat, usedSum_concat]
    split <;> omega
  · rintro ⟨other, member, inside⟩
    simp only [blocks', openedSum_concat, usedSum_concat]
    rcases List.mem_append.mp member with old | new
    · have strict : openedSum regions < usedSum arena.blocks := clean.strict ⟨other, old, inside⟩
      split <;> omega
    · rw [← List.mem_singleton.mp new, if_neg (by simp [inside])]
      omega

end Clean

namespace Tracked

variable (tracked : history.Tracked) {front : List ArenaBlock} {block : ArenaBlock}
  (blocks : history.arena.blocks = front ++ [block])
  (current : history.arena.current = front.length) {size : UInt64} (positive : 0 < size.toNat)

include tracked blocks positive

include current in
/-- A stretch taken in the newest block is never accounted for. -/
theorem inBlock {offset : UInt64}
    (order : block.used.toNat ≤ offset.toNat ∨ offset.toNat = 0 ∧ 0 < block.used.toNat)
    (start : block.used.toNat = 0 → offset.toNat = 0) :
    (ArenaHistory.mk
      { history.arena with blocks := front ++ [⟨block.capacity, offset + size⟩] }
      (history.regions ++ [⟨front.length, offset.toNat, size.toNat, false⟩])).Tracked := by
  have known := tracked.known
  rw [blocks] at known
  refine ⟨⟨front, _, rfl, current⟩, ?_, ?_, ?_, ?_⟩
  · refine List.forall_mem_append.mpr ⟨fun region old => ?_, List.forall_mem_singleton.mpr ?_⟩
    · simpa using known region old
    · simp
  · rw [openedSum_concat]
    exact tracked.total
  · intro placed
    have clean := tracked.clean (placed.earlier fun region member block' there => by
      rw [blocks]
      rcases concat_getElem?.mp there with old | ⟨same, rfl⟩
      · exact ⟨block', concat_getElem?.mpr (.inl old), rfl⟩
      · exact ⟨block, concat_getElem?.mpr (.inr ⟨same, rfl⟩), rfl⟩)
    -- The new stretch ends where the block is now taken up to.
    obtain ⟨taken, there, fits⟩ := placed.inside _ List.mem_concat_self
    obtain rfl : taken = ⟨block.capacity, offset + size⟩ := by simpa using there.symm
    have ends : (offset + size).toNat = offset.toNat + size.toNat := by
      have := block.capacity.toNat_lt
      rw [UInt64.toNat_add]
      exact Nat.mod_eq_of_lt (by simp only at fits; omega)
    -- An offset that wrapped would fall on the stretch at the front of the block.
    have upward : block.used.toNat ≤ offset.toNat := by
      rcases order with upward | ⟨zero, taken⟩
      · exact upward
      · obtain ⟨other, member, same, first⟩ :=
          clean.front front.length block (by simp [blocks]) taken
        have apart := (List.pairwise_append.mp placed.apart).2.2 other member _
          (List.mem_singleton.mpr rfl)
        have := clean.positive other member
        simp only [Region.Apart, same, first] at apart
        omega
    exact clean.taken blocks rfl rfl positive upward start ends
  · intro all
    cases all _ List.mem_concat_self

/-- A block allocated for a stretch is accounted for. -/
theorem newBlock {capacity : UInt64} (room : size ≤ capacity) :
    (ArenaHistory.mk
      { history.arena with
        blocks := front ++ [block] ++ [⟨capacity, size⟩]
        current := front.length + 1
        totalAllocated := history.arena.totalAllocated + capacity
        totalUsed := history.arena.totalUsed + size }
      (history.regions ++ [⟨front.length + 1, 0, size.toNat, true⟩])).Tracked := by
  have known := tracked.known
  have length : history.arena.blocks.length = front.length + 1 := by simp [blocks]
  rw [← blocks]
  have still {region : Region} (member : region ∈ history.regions) :
      (history.arena.blocks ++ [⟨capacity, size⟩])[region.block]? =
        history.arena.blocks[region.block]? :=
    List.getElem?_append_left (known region member)
  refine ⟨⟨history.arena.blocks, _, rfl, length.symm⟩, ?_, ?_, ?_, ?_⟩
  · rw [List.length_append, List.length_singleton]
    refine List.forall_mem_append.mpr ⟨fun region old => ?_, List.forall_mem_singleton.mpr ?_⟩
    · exact Nat.lt_succ_of_lt (known region old)
    · simp [length]
  · simp only [openedSum_concat, UInt64.toNat_add, tracked.total, if_true]
    exact Nat.mod_add_mod _ _ _
  · intro placed
    have clean := tracked.clean (placed.earlier fun region member block' there =>
      ⟨block', (still member).symm.trans there, rfl⟩)
    exact (clean.blank known capacity).taken rfl rfl length.symm positive (Nat.zero_le _)
      (fun _ => rfl) (Nat.zero_add _).symm
  · intro all
    obtain ⟨placed, bounded, sum⟩ :=
      tracked.opened fun region member => all region (List.mem_append_left _ member)
    refine ⟨⟨List.forall_mem_append.mpr ⟨fun region old => ?_, List.forall_mem_singleton.mpr ?_⟩,
      ?_⟩, List.forall_mem_append.mpr ⟨bounded, List.forall_mem_singleton.mpr room⟩, ?_⟩
    · obtain ⟨found, there, fits⟩ := placed.inside region old
      exact ⟨found, (still old).trans there, fits⟩
    · exact ⟨⟨capacity, size⟩, by simp [← length], by simpa using UInt64.le_iff_toNat_le.mp room⟩
    · -- No earlier stretch lies in the block that was just allocated.
      refine List.pairwise_append.mpr ⟨placed.apart, List.pairwise_singleton _ _, ?_⟩
      intro region member other new
      cases List.mem_singleton.mp new
      exact .inl (Nat.ne_of_lt (length ▸ known region member))
    · simp only [openedSum_concat, usedSum_concat, if_true, sum]

end Tracked

theorem tracked_step (tracked : history.Tracked) (op : ArenaOp) :
    (arenaStep history op).Tracked := by
  obtain ⟨front, block, blocks, current⟩ := tracked.last
  cases op with
  | alloc size alignBits allocated =>
    rcases arenaStep_alloc blocks current size alignBits allocated with
      same | ⟨positive, offset, order, start, same⟩ | ⟨positive, capacity, room, same⟩
    · rw [same]
      exact tracked
    · rw [same]
      exact tracked.inBlock blocks current positive order start
    · rw [same]
      exact tracked.newBlock blocks positive room
  | reset =>
    have emptied : (arenaReset history.arena).blocks =
        (front.map fun block => { block with used := 0 }) ++ [{ block with used := 0 }] := by
      simp [arenaReset, blocks]
    refine tracked_empty emptied (by simp [arenaReset, blocks]) ?_ rfl
    intro block member
    obtain ⟨old, -, rfl⟩ := List.mem_map.mp member
    rfl

end ArenaHistory

/-- The arena is as it should be when every stretch since the last reset got a block of its own, and
all of them together can be counted. -/
theorem arena_sound_iff (blockSize : UInt64) (ops : List ArenaOp) :
    (Machine.run arenaStep (ArenaHistory.start blockSize) ops).Sound ↔
      (∀ region ∈ (Machine.run arenaStep (ArenaHistory.start blockSize) ops).regions,
        region.opened = true) ∧
      ((Machine.run arenaStep (ArenaHistory.start blockSize) ops).regions.map (·.size)).sum <
        2 ^ 64 := by
  generalize reached : Machine.run arenaStep (ArenaHistory.start blockSize) ops = history
  have tracked : history.Tracked := by
    rw [← reached]
    apply Machine.run_preserves ArenaHistory.Tracked
    · intro history op tracked
      exact ArenaHistory.tracked_step tracked op
    · exact ArenaHistory.tracked_empty (List.nil_append _).symm rfl (by simp [arenaCreate]) rfl
  have all (opened : ∀ region ∈ history.regions, region.opened = true) :
      openedSum history.regions = (history.regions.map (·.size)).sum := by
    rw [openedSum, List.filter_eq_self.mpr opened]
  constructor
  · intro sound
    have clean := tracked.clean sound.toPlaced
    have counted := tracked.total.symm.trans sound.accounted
    have below := Nat.mod_le (openedSum history.regions) (2 ^ 64)
    have opened : ∀ region ∈ history.regions, region.opened = true := by
      intro region member
      by_contra inside
      have := clean.strict ⟨region, member, Bool.eq_false_iff.mpr inside⟩
      omega
    have bound := Nat.mod_lt (openedSum history.regions) (show 0 < 2 ^ 64 by decide)
    refine ⟨opened, ?_⟩
    rw [← all opened]
    have := clean.short
    omega
  · rintro ⟨opened, countable⟩
    obtain ⟨placed, bounded, sum⟩ := tracked.opened opened
    refine ⟨placed, bounded, ?_⟩
    rw [← all opened] at countable
    rw [tracked.total, Nat.mod_eq_of_lt countable, sum]

/-- Eight octets of the first block are taken, and none are accounted for. -/
theorem arena_unaccounted :
    ¬(Machine.run arenaStep (ArenaHistory.start 0) [.alloc 8 3 true]).Sound := by
  intro sound
  exact absurd sound.accounted (by decide +kernel)

end Nxp
