import Nxp.Types

/-! The arena allocator: blocks that are filled from the front and all emptied at once. -/

namespace Nxp

/-- A block with its size and how much of it is taken. -/
structure ArenaBlock where
  capacity : UInt64
  used : UInt64
  deriving DecidableEq, Repr

/-- An arena, its blocks in the order they were allocated in. -/
structure Arena where
  blocks : List ArenaBlock
  current : Nat
  blockSize : UInt64
  totalAllocated : UInt64
  totalUsed : UInt64
  deriving DecidableEq, Repr

/-- Round up to a multiple of a power of two. -/
def alignUp (value align : UInt64) : UInt64 := (value + align - 1) &&& ~~~(align - 1)

/-- An arena with its first block. -/
def arenaCreate (blockSize : UInt64) : Arena :=
  let blockSize := if blockSize = 0 then 64 * 1024 else blockSize
  ⟨[⟨blockSize, 0⟩], 0, blockSize, blockSize, 0⟩

/-- Take a stretch of a block, named by the block and the offset in it. -/
def arenaAlloc (allocated : Bool) (arena : Arena) (size align : UInt64) :
    Option (Nat × UInt64) × Arena :=
  if size = 0 then (none, arena)
  else match arena.blocks[arena.current]? with
    | none => (none, arena)
    | some block =>
      let alignedOffset := alignUp block.used align
      if alignedOffset + size ≤ block.capacity then
        let block := { block with used := alignedOffset + size }
        (some (arena.current, alignedOffset),
          { arena with
            blocks := arena.blocks.set arena.current block
            -- The source has already moved the end of the block when it reads it here.
            totalUsed := arena.totalUsed + (alignedOffset - block.used + size) })
      else
        let needed := alignUp 0 align + size
        let newCap := if needed > arena.blockSize then needed else arena.blockSize
        if !allocated then (none, arena)
        else
          let off := alignUp 0 align
          (some (arena.blocks.length, off),
            { arena with
              blocks := arena.blocks ++ [⟨newCap, off + size⟩]
              current := arena.blocks.length
              totalAllocated := arena.totalAllocated + newCap
              totalUsed := arena.totalUsed + (off + size) })

/-- Empty all blocks, and fill the newest first from then on. -/
def arenaReset (arena : Arena) : Arena :=
  { arena with
    blocks := arena.blocks.map fun block => { block with used := 0 }
    current := arena.blocks.length - 1
    totalUsed := 0 }

end Nxp
