import SectorVolume.Inode
import SectorVolume.Inode.BlockCount
import SectorVolume.Script

/-!
The index of a file's blocks, read in two ways: the block at a position, and the list of all
blocks. A block of level 0 is a data block; a block of level `l + 1` holds pointers to blocks of
level `l`.
-/

namespace SectorVolume

/-- How many data blocks lie under a block of a level. -/
def span : (level : Nat) → Nat
  | 0 => 1
  | level + 1 => 128 * span level

/-- A pointer in an index block. -/
def pointerAt (block : UInt32) (i : Nat) : Script UInt32 := do
  let s ← fetchSector block
  if h : i < 128 then pure (@wordAt 128 s i h) else .fail .outOfBounds

/-- The data block with number `i` under a block, unless a pointer on the way to it is null. -/
def blockUnder : (level : Nat) → (block : UInt32) → (i : Nat) → Script (Option UInt32)
  | 0, block, _ => pure (if block = 0 then none else some block)
  | level + 1, block, i =>
    if block = 0 then pure none
    else do
      let next ← pointerAt block (i / span level)
      blockUnder level next (i % span level)

/-- A block and all blocks under it, index blocks before the blocks they name. -/
def blocksUnder : (level : Nat) → (block : UInt32) → Script (List UInt32)
  | 0, block => pure (if block = 0 then [] else [block])
  | level + 1, block =>
    if block = 0 then pure []
    else do
      let entries := IndexBlock.ofSector (← fetchSector block)
      let blocks ← entries.toList.mapM (blocksUnder level)
      return block :: blocks.flatten

namespace Inode

/-- The sector of data block `i`. -/
def block? (n : Inode) (i : Nat) : Script (Option UInt32) :=
  if h : i < 12 then blockUnder 0 n.direct[i] 0
  else if i < singleReach then blockUnder 1 n.single (i - directReach)
  else blockUnder 2 n.double (i - singleReach)

/-- The sector of the byte at `pos`; none past the end of the file or in a hole. -/
def sectorAt? (n : Inode) (pos : Nat) : Script (Option UInt32) :=
  if n.length.toNat ≤ pos then pure none else n.block? (pos / sectorSize)

/-- All sectors of the file but the inode's own. -/
def sectors (n : Inode) : Script (List UInt32) := do
  let direct := n.direct.toList.filter (· ≠ 0)
  let single ← blocksUnder 1 n.single
  let double ← blocksUnder 2 n.double
  return direct ++ single ++ double

end Inode

end SectorVolume
