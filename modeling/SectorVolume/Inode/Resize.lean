import SectorVolume.Inode.Index

/-!
Making a file's blocks fit a length. A walk over the index takes a zeroed sector for every data
block that the length needs and the file lacks, gives back every one it has and does not need, and
does the same with the index blocks on the way. Where no sector is left the walk stops, and a
journal of the sectors taken and of the index blocks found undoes it: a resize happens as a whole
or not at all.
-/

namespace SectorVolume

/-- What one walk has done, the newest first. -/
structure Journal where
  /-- The sectors taken. -/
  allocated : List UInt32 := []
  /-- The index blocks that were there before, with what they held. -/
  overwritten : List (UInt32 × IndexBlock) := []

namespace Journal

/-- Puts the old index blocks back and returns the sectors taken. -/
def undo (j : Journal) : Script Unit := do
  j.overwritten.forM fun (sector, entries) => putSector sector entries.toSector
  j.allocated.forM releaseSector

end Journal

abbrev Walk := ExceptT Refusal (StateT Journal Script)

namespace Walk

def take : Walk UInt32 := do
  match ← allocSector with
  | none => throw .noSpace
  | some sector =>
    modify fun j => { j with allocated := sector :: j.allocated }
    return sector

/-- The pointers of an index block, which is taken if it is not there. -/
def openIndex (block : UInt32) : Walk (UInt32 × IndexBlock) := do
  if block = 0 then
    let block ← take
    return (block, IndexBlock.null)
  else
    let entries := IndexBlock.ofSector (← fetchSector block)
    modify fun j => { j with overwritten := (block, entries) :: j.overwritten }
    return (block, entries)

/-- Stores the pointers of an index block, or returns the block if nothing is under it any
more. -/
def closeIndex (block : UInt32) (entries : IndexBlock) (needed : Nat) : Walk UInt32 := do
  if needed = 0 then
    releaseSector block
    return 0
  else
    putSector block entries.toSector
    return block

/-- Fits pointers in turn. Each covers `width` data blocks, and the first `needed` of all the data
blocks below them are to be there. -/
def fitEach (fit : UInt32 → Nat → Walk UInt32) (width needed : Nat) :
    (n : Nat) → Vector UInt32 n → Walk (Vector UInt32 n)
  | 0, v => pure v
  | n + 1, v => do
    let front ← fitEach fit width needed n v.pop
    let last ← fit v.back (min (needed - n * width) width)
    return front.push last

/-- Fits a block and all below it, so that just the first `needed` data blocks under it are
there. -/
def fit : (level : Nat) → (block : UInt32) → (needed : Nat) → Walk UInt32
  | 0, block, needed => do
    if needed ≠ 0 ∧ block = 0 then
      let sector ← take
      putSector sector Sector.zero
      return sector
    else if needed = 0 ∧ block ≠ 0 then
      releaseSector block
      return 0
    else
      return block
  | level + 1, block, needed => do
    if needed = 0 ∧ block = 0 then
      return block
    else
      let (block, entries) ← openIndex block
      let entries ← fitEach (fun entry k => fit level entry k) (span level) needed 128 entries
      closeIndex block entries needed

end Walk

namespace Inode

/-- Fits the three parts of the index to a number of data blocks. -/
def remap (n : Inode) (blocks : Nat) : Walk Inode := do
  let direct ← Walk.fitEach (Walk.fit 0) 1 blocks 12 n.direct
  let single ← Walk.fit 1 n.single (blocks - directReach)
  let double ← Walk.fit 2 n.double (blocks - singleReach)
  return { n with direct, single, double }

/-- Carries out a walk from an empty journal and returns its outcome with the journal. -/
def walk (n : Inode) (blocks : Nat) : Script (Except Refusal Inode × Journal) :=
  (n.remap blocks).run.run {}

/-- Gives the file a length and stores the inode in its sector. On a refusal everything is as it
was. -/
def resize (n : Inode) (sector : UInt32) (length : Nat) : Script (Except Refusal Inode) := do
  if maxLength < length then
    return .error .tooLarge
  else
    match ← n.walk (dataBlocks length) with
    | (.error refusal, journal) =>
      journal.undo
      return .error refusal
    | (.ok n, _) =>
      let n := { n with length := UInt32.ofNat length }
      putSector sector n.toSector
      return .ok n

/-- Gives back all blocks of the file. The inode's own sector is left alone. -/
def clear (n : Inode) : Script Inode := do
  match ← n.walk 0 with
  | (.error refusal, _) => .fail (.shrinkRefused refusal)
  | (.ok n, _) => return { n with length := 0 }

end Inode

end SectorVolume
