import SectorVolume.Sector

/-!
How many sectors a file of a given length takes: its data blocks, and the index blocks on the way
to them. Up to 12 data blocks need no index block, the next 128 one, and all others an outer one
and one for every 128 of them.
-/

namespace SectorVolume

/-- How many data blocks the pointers in the inode reach. -/
abbrev directReach : Nat := 12

/-- How many data blocks are reached without the double index. -/
abbrev singleReach : Nat := 140

/-- How many data blocks a file can have. -/
abbrev maxBlocks : Nat := 16524

def maxLength : Nat := maxBlocks * sectorSize

def dataBlocks (length : Nat) : Nat := (length + (sectorSize - 1)) / sectorSize

def totalBlocks (length : Nat) : Nat :=
  let data := dataBlocks length
  data + (if directReach < data then 1 else 0) +
    (if singleReach < data then 1 + (data - singleReach + 127) / 128 else 0)

theorem lt_dataBlocks_iff {i length : Nat} : i < dataBlocks length ↔ i * sectorSize < length := by
  simp only [dataBlocks, sectorSize]
  omega

theorem dataBlocks_mono {a b : Nat} (h : a ≤ b) : dataBlocks a ≤ dataBlocks b := by
  simp only [dataBlocks, sectorSize]
  omega

theorem dataBlocks_le_maxBlocks_iff {length : Nat} :
    dataBlocks length ≤ maxBlocks ↔ length ≤ maxLength := by
  simp only [dataBlocks, maxLength, sectorSize, maxBlocks]
  omega

theorem totalBlocks_mono {a b : Nat} (h : a ≤ b) : totalBlocks a ≤ totalBlocks b := by
  have := dataBlocks_mono h
  simp only [totalBlocks]
  split <;> split <;> split <;> split <;> omega

end SectorVolume
