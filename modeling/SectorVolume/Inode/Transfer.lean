import SectorVolume.Inode.Index

/-!
Reading and writing the bytes of a file. A range of bytes is cut at the ends of sectors into
pieces, which are moved one after the other until one has no sector.
-/

namespace SectorVolume

/-- Bytes of a file that lie in one sector. -/
structure Piece where
  start : Nat
  len : Nat
  deriving DecidableEq, Repr

namespace Piece

/-- Where in its sector a piece starts. -/
def offset (p : Piece) : Nat := p.start % sectorSize

/-- The part of a range that lies in block `i`. -/
def within (start stop i : Nat) : Piece :=
  let first := max start (i * sectorSize)
  ⟨first, min stop ((i + 1) * sectorSize) - first⟩

/-- The pieces of a range in order. -/
def ofRange (start stop : Nat) : List Piece :=
  if start < stop then
    (List.range' (start / sectorSize) (dataBlocks stop - start / sectorSize)).map
      (within start stop)
  else []

theorem ofRange_of_le {start stop : Nat} (h : stop ≤ start) : ofRange start stop = [] := by
  simp [ofRange, Nat.not_lt.2 h]

/-- The first piece of a range ends with its sector or with the range. -/
theorem ofRange_of_lt {start stop : Nat} (h : start < stop) :
    ofRange start stop =
      ⟨start, min stop ((start / sectorSize + 1) * sectorSize) - start⟩ ::
        ofRange (min stop ((start / sectorSize + 1) * sectorSize)) stop := by
  have hcount : dataBlocks stop - start / sectorSize =
      (dataBlocks stop - (start / sectorSize + 1)) + 1 := by
    simp only [dataBlocks, sectorSize] at *
    omega
  have hfirst : within start stop (start / sectorSize) =
      ⟨start, min stop ((start / sectorSize + 1) * sectorSize) - start⟩ := by
    have : max start (start / sectorSize * sectorSize) = start := by
      simp only [sectorSize]
      omega
    rw [within, this]
  rw [ofRange, if_pos h, hcount, List.range'_succ, List.map_cons, hfirst]
  congr 1
  by_cases hstop : stop ≤ (start / sectorSize + 1) * sectorSize
  · have hzero : dataBlocks stop - (start / sectorSize + 1) = 0 := by
      simp only [dataBlocks, sectorSize] at *
      omega
    rw [Nat.min_eq_left hstop, hzero, ofRange_of_le (Nat.le_refl stop)]
    rfl
  · have hlt : (start / sectorSize + 1) * sectorSize < stop := Nat.lt_of_not_le hstop
    have hdiv : (start / sectorSize + 1) * sectorSize / sectorSize = start / sectorSize + 1 :=
      Nat.mul_div_cancel _ (by decide)
    rw [Nat.min_eq_right (Nat.le_of_lt hlt), ofRange, if_pos hlt, hdiv]
    apply List.map_congr_left
    intro i hi
    have hle : start / sectorSize + 1 ≤ i := (List.mem_range'_1.1 hi).1
    have hmax : max start (i * sectorSize) =
        max ((start / sectorSize + 1) * sectorSize) (i * sectorSize) := by
      simp only [sectorSize] at *
      omega
    rw [within, within, hmax]

end Piece

namespace Inode

def readPieces (n : Inode) : List Piece → (sofar : Array UInt8) → Script (Array UInt8)
  | [], sofar => pure sofar
  | p :: rest, sofar => do
    match ← n.sectorAt? p.start with
    | none => return sofar
    | some sector =>
      let s ← fetchSector sector
      n.readPieces rest (sofar ++ s.bytes p.offset p.len)

/-- The bytes from `offset` on, up to the first hole. A range that leaves the file gives
nothing. -/
def readAt (n : Inode) (offset len : Nat) : Script (Array UInt8) :=
  let stop := offset + len
  if wordLimit ≤ stop ∨ n.length.toNat < stop then pure #[]
  else n.readPieces (Piece.ofRange offset stop) #[]

/-- Lays bytes over a sector. A whole sector is replaced without a look at its old bytes. -/
def writePiece (sector : UInt32) (offset : Nat) (data : Array UInt8) : Script Unit :=
  match Sector.ofArray? data with
  | some s => putSector sector s
  | none => updateSector sector fun s => .ok (s.overlay offset data)

def writePieces (n : Inode) (offset : Nat) (data : Array UInt8) :
    List Piece → (sofar : Nat) → Script Nat
  | [], sofar => pure sofar
  | p :: rest, sofar => do
    match ← n.sectorAt? p.start with
    | none => return sofar
    | some sector =>
      let skipped := p.start - offset
      writePiece sector p.offset (data.extract skipped (skipped + p.len))
      n.writePieces offset data rest (sofar + p.len)

/-- Writes bytes from `offset` on, up to the end of the file or the first hole, and returns how
many were written. The file does not grow. -/
def writeAt (n : Inode) (offset : Nat) (data : Array UInt8) : Script Nat :=
  let stop := offset + data.size
  if wordLimit ≤ stop then pure 0
  else n.writePieces offset data (Piece.ofRange offset (min stop n.length.toNat)) 0

end Inode

end SectorVolume
