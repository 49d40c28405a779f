import SectorVolume.Plain

/-!
The record of a file, which fills one sector: 128 words that hold the length, the kind, the number
of children, a mark, and pointers to the file's blocks. Twelve pointers name data blocks; one
names an index block of 128 data blocks, and one an index block of 128 such index blocks. Pointer
0 is null.
-/

namespace SectorVolume

/-- The pointers that an index block holds. -/
abbrev IndexBlock := Vector UInt32 128

namespace IndexBlock

def null : IndexBlock := Vector.replicate 128 0

def ofSector (s : Sector) : IndexBlock := @wordsOfBytes 128 s

def toSector (v : IndexBlock) : Sector := @bytesOfWords 128 v

@[simp] theorem ofSector_toSector (v : IndexBlock) : ofSector (toSector v) = v :=
  wordsOfBytes_bytesOfWords v

@[simp] theorem toSector_ofSector (s : Sector) : toSector (ofSector s) = s :=
  @bytesOfWords_wordsOfBytes 128 s

end IndexBlock

structure Inode where
  length : UInt32
  isDirWord : UInt32
  children : UInt32
  magic : UInt32
  direct : Vector UInt32 12
  /-- The index block of data blocks. -/
  single : UInt32
  /-- The index block of index blocks. -/
  double : UInt32
  unused : Vector UInt32 110
  deriving DecidableEq

namespace Inode

/-- The mark of a sector that holds an inode. -/
def magicNumber : UInt32 := 0x494e4f44

/-- A file without blocks. -/
def blank (isDir : Bool) : Inode where
  length := 0
  isDirWord := if isDir then 1 else 0
  children := 0
  magic := magicNumber
  direct := Vector.replicate 12 0
  single := 0
  double := 0
  unused := Vector.replicate 110 0

def isValid (n : Inode) : Bool := n.magic == magicNumber

def isDir (n : Inode) : Bool := n.isDirWord != 0

/-- The word of an inode at a place in its sector. -/
def word (n : Inode) (i : Nat) (hi : i < 128) : UInt32 :=
  if h : i < 4 then #v[n.length, n.isDirWord, n.children, n.magic][i]
  else if h : i < 16 then n.direct[i - 4]
  else if h : i < 18 then #v[n.single, n.double][i - 16]
  else n.unused[i - 18]

def toWords (n : Inode) : Vector UInt32 128 := Vector.ofFn fun i => n.word i.val i.isLt

def ofWords (w : Vector UInt32 128) : Inode where
  length := w[0]
  isDirWord := w[1]
  children := w[2]
  magic := w[3]
  direct := Vector.ofFn fun i : Fin 12 => w[4 + i.val]
  single := w[16]
  double := w[17]
  unused := Vector.ofFn fun i : Fin 110 => w[18 + i.val]

theorem getElem_toWords (n : Inode) (i : Nat) (hi : i < 128) : n.toWords[i] = n.word i hi := by
  simp [toWords]

theorem ofWords_toWords (n : Inode) : ofWords n.toWords = n := by
  obtain ⟨length, isDirWord, children, magic, direct, single, double, unused⟩ := n
  simp only [ofWords, getElem_toWords, mk.injEq]
  refine ⟨rfl, rfl, rfl, rfl, ?_, rfl, rfl, ?_⟩
  · refine Vector.ext fun i hi => ?_
    rw [Vector.getElem_ofFn, word, dif_neg (by omega), dif_pos (by omega)]
    exact getElem_congr_idx (Nat.add_sub_cancel_left ..)
  · refine Vector.ext fun i hi => ?_
    rw [Vector.getElem_ofFn, word, dif_neg (by omega), dif_neg (by omega), dif_neg (by omega)]
    exact getElem_congr_idx (Nat.add_sub_cancel_left ..)

theorem toWords_ofWords (w : Vector UInt32 128) : (ofWords w).toWords = w := by
  apply Vector.ext
  intro i hi
  rw [getElem_toWords, word]
  split
  · have : i = 0 ∨ i = 1 ∨ i = 2 ∨ i = 3 := by omega
    rcases this with rfl | rfl | rfl | rfl <;> rfl
  · split
    · simp [ofWords, show 4 + (i - 4) = i by omega]
    · split
      · have : i = 16 ∨ i = 17 := by omega
        rcases this with rfl | rfl <;> rfl
      · simp [ofWords, show 18 + (i - 18) = i by omega]

def toSector (n : Inode) : Sector := @bytesOfWords 128 n.toWords

def ofSector (s : Sector) : Inode := ofWords (@wordsOfBytes 128 s)

@[simp] theorem ofSector_toSector (n : Inode) : ofSector (toSector n) = n := by
  rw [ofSector, toSector, wordsOfBytes_bytesOfWords, ofWords_toWords]

@[simp] theorem toSector_ofSector (s : Sector) : toSector (ofSector s) = s := by
  rw [ofSector, toSector, toWords_ofWords, @bytesOfWords_wordsOfBytes 128 s]

instance : Plain Inode where
  size := sectorSize
  align := 4
  encode := toSector
  decode := ofSector
  decode_encode := ofSector_toSector
  encode_decode := toSector_ofSector

end Inode

end SectorVolume
