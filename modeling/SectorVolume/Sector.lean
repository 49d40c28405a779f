import SectorVolume.Fault

/-!
A sector holds 512 bytes. Ranges of bytes are read and overlaid; whole sectors are also seen as
128 little-endian words of 32 bits, and the two views carry the same information.
-/

namespace SectorVolume

abbrev sectorSize : Nat := 512

abbrev Sector := Vector UInt8 sectorSize

namespace Sector

def zero : Sector := Vector.replicate sectorSize 0

def filled (byte : UInt8) : Sector := Vector.replicate sectorSize byte

def ofArray? (bytes : Array UInt8) : Option Sector :=
  if h : bytes.size = sectorSize then some ⟨bytes, h⟩ else none

/-- The bytes from `offset` on, at most `len` of them. -/
def bytes (s : Sector) (offset len : Nat) : Array UInt8 :=
  s.toArray.extract offset (offset + len)

/-- The sector with `data` laid over it from `offset` on. -/
def overlay (s : Sector) (offset : Nat) (data : Array UInt8) : Sector :=
  Vector.ofFn fun i =>
    if h : offset ≤ i.val ∧ i.val - offset < data.size then data[i.val - offset] else s[i]

theorem getElem_overlay (s : Sector) (offset : Nat) (data : Array UInt8) (i : Nat)
    (hi : i < sectorSize) :
    (s.overlay offset data)[i] =
      if h : offset ≤ i ∧ i - offset < data.size then data[i - offset] else s[i] := by
  simp [overlay]

theorem overlay_whole (s t : Sector) : s.overlay 0 t.toArray = t := by
  refine Vector.ext fun i hi => ?_
  simp [getElem_overlay, hi]

theorem size_bytes (s : Sector) (offset len : Nat) (h : offset + len ≤ sectorSize) :
    (s.bytes offset len).size = len := by
  simp only [bytes, Array.size_extract, Vector.size_toArray]
  omega

theorem bytes_overlay (s : Sector) (offset : Nat) (data : Array UInt8)
    (h : offset + data.size ≤ sectorSize) :
    (s.overlay offset data).bytes offset data.size = data := by
  apply Array.ext
  · rw [size_bytes _ _ _ h]
  · intro i hi hi'
    have hlt : offset + i < sectorSize := by omega
    simp [bytes, overlay, hi']

end Sector

/-- The bytes of a word, the lowest first. -/
def wordByte (w : UInt32) (k : Nat) : UInt8 := (w >>> (8 * UInt32.ofNat k)).toUInt8

/-- The word with the given bytes, the lowest first. -/
def byteWord (a b c d : UInt8) : UInt32 :=
  a.toUInt32 + b.toUInt32 * 256 + c.toUInt32 * 65536 + d.toUInt32 * 16777216

theorem byteWord_wordByte (w : UInt32) :
    byteWord (wordByte w 0) (wordByte w 1) (wordByte w 2) (wordByte w 3) = w := by
  apply UInt32.toNat_inj.1
  have h := w.toNat_lt
  simp [byteWord, wordByte, UInt32.toNat_add, UInt32.toNat_mul, Nat.shiftRight_eq_div_pow]
  omega

theorem wordByte_byteWord (a b c d : UInt8) :
    wordByte (byteWord a b c d) 0 = a ∧ wordByte (byteWord a b c d) 1 = b ∧
      wordByte (byteWord a b c d) 2 = c ∧ wordByte (byteWord a b c d) 3 = d := by
  have ha := a.toNat_lt
  have hb := b.toNat_lt
  have hc := c.toNat_lt
  have hd := d.toNat_lt
  refine ⟨?_, ?_, ?_, ?_⟩ <;> apply UInt8.toNat_inj.1 <;>
    simp [byteWord, wordByte, UInt32.toNat_add, UInt32.toNat_mul, Nat.shiftRight_eq_div_pow] <;>
    omega

/-- The bytes of `n` words in a row. -/
def bytesOfWords {n : Nat} (v : Vector UInt32 n) : Vector UInt8 (4 * n) :=
  Vector.ofFn fun i =>
    have h : i.val / 4 < n := by omega
    wordByte v[i.val / 4] (i.val % 4)

/-- The word of which byte `4 * i` is the lowest. -/
def wordAt {n : Nat} (b : Vector UInt8 (4 * n)) (i : Nat) (h : i < n) : UInt32 :=
  byteWord b[4 * i] b[4 * i + 1] b[4 * i + 2] b[4 * i + 3]

def wordsOfBytes {n : Nat} (b : Vector UInt8 (4 * n)) : Vector UInt32 n :=
  Vector.ofFn fun i => wordAt b i.val i.isLt

theorem getElem_wordsOfBytes {n : Nat} (b : Vector UInt8 (4 * n)) (i : Nat) (h : i < n) :
    (wordsOfBytes b)[i] = wordAt b i h := by
  simp [wordsOfBytes]

theorem wordsOfBytes_bytesOfWords {n : Nat} (v : Vector UInt32 n) :
    wordsOfBytes (bytesOfWords v) = v := by
  refine Vector.ext fun i hi => ?_
  have h0 : 4 * i / 4 = i := by omega
  have h1 : (4 * i + 1) / 4 = i := by omega
  have h2 : (4 * i + 2) / 4 = i := by omega
  have h3 : (4 * i + 3) / 4 = i := by omega
  have m0 : 4 * i % 4 = 0 := by omega
  have m1 : (4 * i + 1) % 4 = 1 := by omega
  have m2 : (4 * i + 2) % 4 = 2 := by omega
  have m3 : (4 * i + 3) % 4 = 3 := by omega
  simp only [getElem_wordsOfBytes, wordAt, bytesOfWords, Vector.getElem_ofFn, h0, h1, h2, h3,
    m0, m1, m2, m3, byteWord_wordByte]

theorem bytesOfWords_wordsOfBytes {n : Nat} (b : Vector UInt8 (4 * n)) :
    bytesOfWords (wordsOfBytes b) = b := by
  refine Vector.ext fun i hi => ?_
  obtain ⟨h0, h1, h2, h3⟩ := wordByte_byteWord b[4 * (i / 4)] b[4 * (i / 4) + 1]
    b[4 * (i / 4) + 2] b[4 * (i / 4) + 3]
  simp only [bytesOfWords, Vector.getElem_ofFn, getElem_wordsOfBytes, wordAt]
  have hcases : i % 4 = 0 ∨ i % 4 = 1 ∨ i % 4 = 2 ∨ i % 4 = 3 := by omega
  rcases hcases with hk | hk | hk | hk
  · rw [hk, h0]
    exact getElem_congr_idx (by omega)
  · rw [hk, h1]
    exact getElem_congr_idx (by omega)
  · rw [hk, h2]
    exact getElem_congr_idx (by omega)
  · rw [hk, h3]
    exact getElem_congr_idx (by omega)

end SectorVolume
