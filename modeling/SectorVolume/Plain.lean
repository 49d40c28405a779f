import SectorVolume.Sector

/-!
Values with a fixed layout in bytes. Every pattern of bytes is a value and the other way round, so
a value may be read off a sector and written onto one wherever its range and alignment permit.
-/

namespace SectorVolume

class Plain (α : Type) where
  size : Nat
  align : Nat
  encode : α → Vector UInt8 size
  decode : Vector UInt8 size → α
  decode_encode : ∀ a, decode (encode a) = a
  encode_decode : ∀ b, encode (decode b) = b

instance {n : Nat} : Plain (Vector UInt8 n) where
  size := n
  align := 1
  encode v := v
  decode v := v
  decode_encode _ := rfl
  encode_decode _ := rfl

instance {n : Nat} : Plain (Vector UInt32 n) where
  size := 4 * n
  align := 4
  encode := bytesOfWords
  decode := wordsOfBytes
  decode_encode := wordsOfBytes_bytesOfWords
  encode_decode := bytesOfWords_wordsOfBytes

namespace Sector

variable {α : Type} [Plain α]

/-- The value that starts at `offset`. -/
def decodeAt (α : Type) [Plain α] (s : Sector) (offset : Nat)
    (h : Plain.size α + offset ≤ sectorSize) : α :=
  Plain.decode (Vector.ofFn fun i => s[offset + i.val])

/-- The sector with a value laid over it from `offset` on. -/
def encodeAt (s : Sector) (offset : Nat) (a : α) : Sector :=
  s.overlay offset (Plain.encode a).toArray

theorem decodeAt_encodeAt (s : Sector) (offset : Nat) (a : α)
    (h : Plain.size α + offset ≤ sectorSize) :
    (s.encodeAt offset a).decodeAt α offset h = a := by
  have hbytes : (Vector.ofFn fun i : Fin (Plain.size α) =>
      (s.encodeAt offset a)[offset + i.val]) = Plain.encode a := by
    refine Vector.ext fun i hi => ?_
    simp [encodeAt, getElem_overlay]
  rw [decodeAt, hbytes, Plain.decode_encode]

theorem encodeAt_decodeAt (s : Sector) (offset : Nat)
    (h : Plain.size α + offset ≤ sectorSize) :
    s.encodeAt offset (s.decodeAt α offset h) = s := by
  refine Vector.ext fun i hi => ?_
  rw [encodeAt, decodeAt, Plain.encode_decode, getElem_overlay]
  split
  · rename_i hin
    simp [show offset + (i - offset) = i by omega]
  · rfl

/-- Does `k` where a value of type `α` may stand: inside the sector, at a multiple of its
alignment. The range is looked at first. -/
def withPlace (α : Type) [Plain α] {β : Type} (offset : Nat)
    (k : Plain.size α + offset ≤ sectorSize → Except Fault β) : Except Fault β :=
  if wordLimit ≤ Plain.size α + offset then .error .overflow
  else if h : Plain.size α + offset ≤ sectorSize then
    if offset % Plain.align α = 0 then k h else .error .misaligned
  else .error .outsideSector

theorem withPlace_of_aligned {β : Type} (offset : Nat)
    (k : Plain.size α + offset ≤ sectorSize → Except Fault β)
    (h : Plain.size α + offset ≤ sectorSize) (ha : offset % Plain.align α = 0) :
    withPlace α offset k = k h := by
  have hlt : ¬wordLimit ≤ Plain.size α + offset := by
    simp only [wordLimit, sectorSize] at *
    omega
  simp [withPlace, hlt, h, ha]

end Sector

end SectorVolume
