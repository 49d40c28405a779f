import SectorVolume.Plain

/-!
Ranges in a row of bytes. A range is cut out of the row, or has other bytes put in its place; a
value is spelled by the bytes that it is encoded as. What is read from a sector and what is laid
over it is the same for its row of bytes.
-/

namespace SectorVolume

/-- `len` bytes from `offset` on. -/
def slice (bytes : List UInt8) (offset len : Nat) : List UInt8 := (bytes.drop offset).take len

/-- The bytes with `data` in place of those from `offset` on. -/
def splice (bytes : List UInt8) (offset : Nat) (data : List UInt8) : List UInt8 :=
  bytes.take offset ++ data ++ bytes.drop (offset + data.length)

namespace Plain

variable {α : Type} [Plain α]

def toBytes (a : α) : List UInt8 := (encode a).toList

/-- The value that a row of bytes spells. -/
def ofBytes (α : Type) [Plain α] (bytes : List UInt8) : α :=
  decode (Vector.ofFn fun i => bytes.getD i.val 0)

theorem toBytes_ofBytes {bytes : List UInt8} (h : bytes.length = size α) :
    toBytes (ofBytes α bytes) = bytes := by
  rw [toBytes, ofBytes, encode_decode]
  apply List.ext_getElem
  · rw [Vector.length_toList, h]
  · intro i _ hi
    rw [Vector.getElem_toList, Vector.getElem_ofFn, List.getD_eq_getElem?_getD,
      List.getElem?_eq_getElem hi, Option.getD_some]

end Plain

section Ranges

variable {bytes data : List UInt8} {offset len : Nat}

theorem length_slice (h : offset + len ≤ bytes.length) :
    (slice bytes offset len).length = len := by
  rw [slice, List.length_take, List.length_drop]
  omega

/-- Inside its range a row has the bytes that were put there, and outside it those that it had. -/
theorem getElem?_splice (h : offset + data.length ≤ bytes.length) (k : Nat) :
    (splice bytes offset data)[k]? =
      if offset ≤ k ∧ k < offset + data.length then data[k - offset]? else bytes[k]? := by
  have htake : (bytes.take offset).length = offset := by
    rw [List.length_take]
    omega
  rw [splice, List.append_assoc]
  rcases Nat.lt_or_ge k offset with hlt | hge
  · rw [List.getElem?_append_left (by omega), List.getElem?_take_of_lt hlt, if_neg (by omega)]
  · rw [List.getElem?_append_right (by omega), htake]
    rcases Nat.lt_or_ge k (offset + data.length) with hin | hout
    · rw [List.getElem?_append_left (by omega), if_pos ⟨hge, hin⟩]
    · rw [List.getElem?_append_right (by omega), if_neg (by omega), List.getElem?_drop]
      congr 1
      omega

end Ranges

namespace Sector

variable (s : Sector) (offset : Nat)

theorem toList_bytes (len : Nat) : (s.bytes offset len).toList = slice s.toList offset len := by
  rw [bytes, Array.toList_extract, List.extract, Nat.add_sub_cancel_left, slice]
  rfl

theorem toList_overlay {data : Array UInt8} (h : offset + data.size ≤ sectorSize) :
    (s.overlay offset data).toList = splice s.toList offset data.toList := by
  have hlength : s.toList.length = sectorSize := s.length_toList
  apply List.ext_getElem?
  intro k
  rw [getElem?_splice (by rw [hlength, Array.length_toList]; exact h), Array.length_toList]
  by_cases hk : k < sectorSize
  · have hlt : k < (s.overlay offset data).toList.length := by rw [Vector.length_toList]; exact hk
    rw [List.getElem?_eq_getElem hlt, Vector.getElem_toList, getElem_overlay]
    split
    · rename_i hin
      rw [if_pos (by omega), List.getElem?_eq_getElem (by simpa using hin.2),
        Array.getElem_toList]
    · rename_i hout
      rw [if_neg (by omega), List.getElem?_eq_getElem (by rw [hlength]; exact hk),
        Vector.getElem_toList]
  · rw [if_neg (by omega), List.getElem?_eq_none (by rw [Vector.length_toList]; omega),
      List.getElem?_eq_none (by rw [hlength]; omega)]

variable {α : Type} [Plain α]

theorem decodeAt_eq_ofBytes (h : Plain.size α + offset ≤ sectorSize) :
    s.decodeAt α offset h = Plain.ofBytes α (slice s.toList offset (Plain.size α)) := by
  rw [decodeAt, Plain.ofBytes]
  congr 1
  refine Vector.ext fun i hi => ?_
  have hlt : offset + i < s.toList.length := by
    rw [Vector.length_toList]
    omega
  rw [Vector.getElem_ofFn, Vector.getElem_ofFn, List.getD_eq_getElem?_getD, slice,
    List.getElem?_take_of_lt hi, List.getElem?_drop, List.getElem?_eq_getElem hlt,
    Option.getD_some, Vector.getElem_toList]

theorem toList_encodeAt (a : α) (h : Plain.size α + offset ≤ sectorSize) :
    (s.encodeAt offset a).toList = splice s.toList offset (Plain.toBytes a) := by
  have hsize : (Plain.encode a).toArray.size = Plain.size α := Vector.size_toArray _
  rw [encodeAt, toList_overlay s offset (by omega)]
  rfl

end Sector

end SectorVolume
