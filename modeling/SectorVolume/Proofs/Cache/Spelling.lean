import SectorVolume.Inode
import Mathlib.Algebra.Ring.Nat
import Mathlib.Data.List.OfFn

/-!
The bytes of the values that stand in sectors, written out number by number with the lowest byte
of a number first. They are the bytes that the values are stored as, and every row of bytes of the
right length spells just one value.
-/

namespace SectorVolume

/-- The bytes of numbers in a row, four for each. -/
def littleEndian (numbers : List UInt32) : List UInt8 :=
  numbers.flatMap fun n => (List.range 4).map fun k => UInt8.ofNat (n.toNat / 256 ^ k)

/-- The values that stand in sectors: bytes or numbers in a row, or an inode. -/
inductive Layout
  | bytes (count : Nat)
  | words (count : Nat)
  | inode

namespace Layout

abbrev Value : Layout → Type
  | bytes n => Vector UInt8 n
  | words n => Vector UInt32 n
  | inode => Inode

instance (layout : Layout) : Plain layout.Value :=
  match layout with
  | bytes n => inferInstanceAs (Plain (Vector UInt8 n))
  | words n => inferInstanceAs (Plain (Vector UInt32 n))
  | inode => inferInstanceAs (Plain Inode)

/-- The bytes of a value. -/
def spell : (layout : Layout) → layout.Value → List UInt8
  | bytes _, v => Vector.toList v
  | words _, v => littleEndian (Vector.toList v)
  | inode, n => littleEndian ([n.length, n.isDirWord, n.children, n.magic] ++ n.direct.toList ++
      [n.single, n.double] ++ n.unused.toList)

end Layout

section Spelling

theorem wordByte_eq (w : UInt32) {k : Nat} (hk : k < 4) :
    wordByte w k = UInt8.ofNat (w.toNat / 256 ^ k) := by
  have hcases : k = 0 ∨ k = 1 ∨ k = 2 ∨ k = 3 := by omega
  apply UInt8.toNat_inj.1
  rcases hcases with rfl | rfl | rfl | rfl <;>
    simp [wordByte, Nat.shiftRight_eq_div_pow]

theorem toList_bytesOfWords {n : Nat} (v : Vector UInt32 n) :
    (bytesOfWords v).toList = littleEndian v.toList := by
  have hvalues : v.toList = List.ofFn fun i : Fin n => v[i] := by
    rw [← Vector.toList_ofFn]
    have hvector : Vector.ofFn (fun i : Fin n => v[i]) = v := Vector.ofFn_getElem
    exact congrArg Vector.toList hvector.symm
  rw [bytesOfWords, Vector.toList_ofFn, List.ofFn_mul', littleEndian, hvalues, List.flatMap,
    List.map_ofFn]
  congr 2
  funext i
  apply List.ext_getElem
  · simp
  · intro k hk _
    have hlt : k < 4 := by simpa using hk
    have hdiv : (4 * i.val + k) / 4 = i.val := by omega
    have hmod : (4 * i.val + k) % 4 = k := by omega
    simp only [List.getElem_ofFn, Function.comp_apply, List.getElem_map, List.getElem_range, hdiv,
      hmod]
    exact wordByte_eq _ hlt

/-- The numbers of an inode stand in the order of its fields. -/
theorem Inode.toList_toWords (n : Inode) : n.toWords.toList =
    [n.length, n.isDirWord, n.children, n.magic] ++ n.direct.toList ++ [n.single, n.double] ++
      n.unused.toList := by
  apply List.ext_getElem
  · simp
  · intro i hi _
    have hlt : i < 128 := by simpa using hi
    rw [Vector.getElem_toList, getElem_toWords, word]
    simp only [List.getElem_append, List.length_append, List.length_cons, List.length_nil,
      Vector.length_toList, Vector.getElem_toList]
    by_cases h4 : i < 4
    · rw [dif_pos h4, dif_pos (by omega), dif_pos (by omega), dif_pos (by omega)]
      rfl
    · by_cases h16 : i < 16
      · rw [dif_neg h4, dif_pos h16, dif_pos (by omega), dif_pos (by omega), dif_neg (by omega)]
      · by_cases h18 : i < 18
        · rw [dif_neg h4, dif_neg h16, dif_pos h18, dif_pos (by omega), dif_neg (by omega)]
          rfl
        · rw [dif_neg h4, dif_neg h16, dif_neg h18, dif_neg (by omega)]

variable (layout : Layout)

/-- A value is stored as the bytes that it spells. -/
theorem Layout.toList_encode (v : layout.Value) : (Plain.encode v).toList = layout.spell v := by
  cases layout with
  | bytes n => rfl
  | words n => exact toList_bytesOfWords _
  | inode =>
    change (@bytesOfWords 128 (Inode.toWords v)).toList = _
    rw [toList_bytesOfWords, Inode.toList_toWords]
    rfl

theorem Layout.toArray_spell (v : layout.Value) :
    (layout.spell v).toArray = (Plain.encode v).toArray := by
  rw [← layout.toList_encode, Vector.toList, Array.toArray_toList]

/-- Every row of bytes of the right length spells one value. -/
theorem Layout.existsUnique_spell {bytes : List UInt8}
    (h : bytes.length = Plain.size layout.Value) :
    ∃! v, layout.spell v = bytes := by
  refine ⟨Plain.decode ⟨bytes.toArray, by simpa using h⟩, ?_, fun v hv => ?_⟩
  · change layout.spell _ = _
    rw [← layout.toList_encode, Plain.encode_decode]
    rfl
  · subst hv
    refine (Plain.decode_encode v).symm.trans (congrArg Plain.decode ?_)
    exact Vector.toArray_inj.1 (layout.toArray_spell v).symm

end Spelling

end SectorVolume
