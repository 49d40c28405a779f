import SectorVolume.ImageFile
import SectorVolume.Proofs.Cache.Devices

/-!
A file of bytes with just the sectors of a disk does what the disk does. Bytes laid over it inside
its length replace a sector and leave its length alone.
-/

namespace SectorVolume

/-- The file with the bytes of a disk. -/
def RamDisk.image (d : RamDisk) : ImageFile where
  bytes := ⟨Array.ofFn fun i : Fin (d.sectors.size * sectorSize) =>
    have hsector := (Nat.div_lt_iff_lt_mul (by decide)).2 i.isLt
    have hbyte : i.val % sectorSize < sectorSize := Nat.mod_lt _ (by decide)
    d.sectors[i.val / sectorSize][i.val % sectorSize]⟩

namespace ImageFile

theorem data_set! (b : ByteArray) (i : Nat) (x : UInt8) :
    (b.set! i x).data = b.data.setIfInBounds i x := rfl

/-- The first bytes of some data, laid over others inside them. -/
theorem fold_set! {data : Array UInt8} {n : Nat} (hn : n ≤ data.size) {bytes : ByteArray}
    {offset : Nat} (hin : offset + n ≤ bytes.size) :
    (n.fold (fun k _ b => b.set! (offset + k) data[k]) bytes).size = bytes.size ∧
      ∀ i, (n.fold (fun k _ b => b.set! (offset + k) data[k]) bytes).data[i]? =
        if offset ≤ i ∧ i < offset + n then data[i - offset]? else bytes.data[i]? := by
  induction n with
  | zero => exact ⟨rfl, fun i => by rw [Nat.fold_zero, if_neg (by omega)]⟩
  | succ n ih =>
    obtain ⟨hsize, hbytes⟩ := ih (by omega) (by omega)
    rw [Nat.fold_succ]
    refine ⟨Array.size_setIfInBounds.trans hsize, fun i => ?_⟩
    rw [data_set!, Array.getElem?_setIfInBounds, hbytes]
    by_cases hi : offset + n = i
    · have hlt : offset + n < bytes.size := by omega
      have hk : i - offset = n := by omega
      rw [if_pos hi, ByteArray.size_data, hsize, if_pos hlt, if_pos (by omega), hk,
        Array.getElem?_eq_getElem]
    · rw [if_neg hi]
      by_cases hold : offset ≤ i ∧ i < offset + n
      · rw [if_pos hold, if_pos (by omega)]
      · rw [if_neg hold, if_neg (by omega)]

/-- Data laid over a file inside its length. -/
theorem overlay_inside {f : ImageFile} {offset : Nat} {data : Array UInt8}
    (hin : offset + data.size ≤ f.size) :
    (f.overlay offset data).size = f.size ∧ ∀ i, (f.overlay offset data).bytes.data[i]? =
      if offset ≤ i ∧ i < offset + data.size then data[i - offset]? else f.bytes.data[i]? := by
  rw [overlay]
  by_cases hempty : data.isEmpty
  · rw [if_pos hempty]
    have hzero : data.size = 0 := by simpa using hempty
    exact ⟨rfl, fun i => by rw [if_neg (by omega)]⟩
  · rw [if_neg hempty, if_neg (Nat.not_lt.2 hin)]
    exact fold_set! (Nat.le_refl _) hin

theorem position_of_numbered {i : Nat} (hi : i < UInt32.size) :
    position i = .ok (i * sectorSize) := by
  have hlt : i * sectorSize < UInt32.size * sectorSize :=
    Nat.mul_lt_mul_of_pos_right hi (by decide)
  have hoffset : UInt32.size * sectorSize ≤ maxOffset := by decide
  have hword : maxOffset < wordLimit := by decide
  rw [position, if_neg (by omega), if_neg (by omega)]

end ImageFile

namespace RamDisk

variable {d e : RamDisk} {i : Nat} {s : Sector}

@[simp] theorem size_image (d : RamDisk) : d.image.size = d.sectors.size * sectorSize :=
  Array.size_ofFn

/-- A byte of the file, by its sector and its place there. -/
theorem getElem?_image (hi : i < d.sectors.size) {k : Nat} (hk : k < sectorSize) :
    d.image.bytes.data[i * sectorSize + k]? = some d.sectors[i][k] := by
  have hlt : i * sectorSize + k < d.sectors.size * sectorSize := by
    simp only [sectorSize] at *
    omega
  have hdiv : (i * sectorSize + k) / sectorSize = i := by
    simp only [sectorSize] at *
    omega
  have hmod : (i * sectorSize + k) % sectorSize = k := by
    simp only [sectorSize] at *
    omega
  rw [image, Array.getElem?_ofFn, dif_pos hlt]
  simp only [hdiv, hmod]

/-- A file with the right bytes is the file of the disk. -/
theorem eq_image {f : ImageFile} (hsize : f.size = d.sectors.size * sectorSize)
    (hbytes : ∀ i (hi : i < d.sectors.size), ∀ k (hk : k < sectorSize),
      f.bytes.data[i * sectorSize + k]? = some d.sectors[i][k]) : f = d.image := by
  obtain ⟨⟨bytes⟩⟩ := f
  have hsame : bytes = d.image.bytes.data := by
    apply Array.ext_getElem?
    intro pos
    rcases Nat.lt_or_ge pos (d.sectors.size * sectorSize) with hin | hout
    · have hi := (Nat.div_lt_iff_lt_mul (by decide)).2 hin
      have hk : pos % sectorSize < sectorSize := Nat.mod_lt _ (by decide)
      have hpos := Nat.div_add_mod' pos sectorSize
      rw [← hpos, getElem?_image hi hk]
      exact hbytes _ hi _ hk
    · rw [Array.getElem?_eq_none (by rw [← hsize] at hout; exact hout), Array.getElem?_eq_none]
      exact Nat.le_trans (Nat.le_of_eq (size_image d)) hout
  rw [hsame]

theorem image_blank (n : Nat) : (blank n).image = ImageFile.blank (n * sectorSize) := by
  have hsize : (blank n).sectors.size = n := Array.size_replicate
  refine (eq_image ?_ fun i hi k hk => ?_).symm
  · rw [hsize, ImageFile.size, ImageFile.blank]
    change (zeroBytes _).data.size = _
    rw [data_zeroBytes, Array.size_replicate]
  · have hlt : i * sectorSize + k < n * sectorSize := by
      simp only [sectorSize] at *
      omega
    rw [ImageFile.blank, data_zeroBytes, Array.getElem?_replicate, if_pos hlt]
    simp [blank, Sector.zero]

theorem sector_image (hnumbered : d.sectors.size ≤ UInt32.size) (hread : d.sector i = .ok s) :
    d.image.sector i = .ok s := by
  obtain ⟨hi, rfl⟩ : ∃ hi : i < d.sectors.size, d.sectors[i] = s := by
    cases hs : d.sectors[i]? with
    | none => simp [sector, hs] at hread
    | some t =>
      simp only [sector, hs, Except.ok.injEq] at hread
      subst hread
      exact Array.getElem?_eq_some_iff.1 hs
  have hend : i * sectorSize + sectorSize ≤ d.image.bytes.size := by
    change _ ≤ d.image.size
    rw [size_image, ← Nat.succ_mul]
    exact Nat.mul_le_mul_right _ hi
  rw [ImageFile.sector, ImageFile.position_of_numbered (Nat.lt_of_lt_of_le hi hnumbered)]
  change (if h : _ then _ else _) = _
  rw [dif_pos hend]
  refine congrArg Except.ok (Vector.ext fun k hk => ?_)
  have hbyte := getElem?_image hi hk
  rw [Vector.getElem_ofFn]
  exact (Array.getElem?_eq_some_iff.1 hbyte).2

theorem writeBytes_image (hnumbered : d.sectors.size ≤ UInt32.size)
    (hwrite : setSector i s d = .ok () e) :
    ImageFile.writeBytes i s.toArray d.image = .ok () e.image := by
  obtain ⟨hi, rfl⟩ := setSector_eq_ok_iff.1 hwrite
  have hin : i * sectorSize + s.toArray.size ≤ d.image.size := by
    rw [size_image, Vector.size_toArray, ← Nat.succ_mul]
    exact Nat.mul_le_mul_right _ hi
  obtain ⟨hsize, hbytes⟩ := ImageFile.overlay_inside hin
  have himage : d.image.overlay (i * sectorSize) s.toArray =
      image ⟨d.sectors.setIfInBounds i s⟩ := by
    refine eq_image ?_ fun j hj k hk => ?_
    · rw [hsize, size_image, Array.size_setIfInBounds]
    · rw [Array.size_setIfInBounds] at hj
      rw [hbytes, getElem?_image hj hk, Array.getElem_setIfInBounds hj, Vector.size_toArray]
      by_cases hij : i = j
      · subst hij
        rw [if_pos (by omega), if_pos rfl, Nat.add_sub_cancel_left]
        exact Array.getElem?_eq_getElem (by simpa using hk)
      · have hout : ¬(i * sectorSize ≤ j * sectorSize + k ∧
            j * sectorSize + k < i * sectorSize + sectorSize) := by
          simp only [sectorSize] at *
          omega
        rw [if_neg hout, if_neg hij]
  rw [ImageFile.writeBytes, ImageFile.position_of_numbered (Nat.lt_of_lt_of_le hi hnumbered)]
  exact congrArg (EStateM.Result.ok ()) himage

end RamDisk

/-- The file has the bytes of the disk, whose sectors can be numbered. -/
structure ImageFile.Copies (f : ImageFile) (d : RamDisk) : Prop where
  eq_image : f = d.image
  numbered : d.sectors.size ≤ UInt32.size

theorem ImageFile.mirrors_copies : Mirrors ImageFile.Copies fun _ _ => True where
  read h hread := by
    rw [h.eq_image]
    exact RamDisk.sector_image h.numbered hread
  write := by
    intro f d i s h _ u e hwrite
    refine ⟨e.image, ?_, rfl, ?_⟩
    · rw [h.eq_image]
      exact RamDisk.writeBytes_image h.numbered hwrite
    · obtain ⟨_, rfl⟩ := RamDisk.setSector_eq_ok_iff.1 hwrite
      rw [Array.size_setIfInBounds]
      exact h.numbered

end SectorVolume
