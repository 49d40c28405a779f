import SectorVolume.Proofs.Image.Packing
import SectorVolume.Proofs.Image.Reader

/-!
Images from the outside. What packing gives depends on the lengths of the host files alone, and
reading a file back from the image gives the bytes of the host file. The reader knows nothing but
the image: it has an empty cache and no free map.
-/

namespace SectorVolume

/-- On a blank disk the first sector is set aside, and there are no files. -/
theorem RamDisk.exists_filled_blank {sectors : Nat} (hpos : 1 ≤ sectors)
    (hnumbered : sectors ≤ UInt32.size) :
    ∃ map, (FreeMap.ofBitmap (Bitmap.blank sectors)).reserve 0 1 = .ok map ∧
      ((blank sectors).medium map).Filled sectors 1 fun _ => none := by
  obtain ⟨b, hmap, hcapacity, hfree⟩ := FreeMap.exists_reserve_blank hpos hnumbered
  have hsize : ((blank sectors).medium (FreeMap.ofBitmap b)).size = sectors :=
    Array.size_replicate
  refine ⟨FreeMap.ofBitmap b, hmap, hsize, hnumbered, ?_, ?_, fun s _ => ?_⟩
  · exact Medium.holds_nothing (by decide) (Nat.le_of_eq hsize.symm) hnumbered hcapacity hfree
  · exact congrArg (List.map UInt32.ofNat) (Bitmap.clear_eq_range' hfree)
  · change (Array.replicate sectors Sector.zero)[s.toNat]?.getD Sector.zero = _
    rw [Array.getElem?_replicate]
    split <;> rfl

namespace Image

variable {sectors : Nat} {d : Medium} {x : UInt32} {n : Inode} {f : File} {data : Array UInt8}

theorem ends_readFile (hn : d.Stores x n f) (hf : f.Has data) (map : FreeMap) :
    Ends (readFile x) { d with map } fun r _ => r = .ok data := by
  have hinode : ({ d with map } : Medium).HasInode x n :=
    ⟨hn.hasInode.exists_sector, hn.hasInode.stored, hn.hasInode.valid⟩
  have hlength : n.length.toNat = data.size := hn.length_eq.trans hf.length_eq
  have hread := hn.eval_readAt_of_map map 0 n.length.toNat
  rw [hlength, hf.read_eq, ← hlength] at hread
  rw [readFile_eq]
  refine ends_script_bind (Script.eval_fetchSector hinode.exists_sector) ?_
  rw [hinode.ofSector_eq, if_pos hn.hasInode.valid]
  refine ends_script (eval_readWhole hinode hread) ?_
  rw [hlength, Nat.sub_self, Array.replicate_zero, Array.append_empty]

/-- A file on the disk is read back from the image of the disk. -/
theorem cat_of_stores {disk : RamDisk} (hnumbered : disk.sectors.size ≤ UInt32.size)
    {map : FreeMap}
    (hn : (disk.medium map).Stores x n f) (hf : f.Has data) (hx : x ≠ 0) :
    (cat disk.image x).1 = .ok (.ok data) := by
  have hsectors : disk.image.sectors = disk.sectors.size := by
    rw [ImageFile.sectors, RamDisk.size_image, Nat.mul_div_cancel _ (by decide)]
  have hexists : x.toNat < disk.sectors.size := hn.hasInode.exists_sector
  obtain ⟨r, d', disk', hrun, rfl, _⟩ := exists_withEngine hnumbered
    (ends_readFile hn hf (FreeMap.ofBitmap (Bitmap.blank disk.sectors.size)))
  rw [cat, hsectors, if_neg (not_or.2 ⟨hx, Nat.not_le.2 hexists⟩), hrun]

/-- A sector that is zero on the disk is zero in the image. -/
theorem sector_image_of_filled {disk : RamDisk} {map : FreeMap} {next : Nat}
    {files : UInt32 → Option File} (h : (disk.medium map).Filled sectors next files) {i : Nat}
    (hle : next ≤ i) (hlt : i < sectors) : disk.image.sector i = .ok Sector.zero := by
  have hsize : disk.sectors.size = sectors := h.size
  have hnumbered := h.numbered
  apply RamDisk.sector_image (by omega)
  have hnumber : (UInt32.ofNat i).toNat = i := UInt32.toNat_ofNat_of_lt' (by omega)
  have hzero : disk.sectors[(UInt32.ofNat i).toNat]?.getD Sector.zero = Sector.zero :=
    h.zero (UInt32.ofNat i) (by omega)
  rw [hnumber, Array.getElem?_eq_getElem (by omega), Option.getD_some] at hzero
  rw [RamDisk.sector, Array.getElem?_eq_getElem (by omega), hzero]

/-- Packing ends with the error of the first host file that cannot be packed, or with an image
that has them all. -/
theorem exists_pack (hpos : 1 ≤ sectors) (hnumbered : sectors ≤ UInt32.size)
    (hosts : List (String × HostFile)) :
    ∃ (r : Except ImageError (List UInt32)) (disk : RamDisk) (map : FreeMap),
      pack sectors hosts = (.ok r, disk.image) ∧
      ((∃ e, Fails sectors (sectors - 1) hosts e ∧ r = .error e) ∨
      (Fits sectors (sectors - 1) hosts ∧ ∃ xs files, r = .ok xs ∧
        Packed sectors 1 hosts (fun _ => none) files xs ∧
        (disk.medium map).Filled sectors (1 + space sectors hosts) files)) := by
  obtain ⟨map, hmap, hfilled⟩ := RamDisk.exists_filled_blank hpos hnumbered
  have hblank : (RamDisk.blank sectors).sectors.size = sectors := Array.size_replicate
  obtain ⟨r, d, disk, hrun, hr, -, hmedium⟩ := exists_withEngine (by rw [hblank]; exact hnumbered)
    (ends_packFiles hfilled hpos hosts)
  refine ⟨r, disk, d.map, ?_, hmedium.symm ▸ hr⟩
  have hbytes : sectors * sectorSize ≤ UInt32.size * sectorSize :=
    Nat.mul_le_mul_right _ hnumbered
  have hoffset : UInt32.size * sectorSize ≤ ImageFile.maxOffset := by decide
  have hword : ImageFile.maxOffset < wordLimit := by decide
  rw [pack, if_neg (by omega), if_neg (by omega), hmap, ← RamDisk.image_blank]
  exact hrun

/-- Packing host files and reading them back. All goes well exactly if the host files can be read,
none is too long, and their inodes and blocks fit into all sectors but the first; then the inodes
lie at the sums of what was packed before, nothing is written behind the last copy, and reading
from an inode gives the bytes of the host file. -/
theorem pack_then_cat {sectors : Nat} (hpos : 1 ≤ sectors) (hnumbered : sectors ≤ UInt32.size)
    (hosts : List (String × HostFile)) :
    ((∃ inodes, (pack sectors hosts).1 = .ok (.ok inodes)) ↔ Fits sectors (sectors - 1) hosts) ∧
    (¬Fits sectors (sectors - 1) hosts → ∃ e, Fails sectors (sectors - 1) hosts e ∧
      (pack sectors hosts).1 = .ok (.error e)) ∧
    ∀ inodes, (pack sectors hosts).1 = .ok (.ok inodes) →
      inodes.map UInt32.toNat =
        (List.range hosts.length).map (fun k => 1 + space sectors (hosts.take k)) ∧
      (pack sectors hosts).2.size = sectors * sectorSize ∧
      (∀ i, 1 + space sectors hosts ≤ i → i < sectors →
        (pack sectors hosts).2.sector i = .ok Sector.zero) ∧
      List.Forall₂ (fun host inode => ∃ data, host.2 = .contents data ∧
        (cat (pack sectors hosts).2 inode).1 = .ok (.ok data.data)) hosts inodes := by
  obtain ⟨r, disk, map, hpack, hr⟩ := exists_pack hpos hnumbered hosts
  rw [hpack]
  rcases hr with ⟨e, hfails, rfl⟩ | ⟨hfits, xs, files, rfl, hpacked, hfilled⟩
  · refine ⟨iff_of_false ?_ hfails.not_fits, fun _ => ⟨e, hfails, rfl⟩, ?_⟩
    · rintro ⟨inodes, hinodes⟩
      exact absurd hinodes (by simp)
    · exact fun inodes hinodes => absurd hinodes (by simp)
  · refine ⟨iff_of_true ⟨xs, rfl⟩ hfits, fun hnot => absurd hfits hnot, ?_⟩
    rintro _ ⟨⟩
    have hsize : disk.sectors.size = sectors := hfilled.size
    refine ⟨hpacked.places_eq, ?_, fun i hle hlt => sector_image_of_filled hfilled hle hlt, ?_⟩
    · change disk.image.size = _
      rw [RamDisk.size_image, hsize]
    · refine hpacked.copied.imp ?_
      rintro host x ⟨data, f, hcontents, hf, hhas⟩
      obtain ⟨n, hn⟩ := hfilled.holds.stores x f hf
      refine ⟨data, hcontents, cat_of_stores (by omega) hn hhas ?_⟩
      rintro rfl
      have hbeyond := hfilled.holds.beyond_reserved 0 (by rw [hf]; rfl) 0 (by
        rw [Medium.owned]
        exact List.mem_cons_self)
      exact absurd hbeyond.1 (by decide)

/-- A short file, one that needs every kind of index block, and an empty one. -/
def threeHosts : List (String × HostFile) :=
  [("greeting", .contents ⟨#[104, 105]⟩), ("large", .contents ⟨Array.replicate 200000 7⟩),
    ("empty", .contents ⟨#[]⟩)]

/-- The three files take 2, 396 and 1 sectors. -/
theorem three_hosts_come_back : 1 ≤ 2048 ∧ 2048 ≤ UInt32.size ∧
    ∃ x y z, (pack 2048 threeHosts).1 = .ok (.ok [x, y, z]) ∧
      [x, y, z].map UInt32.toNat = [1, 3, 399] ∧
      (pack 2048 threeHosts).2.size = 2048 * sectorSize ∧
      (cat (pack 2048 threeHosts).2 x).1 = .ok (.ok #[104, 105]) ∧
      (cat (pack 2048 threeHosts).2 y).1 = .ok (.ok (Array.replicate 200000 7)) ∧
      (cat (pack 2048 threeHosts).2 z).1 = .ok (.ok #[]) := by
  have hpos : 1 ≤ 2048 := by decide
  have hnumbered : 2048 ≤ UInt32.size := by decide
  obtain ⟨hok, -, hall⟩ := pack_then_cat hpos hnumbered threeHosts
  have hlarge : HostFile.length? 2048 (.contents ⟨Array.replicate 200000 7⟩) = some 200000 :=
    congrArg some Array.size_replicate
  have hlargeSpace : HostFile.space 2048 (.contents ⟨Array.replicate 200000 7⟩) = 396 :=
    (HostFile.space_of_length? hlarge).trans (by decide)
  have hfits : Fits 2048 (2048 - 1) threeHosts := by
    refine ⟨fun host hmem => ?_, ?_⟩
    · simp only [threeHosts, List.mem_cons, List.not_mem_nil, or_false] at hmem
      rcases hmem with rfl | rfl | rfl
      · exact ⟨2, rfl, by decide⟩
      · exact ⟨200000, hlarge, by decide⟩
      · exact ⟨0, rfl, by decide⟩
    · simp only [threeHosts, space_cons, hlargeSpace]
      decide
  obtain ⟨inodes, hpack⟩ := hok.2 hfits
  obtain ⟨hplaces, hsize, -, hcat⟩ := hall inodes hpack
  have hnumbers : inodes.map UInt32.toNat = [1, 3, 399] := by
    rw [hplaces]
    simp only [threeHosts, List.length_cons, List.length_nil, Nat.zero_add, List.range_succ,
      List.range_zero, List.map_cons, List.map_nil, List.take_succ_cons,
      List.take_zero, List.nil_append, List.cons_append, space_cons, hlargeSpace]
    decide
  obtain ⟨x, rest, hfirst, hcat', rfl⟩ := List.forall₂_cons_left_iff.1 hcat
  obtain ⟨y, rest', hsecond, hcat'', rfl⟩ := List.forall₂_cons_left_iff.1 hcat'
  obtain ⟨z, rest'', hthird, hnil, rfl⟩ := List.forall₂_cons_left_iff.1 hcat''
  obtain rfl := List.forall₂_nil_left_iff.1 hnil
  obtain ⟨_, ⟨⟩, hfirst⟩ := hfirst
  obtain ⟨_, ⟨⟩, hsecond⟩ := hsecond
  obtain ⟨_, ⟨⟩, hthird⟩ := hthird
  exact ⟨hpos, hnumbered, x, y, z, hpack, hnumbers, hsize, hfirst, hsecond, hthird⟩

end Image

end SectorVolume
