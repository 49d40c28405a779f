import SectorVolume.Proofs.Reference.Model
import SectorVolume.Proofs.Resize.Exact
import SectorVolume.Proofs.Transfer.Writing
import SectorVolume.Proofs.Volume.Gives

/-!
Files on a medium. Every file has its sectors to itself: the one with its inode and those of its
trees. Together with the first few sectors, which are set aside, these are all sectors in use, and
the trees fit the length that the inode has. A change to the sectors of one file leaves all others
alone.
-/

namespace SectorVolume

/-- The sectors of the file with its inode in sector `x`. -/
def Medium.owned (d : Medium) (x : UInt32) : List UInt32 :=
  x :: (Inode.ofSector (d.content x)).blocks d.content

/-- The file with the inode `n` in sector `x` is `f`. -/
structure Medium.Stores (d : Medium) (x : UInt32) (n : Inode) (f : File) : Prop where
  hasInode : d.HasInode x n
  placed : n.Placed x d
  fits : (n.forest d.content).Fits (dataBlocks f.length)
  length_le : f.length ≤ maxLength
  length_eq : n.length.toNat = f.length
  isDir_eq : n.isDir = f.isDir
  children_eq : n.children.toNat = f.children
  size_bytes : f.bytes.size = dataBlocks f.length * sectorSize
  bytes_eq : ∀ i < f.bytes.size, f.bytes[i]? = n.byte? d.content i

/-- The medium holds files and nothing else, besides the first `reserved` sectors. -/
structure Medium.Holds (reserved : Nat) (d : Medium) (files : UInt32 → Option File) : Prop where
  reserved_pos : 0 < reserved
  within : d.map.bitmap.Within d.size
  numbered : d.map.bitmap.capacity ≤ UInt32.size
  tail : ∀ i, d.map.bitmap.used? i = some false → i < d.map.bitmap.capacity
  stores : ∀ x f, files x = some f → ∃ n, d.Stores x n f
  apart : ∀ x y, (files x).isSome → (files y).isSome → x ≠ y →
    ∀ s ∈ d.owned x, s ∉ d.owned y
  beyond_reserved : ∀ x, (files x).isSome → ∀ s ∈ d.owned x,
    reserved ≤ s.toNat ∧ s.toNat < d.map.bitmap.capacity
  used_iff : ∀ s : UInt32, s.toNat < d.map.bitmap.capacity →
    (d.map.bitmap.used? s.toNat = some true ↔
      s.toNat < reserved ∨ ∃ x, (files x).isSome ∧ s ∈ d.owned x)

/-- Between two media some sectors, `old`, were given up or changed, and now `new` are there, some
of which were free. -/
structure Medium.Changed (d d' : Medium) (old new : List UInt32) : Prop where
  size : d'.size = d.size
  capacity : d'.map.bitmap.capacity = d.map.bitmap.capacity
  content : ∀ s : UInt32, d.map.bitmap.used? s.toNat = some true → s ∉ old →
    d'.content s = d.content s
  used : ∀ s : UInt32, d'.map.bitmap.used? s.toNat = some true ↔
    (d.map.bitmap.used? s.toNat = some true ∧ s ∉ old) ∨ s ∈ new
  fresh : ∀ s ∈ new, s ∈ old ∨ d.map.bitmap.used? s.toNat = some false
  freed : ∀ i, d'.map.bitmap.used? i = some false →
    d.map.bitmap.used? i = some false ∨ ∃ s ∈ old, s.toNat = i

namespace Medium

variable {d d' : Medium} {x : UInt32} {n : Inode} {f : File} {files : UInt32 → Option File}
  {reserved : Nat}

namespace Stores

theorem owned_eq (h : d.Stores x n f) : d.owned x = x :: n.blocks d.content := by
  rw [owned, h.hasInode.ofSector_eq]

theorem used_owned (h : d.Stores x n f) {s : UInt32} (hs : s ∈ d.owned x) :
    d.map.bitmap.used? s.toNat = some true := by
  rw [h.owned_eq] at hs
  rcases List.mem_cons.1 hs with rfl | hs
  · exact h.placed.used_self
  · exact h.placed.ready.used s hs

theorem exists_owned (h : d.Stores x n f) {s : UInt32} (hs : s ∈ d.owned x) :
    s.toNat < d.size := by
  rw [h.owned_eq] at hs
  rcases List.mem_cons.1 hs with rfl | hs
  · exact h.placed.exists_self
  · exact h.placed.ready.exists_sector s hs

theorem whole (h : d.Stores x n f) : n.Whole d := by
  refine ⟨?_, ?_, h.placed.ready.exists_sector, h.placed.ready.nodup⟩
  · rw [h.length_eq]
    exact h.length_le
  · rw [h.length_eq]
    exact h.fits

theorem length_le_size (h : d.Stores x n f) : f.length ≤ f.bytes.size := by
  rw [h.size_bytes]
  simp only [dataBlocks, sectorSize]
  omega

theorem forest_congr (h : d.Stores x n f)
    (hcontent : ∀ s ∈ d.owned x, d'.content s = d.content s) :
    n.forest d'.content = n.forest d.content := by
  apply SectorVolume.forest_congr
  intro s hs
  apply hcontent
  rw [h.owned_eq]
  exact List.mem_cons_of_mem _ (Forest.mem_sectors.2 (Or.inl hs))

/-- What a file is depends on its own sectors only. -/
theorem congr (h : d.Stores x n f) (hsize : d'.size = d.size)
    (hwithin : d'.map.bitmap.Within d'.size)
    (hcontent : ∀ s ∈ d.owned x, d'.content s = d.content s)
    (hused : ∀ s ∈ d.owned x, d'.map.bitmap.used? s.toNat = some true) : d'.Stores x n f := by
  have hforest := h.forest_congr hcontent
  rw [h.owned_eq] at hcontent hused
  have hself := hcontent x List.mem_cons_self
  refine {
    hasInode := ⟨by rw [hsize]; exact h.hasInode.exists_sector,
      by rw [hself]; exact h.hasInode.stored, h.hasInode.valid⟩
    placed := h.placed.of_forest_eq hforest hsize hwithin hused
    fits := by rw [hforest]; exact h.fits
    length_le := h.length_le
    length_eq := h.length_eq
    isDir_eq := h.isDir_eq
    children_eq := h.children_eq
    size_bytes := h.size_bytes
    bytes_eq := ?_
  }
  intro i hi
  rw [h.bytes_eq i hi]
  exact (Inode.byte?_congr hforest (fun s hs => hcontent s (List.mem_cons_of_mem _ hs)) i).symm

theorem owned_congr (h : d.Stores x n f)
    (hcontent : ∀ s ∈ d.owned x, d'.content s = d.content s) :
    d'.owned x = d.owned x := by
  have hself := hcontent x (by rw [owned]; exact List.mem_cons_self)
  have hblocks : n.blocks d'.content = n.blocks d.content :=
    congrArg Forest.sectors (h.forest_congr hcontent)
  rw [h.owned_eq, owned, hself, h.hasInode.ofSector_eq, hblocks]

end Stores

/-- The sectors of a file, of which there are none if there is no such file. -/
def share (d : Medium) (files : UInt32 → Option File) (x : UInt32) : List UInt32 :=
  if (files x).isSome then d.owned x else []

theorem mem_share {s : UInt32} : s ∈ d.share files x ↔ (files x).isSome ∧ s ∈ d.owned x := by
  rw [share]
  by_cases hx : (files x).isSome
  · rw [if_pos hx]
    exact ⟨fun hs => ⟨hx, hs⟩, fun hs => hs.2⟩
  · rw [if_neg hx]
    exact ⟨fun hs => absurd hs (by simp), fun hs => absurd hs.1 hx⟩

namespace Holds

theorem used_owned (h : d.Holds reserved files) (hx : (files x).isSome) {s : UInt32}
    (hs : s ∈ d.owned x) : d.map.bitmap.used? s.toNat = some true := by
  obtain ⟨f, hf⟩ := Option.isSome_iff_exists.1 hx
  obtain ⟨n, hn⟩ := h.stores x f hf
  exact hn.used_owned hs

/-- A free sector belongs to nothing. -/
theorem of_free (h : d.Holds reserved files) {s : UInt32}
    (hs : d.map.bitmap.used? s.toNat = some false) :
    reserved ≤ s.toNat ∧ s.toNat < d.map.bitmap.capacity ∧
      ∀ x, (files x).isSome → s ∉ d.owned x := by
  have hlt := h.tail _ hs
  have hnot : ¬(s.toNat < reserved ∨ ∃ x, (files x).isSome ∧ s ∈ d.owned x) := by
    rw [← h.used_iff s hlt, hs]
    decide
  rw [not_or] at hnot
  exact ⟨Nat.le_of_not_lt hnot.1, hlt, fun x hx hmem => hnot.2 ⟨x, hx, hmem⟩⟩

/-- In a free sector there is no file. -/
theorem none_of_free (h : d.Holds reserved files) (hx : d.map.bitmap.used? x.toNat = some false) :
    files x = none := by
  by_contra hlive
  have hmem : x ∈ d.owned x := by
    rw [owned]
    exact List.mem_cons_self
  exact (h.of_free hx).2.2 x (Option.isSome_iff_ne_none.2 hlive) hmem

section Update

variable {f' : Option File}

/-- The sectors of the other files are neither given up nor changed. -/
theorem other_of_changed (h : d.Holds reserved files)
    (hchanged : d.Changed d' (d.share files x) (d'.share (Function.update files x f') x))
    {y : UInt32} (hy : y ≠ x) (hfy : (files y).isSome) :
    (∀ s ∈ d.owned y, d'.content s = d.content s ∧ d'.map.bitmap.used? s.toNat = some true) ∧
      d'.owned y = d.owned y := by
  have hall : ∀ s ∈ d.owned y,
      d'.content s = d.content s ∧ d'.map.bitmap.used? s.toNat = some true := by
    intro s hs
    have hnot : s ∉ d.share files x := fun hmem =>
      h.apart y x hfy (mem_share.1 hmem).1 hy s hs (mem_share.1 hmem).2
    have hused := h.used_owned hfy hs
    exact ⟨hchanged.content s hused hnot, (hchanged.used s).2 (Or.inl ⟨hused, hnot⟩)⟩
  obtain ⟨f, hf⟩ := Option.isSome_iff_exists.1 hfy
  obtain ⟨n, hn⟩ := h.stores y f hf
  exact ⟨hall, hn.owned_congr fun s hs => (hall s hs).1⟩

theorem within_of_changed (h : d.Holds reserved files) {new : List UInt32}
    (hchanged : d.Changed d' (d.share files x) new) : d'.map.bitmap.Within d'.size := by
  intro i hi
  rw [hchanged.size]
  rcases hchanged.freed i hi with hfree | ⟨s, hs, rfl⟩
  · exact h.within i hfree
  · obtain ⟨hx, hmem⟩ := mem_share.1 hs
    obtain ⟨f, hf⟩ := Option.isSome_iff_exists.1 hx
    obtain ⟨n, hn⟩ := h.stores x f hf
    have hreserved := (h.beyond_reserved x hx s hmem).1
    have hpos := h.reserved_pos
    exact ⟨by omega, hn.exists_owned hmem, s.toNat_lt⟩

/-- What the changed file has now lies beyond the reserved sectors and belongs to no other
file. -/
theorem new_of_changed (h : d.Holds reserved files)
    (hchanged : d.Changed d' (d.share files x) (d'.share (Function.update files x f') x))
    {s : UInt32} (hs : s ∈ d'.share (Function.update files x f') x) :
    (reserved ≤ s.toNat ∧ s.toNat < d.map.bitmap.capacity) ∧
      ∀ y, y ≠ x → (files y).isSome → s ∉ d.owned y := by
  rcases hchanged.fresh s hs with hold | hfree
  · obtain ⟨hx, hmem⟩ := mem_share.1 hold
    exact ⟨h.beyond_reserved x hx s hmem,
      fun y hy hfy hs' => h.apart y x hfy hx hy s hs' hmem⟩
  · obtain ⟨hle, hlt, hnot⟩ := h.of_free hfree
    exact ⟨⟨hle, hlt⟩, fun y _ hfy => hnot y hfy⟩

theorem isSome_update_of_ne {y : UInt32} (hy : y ≠ x) :
    (Function.update files x f' y).isSome = (files y).isSome := by
  rw [Function.update_of_ne hy]

section Invariants

variable (h : d.Holds reserved files)
  (hchanged : d.Changed d' (d.share files x) (d'.share (Function.update files x f') x))

include h hchanged

theorem tail_of_changed {i : Nat} (hi : d'.map.bitmap.used? i = some false) :
    i < d'.map.bitmap.capacity := by
  rw [hchanged.capacity]
  rcases hchanged.freed i hi with hfree | ⟨s, hs, rfl⟩
  · exact h.tail i hfree
  · obtain ⟨hx, hmem⟩ := mem_share.1 hs
    exact (h.beyond_reserved x hx s hmem).2

/-- Two files have no sector in common, whether one of them is the changed one or not. -/
theorem apart_of_changed {y z : UInt32} (hfy : (Function.update files x f' y).isSome)
    (hfz : (Function.update files x f' z).isSome) (hne : y ≠ z) {s : UInt32}
    (hs : s ∈ d'.owned y) : s ∉ d'.owned z := by
  intro hs'
  by_cases hy : y = x
  · subst hy
    have hnew := h.new_of_changed hchanged (mem_share.2 ⟨hfy, hs⟩)
    rw [isSome_update_of_ne hne.symm] at hfz
    rw [(h.other_of_changed hchanged hne.symm hfz).2] at hs'
    exact hnew.2 z hne.symm hfz hs'
  · rw [isSome_update_of_ne hy] at hfy
    rw [(h.other_of_changed hchanged hy hfy).2] at hs
    by_cases hz : z = x
    · subst hz
      exact (h.new_of_changed hchanged (mem_share.2 ⟨hfz, hs'⟩)).2 y hy hfy hs
    · rw [isSome_update_of_ne hz] at hfz
      rw [(h.other_of_changed hchanged hz hfz).2] at hs'
      exact h.apart y z hfy hfz hne s hs hs'

theorem beyond_of_changed {y : UInt32} (hfy : (Function.update files x f' y).isSome) {s : UInt32}
    (hs : s ∈ d'.owned y) : reserved ≤ s.toNat ∧ s.toNat < d'.map.bitmap.capacity := by
  rw [hchanged.capacity]
  by_cases hy : y = x
  · subst hy
    exact (h.new_of_changed hchanged (mem_share.2 ⟨hfy, hs⟩)).1
  · rw [isSome_update_of_ne hy] at hfy
    rw [(h.other_of_changed hchanged hy hfy).2] at hs
    exact h.beyond_reserved y hfy s hs

/-- In use are again the reserved sectors and those of the files. -/
theorem used_iff_of_changed {s : UInt32} (hs : s.toNat < d'.map.bitmap.capacity) :
    d'.map.bitmap.used? s.toNat = some true ↔
      s.toNat < reserved ∨ ∃ y, (Function.update files x f' y).isSome ∧ s ∈ d'.owned y := by
  rw [hchanged.capacity] at hs
  rw [hchanged.used, h.used_iff s hs]
  constructor
  · rintro (⟨hlt | ⟨y, hfy, hmem⟩, hnot⟩ | hmem)
    · exact Or.inl hlt
    · have hy : y ≠ x := by
        rintro rfl
        exact hnot (mem_share.2 ⟨hfy, hmem⟩)
      exact Or.inr ⟨y, by rwa [isSome_update_of_ne hy],
        by rwa [(h.other_of_changed hchanged hy hfy).2]⟩
    · exact Or.inr ⟨x, mem_share.1 hmem⟩
  · rintro (hlt | ⟨y, hfy, hmem⟩)
    · refine Or.inl ⟨Or.inl hlt, fun hold => ?_⟩
      obtain ⟨hx, hmem⟩ := mem_share.1 hold
      have := (h.beyond_reserved x hx s hmem).1
      omega
    · by_cases hy : y = x
      · subst hy
        exact Or.inr (mem_share.2 ⟨hfy, hmem⟩)
      · rw [isSome_update_of_ne hy] at hfy
        rw [(h.other_of_changed hchanged hy hfy).2] at hmem
        exact Or.inl ⟨Or.inr ⟨y, hfy, hmem⟩, fun hold =>
          h.apart y x hfy (mem_share.1 hold).1 hy s hmem (mem_share.1 hold).2⟩

end Invariants

/-- A change to the sectors of one file. -/
theorem update (h : d.Holds reserved files)
    (hchanged : d.Changed d' (d.share files x) (d'.share (Function.update files x f') x))
    (hstores : d'.map.bitmap.Within d'.size → ∀ f, f' = some f → ∃ n, d'.Stores x n f) :
    d'.Holds reserved (Function.update files x f') := by
  have hwithin := h.within_of_changed hchanged
  refine {
    reserved_pos := h.reserved_pos
    within := hwithin
    numbered := by rw [hchanged.capacity]; exact h.numbered
    tail := fun i => h.tail_of_changed hchanged
    stores := ?_
    apart := fun y z hfy hfz hne s => h.apart_of_changed hchanged hfy hfz hne
    beyond_reserved := fun y hfy s => h.beyond_of_changed hchanged hfy
    used_iff := fun s => h.used_iff_of_changed hchanged
  }
  intro y f hf
  by_cases hy : y = x
  · subst hy
    rw [Function.update_self] at hf
    exact hstores hwithin f hf
  · rw [Function.update_of_ne hy] at hf
    obtain ⟨n, hn⟩ := h.stores y f hf
    obtain ⟨hall, _⟩ := h.other_of_changed hchanged hy (by rw [hf]; rfl)
    exact ⟨n,
      hn.congr hchanged.size hwithin (fun s hs => (hall s hs).1) fun s hs => (hall s hs).2⟩

end Update

end Holds

end Medium

/-- A medium without files, on which the first sectors and no others are in use. -/
theorem Medium.holds_nothing {d : Medium} {reserved mapped : Nat} (hreserved : 0 < reserved)
    (hmapped : mapped ≤ d.size) (hsize : mapped ≤ UInt32.size)
    (hcapacity : d.map.bitmap.capacity = mapped)
    (hfree : ∀ i, d.map.bitmap.used? i = some false ↔ reserved ≤ i ∧ i < mapped) :
    d.Holds reserved fun _ => none where
  reserved_pos := hreserved
  within i hi := by
    obtain ⟨hle, hlt⟩ := (hfree i).1 hi
    omega
  numbered := by
    rw [hcapacity]
    exact hsize
  tail i hi := by
    rw [hcapacity]
    exact ((hfree i).1 hi).2
  stores _ _ hf := absurd hf (by simp)
  apart _ _ hx := absurd hx (by simp)
  beyond_reserved _ hx := absurd hx (by simp)
  used_iff s hs := by
    obtain ⟨used, hbit⟩ := Option.isSome_iff_exists.1 (Bitmap.used?_isSome_of_lt hs)
    have hclear := hfree s.toNat
    rw [hcapacity] at hs
    rw [hbit, Option.some.injEq] at hclear
    rw [hbit, Option.some.injEq]
    simp only [Option.isSome_none, Bool.false_eq_true, false_and, exists_false, or_false]
    cases used with
    | false =>
      have hle := (hclear.1 rfl).1
      simp only [Bool.false_eq_true, false_iff]
      omega
    | true =>
      simp only [Bool.true_eq_false, false_iff] at hclear
      simp only [true_iff]
      omega

end SectorVolume
