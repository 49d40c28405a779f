import SectorVolume.Proofs.Index.File

/-!
The two readings of a file's index, compared. The walk over the pointers names every index block
right before what is below it; the data blocks that it comes across are those that the lookup
finds when it is asked for one block after the other, and in the same order. Pointers may be null
at every level, sectors may be named twice, and index blocks may have nothing below them.
-/

namespace SectorVolume

/-- A block of a file and the sector that it is in. -/
inductive Block
  | index (sector : UInt32)
  | data (sector : UInt32)

namespace Block

def sector : Block → UInt32
  | index s => s
  | data s => s

/-- The sector of a data block. -/
def data? : Block → Option UInt32
  | index _ => none
  | data s => some s

end Block

/-- The blocks below pointers in a row: nothing below a null pointer, and an index block right
before the blocks below its entries. -/
inductive Lists (c : UInt32 → Sector) : Roots → List Block → Prop
  | nil : Lists c [] []
  | null {level : Nat} {roots : Roots} {listing : List Block} (rest : Lists c roots listing) :
      Lists c ((level, 0) :: roots) listing
  | data {block : UInt32} {roots : Roots} {listing : List Block} (there : block ≠ 0)
      (rest : Lists c roots listing) : Lists c ((0, block) :: roots) (.data block :: listing)
  | index {level : Nat} {block : UInt32} {roots : Roots} {below listing : List Block}
      (there : block ≠ 0) (entries : Lists c (row level (IndexBlock.ofSector (c block))) below)
      (rest : Lists c roots listing) :
      Lists c ((level + 1, block) :: roots) (.index block :: (below ++ listing))

/-- Pointers in a row are null, or to data blocks, or to index blocks with a row of pointers
each. -/
theorem roots_induction {P : Roots → Prop} (c : UInt32 → Sector) (nil : P [])
    (null : ∀ level roots, P roots → P ((level, 0) :: roots))
    (data : ∀ block roots, block ≠ 0 → P roots → P ((0, block) :: roots))
    (index : ∀ level block roots, block ≠ 0 → P (row level (IndexBlock.ofSector (c block))) →
      P roots → P ((level + 1, block) :: roots)) (roots : Roots) : P roots := by
  have hrow : ∀ roots : Roots, (∀ r ∈ roots, ∀ rest, P rest → P (r :: rest)) → P roots := by
    intro roots
    induction roots with
    | nil => exact fun _ => nil
    | cons r roots ih =>
      intro h
      exact h r List.mem_cons_self roots (ih fun r hr => h r (List.mem_cons_of_mem _ hr))
  have hone : ∀ level block (rest : Roots), P rest → P ((level, block) :: rest) := by
    intro level
    induction level with
    | zero =>
      intro block rest hrest
      by_cases hblock : block = 0
      · rw [hblock]
        exact null 0 rest hrest
      · exact data block rest hblock hrest
    | succ level ih =>
      intro block rest hrest
      by_cases hblock : block = 0
      · rw [hblock]
        exact null _ rest hrest
      · refine index level block rest hblock (hrow _ fun r hr => ?_) hrest
        obtain ⟨entry, -, rfl⟩ := List.mem_map.1 hr
        exact ih entry
  exact hrow roots fun r _ => hone r.1 r.2

namespace Forest

/-- The data blocks of a row in the order of their numbers are those of the first tree and then
those of the others. -/
theorem filterMap_block?_cons {level : Nat} (t : Tree level) (F : Forest) :
    (List.range (span (⟨level, t⟩ :: F))).filterMap (block? (⟨level, t⟩ :: F)) =
      (List.range (SectorVolume.span level)).filterMap t.block? ++
        (List.range F.span).filterMap F.block? := by
  rw [span_cons, List.range_add, List.filterMap_append, List.filterMap_map]
  congr 1
  · apply List.filterMap_congr
    intro i hi
    rw [block?_cons, if_pos (List.mem_range.1 hi)]
  · apply List.filterMap_congr
    intro i _
    rw [Function.comp_apply, block?_cons, if_neg (by omega), Nat.add_sub_cancel_left]

end Forest

namespace Lists

variable {c : UInt32 → Sector} {roots : Roots} {listing : List Block}

theorem exists_of (c : UInt32 → Sector) (roots : Roots) : ∃ listing, Lists c roots listing := by
  induction roots using roots_induction c with
  | nil => exact ⟨[], nil⟩
  | null level roots ih =>
    obtain ⟨listing, hlists⟩ := ih
    exact ⟨listing, hlists.null⟩
  | data block roots hblock ih =>
    obtain ⟨listing, hlists⟩ := ih
    exact ⟨_, hlists.data hblock⟩
  | index level block roots hblock ihbelow ih =>
    obtain ⟨below, hbelow⟩ := ihbelow
    obtain ⟨listing, hlists⟩ := ih
    exact ⟨_, index hblock hbelow hlists⟩

/-- The sectors named are those of the trees. -/
theorem map_sector (h : Lists c roots listing) :
    listing.map Block.sector = (forest c roots).sectors := by
  induction h with
  | nil => rfl
  | null rest ih =>
    rw [ih, forest_cons, tree_null, Forest.sectors_cons, Tree.sectors_hole, List.nil_append]
  | data there rest ih =>
    rw [List.map_cons, ih, forest_cons, tree_zero_of_ne c there, Forest.sectors_cons]
    rfl
  | index there entries rest ihbelow ih =>
    rw [List.map_cons, List.map_append, ihbelow, ih, forest_cons, tree_succ_of_ne c _ there,
      Forest.sectors_cons, Tree.sectors_index, ofBelow_tree]
    rfl

/-- The data blocks named are those that have a number, in the order of the numbers. -/
theorem filterMap_data? (h : Lists c roots listing) :
    listing.filterMap Block.data? =
      (List.range (forest c roots).span).filterMap (forest c roots).block? := by
  induction h with
  | nil => rfl
  | null rest ih =>
    have hhole :
        ∀ count level, (List.range count).filterMap (Tree.hole : Tree level).block? = [] := by
      intro count level
      exact List.filterMap_eq_nil_iff.2 fun i _ => by rw [Tree.block?]
    rw [ih, forest_cons, tree_null, Forest.filterMap_block?_cons, hhole, List.nil_append]
  | data there rest ih =>
    have hone : ∀ block : UInt32,
        (List.range (span 0)).filterMap (Tree.data block).block? = [block] := fun _ => rfl
    rw [List.filterMap_cons, ih, forest_cons, tree_zero_of_ne c there,
      Forest.filterMap_block?_cons, hone]
    rfl
  | @index level block roots below listing there entries rest ihbelow ih =>
    rw [List.filterMap_cons_none rfl, List.filterMap_append, ihbelow, ih, forest_cons,
      tree_succ_of_ne c _ there, Forest.filterMap_block?_cons, ← ofBelow_tree,
      Forest.span_ofBelow]
    congr 2
    funext i
    exact (Tree.block?_index block _ i).symm

end Lists

theorem filterMap_range_of_le {α : Type} {f : Nat → Option α} {a b : Nat} (hle : a ≤ b)
    (h : ∀ i, a ≤ i → f i = none) : (List.range b).filterMap f = (List.range a).filterMap f := by
  obtain ⟨k, rfl⟩ := Nat.exists_eq_add_of_le hle
  rw [List.range_add, List.filterMap_append, List.filterMap_map, List.append_right_eq_self,
    List.filterMap_eq_nil_iff]
  intro i _
  exact h _ (Nat.le_add_right a i)

namespace Inode

variable {n : Inode} {m : Medium}

/-- The data blocks named by a walk over a file that has none beyond its length. -/
theorem filterMap_data?_of_lists {c : UInt32 → Sector} {listing : List Block}
    (hlists : Lists c n.roots listing) (hlength : n.length.toNat ≤ maxLength)
    (hbeyond : ∀ i, dataBlocks n.length.toNat ≤ i → (n.forest c).block? i = none) :
    listing.filterMap Block.data? =
      (List.range (dataBlocks n.length.toNat)).filterMap (n.forest c).block? := by
  have hspan : (SectorVolume.forest c n.roots).span = maxBlocks := span_forest n c
  rw [hlists.filterMap_data?, hspan]
  exact filterMap_range_of_le (dataBlocks_le_maxBlocks_iff.2 hlength) hbeyond

/-- Looking up one block after the other finds what the trees have. -/
theorem eval_lookups (h : ∀ s ∈ (n.forest m.content).nodes, s.toNat < m.size)
    (hlength : n.length.toNat ≤ maxLength) :
    ((List.range (dataBlocks n.length.toNat)).mapM fun i => n.sectorAt? (i * sectorSize)).eval m =
      .ok ((List.range (dataBlocks n.length.toNat)).map (n.forest m.content).block?, m) := by
  apply Script.eval_mapM
  intro i hi
  have hpos := lt_dataBlocks_iff.1 (List.mem_range.1 hi)
  rw [eval_sectorAt?_of_lt h hlength hpos, Nat.mul_div_cancel i (by decide)]

/-- The walk over the pointers of a file names each index block right before the blocks below its
entries. Without the index blocks it names what the lookup answers for one block of the file after
the other, leaving out those that are missing. -/
theorem listing_eq_lookups {e : Engine RamDisk} (hcoherent : e.store.Coherent)
    (hlength : n.length.toNat ≤ maxLength)
    (hexist : ∀ s ∈ (n.forest e.medium.content).nodes, s.toNat < e.medium.size)
    (hbeyond : ∀ i, dataBlocks n.length.toNat ≤ i → (n.forest e.medium.content).block? i = none) :
    ∃ listing answers, Lists e.medium.content n.roots listing ∧
      e.answer n.sectors = .ok (listing.map Block.sector) ∧
      e.answer
        ((List.range (dataBlocks n.length.toNat)).mapM fun i => n.sectorAt? (i * sectorSize)) =
        .ok answers ∧
      listing.filterMap Block.data? = answers.filterMap id := by
  obtain ⟨listing, hlists⟩ := Lists.exists_of e.medium.content n.roots
  refine ⟨listing, _, hlists, ?_,
    Engine.answer_of_eval_ok hcoherent (eval_lookups hexist hlength), ?_⟩
  · rw [hlists.map_sector]
    exact Engine.answer_of_eval_ok hcoherent (eval_sectors hexist)
  · rw [filterMap_data?_of_lists hlists hlength hbeyond, List.filterMap_map]
    rfl

/-- Fourteen blocks long: two data blocks, and an index block for the last one. -/
def holed : Inode where
  length := 7168
  isDirWord := 0
  children := 0
  magic := magicNumber
  direct := #v[2, 0, 0, 3, 0, 0, 0, 0, 0, 0, 0, 0]
  single := 4
  double := 0
  unused := Vector.replicate 110 0

/-- The index block of `holed`: a null pointer, a data block, and nothing more. -/
def holedEntries : IndexBlock := Vector.ofFn fun k => if k = 1 then 5 else 0

/-- Eight sectors; the one with number 4 is the index block of `holed`. -/
def holedDisk : Engine RamDisk where
  store := ⟨Cache.empty 1 Nat.one_pos, Metered.ofDevice
    ⟨(Array.replicate 8 Sector.zero).set 4 (IndexBlock.toSector holedEntries)⟩⟩
  map := FreeMap.ofBitmap (Bitmap.blank 8)

theorem forest_holed : holed.forest holedDisk.medium.content =
    SectorVolume.forest holedDisk.medium.content (row 0 holed.direct) ++
      [⟨1, .index 4 fun k => tree holedDisk.medium.content 0 (holedEntries.get k)⟩,
        ⟨2, .hole⟩] := by
  have hblock : holedDisk.medium.content 4 = IndexBlock.toSector holedEntries := by
    refine (Cached.content_empty 1 (by decide) _ 4).trans ?_
    simp [Metered.ofDevice]
  rw [forest_eq, show holed.single = 4 from rfl, show holed.double = 0 from rfl,
    tree_succ_of_ne _ _ (by decide), hblock, IndexBlock.ofSector_toSector, tree_null]

theorem block?_holed {i : Nat} (hi : 14 ≤ i) :
    (holed.forest holedDisk.medium.content).block? i = none := by
  have hnull : ∀ k : Fin 128, 2 ≤ k.val → holedEntries.get k = 0 := by
    intro k hk
    have hentry : holedEntries.get k = if k = 1 then 5 else 0 := Vector.getElem_ofFn k.isLt
    have hne : k.val ≠ (1 : Fin 128).val := Nat.ne_of_gt hk
    rw [hentry, if_neg (Fin.ne_of_val_ne hne)]
  rw [forest_holed, Forest.block?_append, span_forest_row, span_zero, if_neg (by omega),
    Forest.block?_cons, Forest.block?_cons, Forest.block?_nil, span_one]
  split
  · have hdiv : (i - 12 * 1) / span 0 = i - 12 := Nat.div_one _
    rw [Tree.block?, dif_pos (by omega), hnull _ (by simp only [hdiv]; omega), tree_null,
      Tree.block?]
  · split
    · rw [Tree.block?]
    · rfl

/-- The index block stands between the data blocks that the inode itself names and the one below
it. -/
theorem sectors_holed : ∃ listing answers, Lists holedDisk.medium.content holed.roots listing ∧
    holedDisk.answer holed.sectors = .ok (listing.map Block.sector) ∧
    holedDisk.answer ((List.range 14).mapM fun i => holed.sectorAt? (i * sectorSize)) =
      .ok answers ∧
    listing.filterMap Block.data? = answers.filterMap id ∧
    listing.map Block.sector = [2, 3, 4, 5] := by
  have hsize : holedDisk.medium.size = 8 := rfl
  have hcount : dataBlocks holed.length.toNat = 14 := by decide
  have hnodes : (holed.forest holedDisk.medium.content).nodes = [4] := by
    rw [forest_holed]
    decide +kernel
  have hblocks : (holed.forest holedDisk.medium.content).sectors = [2, 3, 4, 5] := by
    rw [forest_holed]
    decide +kernel
  obtain ⟨listing, answers, hlists, hsectors, hanswers, heq⟩ :=
    listing_eq_lookups (n := holed) (e := holedDisk) (Cached.coherent_empty 1 (by decide) _)
      (by decide) (by simp [hnodes, hsize]) fun i hi => block?_holed (by rwa [hcount] at hi)
  rw [hcount] at hanswers
  exact ⟨listing, answers, hlists, hsectors, hanswers, heq, hlists.map_sector.trans hblocks⟩

end Inode

end SectorVolume
