import SectorVolume.Proofs.Index.Lookup
import SectorVolume.Proofs.Index.Stored

/-!
The index of a file as a row of trees: twelve data blocks, an index block and an index block of
index blocks. Looking a block up and listing all blocks, which go through the sectors of the
medium, say what the trees say, and the number of sectors that a length takes is that of the trees
that fit it.
-/

namespace SectorVolume

namespace Inode

/-- The pointers in an inode, in the order of the data blocks. -/
def roots (n : Inode) : Roots := row 0 n.direct ++ [(1, n.single), (2, n.double)]

def forest (n : Inode) (c : UInt32 → Sector) : Forest := SectorVolume.forest c n.roots

/-- All sectors of a file but the inode's own. -/
def blocks (n : Inode) (c : UInt32 → Sector) : List UInt32 := (n.forest c).sectors

variable (n : Inode) (c : UInt32 → Sector)

theorem forest_eq : n.forest c =
    SectorVolume.forest c (row 0 n.direct) ++
      [⟨1, tree c 1 n.single⟩, ⟨2, tree c 2 n.double⟩] := by
  rw [forest, roots, forest_append]
  rfl

/-- The trees of a file tell its pointers. -/
theorem eq_of_roots_eq {n n' : Inode} (h : n.roots = n'.roots) :
    n.direct = n'.direct ∧ n.single = n'.single ∧ n.double = n'.double := by
  obtain ⟨hdirect, hindex⟩ := List.append_inj h (by simp [row])
  simp only [List.cons.injEq, Prod.mk.injEq, and_true, true_and] at hindex
  exact ⟨row_injective hdirect, hindex⟩

theorem span_forest : (n.forest c).span = maxBlocks := by
  rw [forest_eq, Forest.span_append, span_forest_row, Forest.span_cons, Forest.span_cons,
    span_zero, span_one, span_two, Forest.span]

theorem forest_blank (isDir : Bool) : (blank isDir).forest c =
    (List.ofFn fun _ : Fin 12 => ⟨0, .hole⟩) ++ [⟨1, .hole⟩, ⟨2, .hole⟩] := by
  rw [forest_eq]
  simp only [blank, forest_row_null, tree_null]

theorem blocks_blank (isDir : Bool) : (blank isDir).blocks c = [] := by
  rw [blocks, forest_blank, Forest.sectors_append, Forest.sectors, List.flatMap_eq_nil_iff.2]
  · simp
  · intro t ht
    obtain ⟨_, rfl⟩ := List.mem_ofFn.1 ht
    exact Tree.sectors_hole

theorem bare_forest : (n.forest c).bare = (blank false).forest c := by
  rw [forest_blank, forest_eq, forest_row, Forest.bare_append, Forest.bare_ofFn]
  simp only [Forest.bare_cons, Forest.bare_nil]

end Inode

section Reading

variable {m : Medium} {level : Nat} {block : UInt32}

theorem eval_pointerAt (h : block.toNat < m.size) (k : Fin 128) :
    (pointerAt block k.val).eval m = .ok ((IndexBlock.ofSector (m.content block)).get k, m) := by
  have hword : (IndexBlock.ofSector (m.content block)).get k =
      @wordAt 128 (m.content block) k.val k.isLt :=
    @getElem_wordsOfBytes 128 (m.content block) k.val k.isLt
  rw [pointerAt, Script.eval_bind_of_ok (Script.eval_fetchSector h), dif_pos k.isLt, hword]
  rfl

/-- Division and remainder find the data block that the tree has. -/
theorem eval_blockUnder {i : Nat} (h : ∀ s ∈ (tree m.content level block).nodes, s.toNat < m.size)
    (hi : i < span level) :
    (blockUnder level block i).eval m = .ok ((tree m.content level block).block? i, m) := by
  induction level generalizing block i with
  | zero =>
    by_cases hblock : block = 0
    · simp [blockUnder, hblock, Tree.block?]
    · simp [blockUnder, hblock, tree_zero_of_ne, Tree.block?]
  | succ level ih =>
    by_cases hblock : block = 0
    · simp [blockUnder, hblock, Tree.block?]
    · rw [tree_succ_of_ne m.content level hblock] at h ⊢
      have hpos := span_pos level
      have hdiv : i / span level < 128 := by
        rw [Nat.div_lt_iff_lt_mul hpos]
        exact hi
      have hself : block.toNat < m.size := h block (by simp)
      rw [blockUnder, if_neg hblock,
        Script.eval_bind_of_ok (eval_pointerAt hself ⟨i / span level, hdiv⟩), Tree.block?,
        dif_pos hdiv]
      apply ih _ (Nat.mod_lt _ hpos)
      intro s hs
      apply h s
      rw [Tree.nodes, List.mem_cons, List.mem_flatten]
      exact Or.inr ⟨_, List.mem_ofFn.2 ⟨⟨_, hdiv⟩, rfl⟩, hs⟩

/-- The listing of the blocks under a block is that of the tree. -/
theorem eval_blocksUnder (h : ∀ s ∈ (tree m.content level block).nodes, s.toNat < m.size) :
    (blocksUnder level block).eval m = .ok ((tree m.content level block).sectors, m) := by
  induction level generalizing block with
  | zero =>
    by_cases hblock : block = 0
    · simp [blocksUnder, hblock]
    · simp [blocksUnder, hblock, tree_zero_of_ne, Tree.sectors]
  | succ level ih =>
    by_cases hblock : block = 0
    · simp [blocksUnder, hblock]
    · rw [tree_succ_of_ne m.content level hblock] at h ⊢
      have hself : block.toNat < m.size := h block (by simp)
      have hbelow : ∀ b ∈ (IndexBlock.ofSector (m.content block)).toList,
          (blocksUnder level b).eval m = .ok ((tree m.content level b).sectors, m) := by
        intro b hb
        obtain ⟨k, hk, rfl⟩ := List.getElem_of_mem hb
        have hk' : k < 128 := by simpa using hk
        apply ih
        intro s hs
        apply h s
        rw [Tree.nodes, List.mem_cons, List.mem_flatten]
        refine Or.inr ⟨_, List.mem_ofFn.2 ⟨⟨k, hk'⟩, rfl⟩, ?_⟩
        rw [Vector.getElem_toList] at hs
        exact hs
      rw [blocksUnder, if_neg hblock, Script.eval_bind_of_ok (Script.eval_fetchSector hself),
        Script.eval_bind_of_ok (Script.eval_mapM hbelow), Script.eval_pure, Tree.sectors_index,
        ofBelow_tree]
      simp only [Forest.sectors, forest, row, List.flatMap, List.map_map]
      rfl

end Reading

namespace Inode

variable {m : Medium} {n : Inode}

theorem eval_block? {i : Nat} (h : ∀ s ∈ (n.forest m.content).nodes, s.toNat < m.size)
    (hi : i < maxBlocks) : (n.block? i).eval m = .ok ((n.forest m.content).block? i, m) := by
  rw [forest_eq] at h ⊢
  simp only [Forest.nodes_append, List.mem_append, Forest.nodes_cons, Forest.nodes_nil,
    List.append_nil] at h
  rw [Forest.block?_append, span_forest_row, block?]
  simp only [span_zero, span_one, span_two, Forest.block?_cons, Nat.mul_one, Nat.sub_sub,
    directReach, singleReach, maxBlocks] at hi ⊢
  by_cases h12 : i < 12
  · rw [dif_pos h12, if_pos h12, forest_row, Forest.block?_ofFn]
    have hnodes : ∀ s ∈ (tree m.content 0 n.direct[i]).nodes, s.toNat < m.size := by
      intro s hs
      by_cases hnull : n.direct[i] = 0 <;> simp [hnull, tree, Tree.nodes] at hs
    rw [eval_blockUnder hnodes (by decide)]
    simp only [span, Nat.div_one, Nat.mod_one, dif_pos h12]
    rfl
  · rw [dif_neg h12, if_neg h12]
    by_cases h140 : i < 140
    · rw [if_pos h140, if_pos (by omega)]
      exact eval_blockUnder (fun s hs => h s (Or.inr (Or.inl hs))) (by rw [span_one]; omega)
    · rw [if_neg h140, if_neg (by omega), if_pos (by omega)]
      exact eval_blockUnder (fun s hs => h s (Or.inr (Or.inr hs))) (by rw [span_two]; omega)

theorem eval_sectorAt?_of_le {pos : Nat} (hpos : n.length.toNat ≤ pos) :
    (n.sectorAt? pos).eval m = .ok (none, m) := by
  rw [sectorAt?, if_pos hpos, Script.eval_pure]

theorem eval_sectorAt?_of_lt {pos : Nat}
    (h : ∀ s ∈ (n.forest m.content).nodes, s.toNat < m.size)
    (hlength : n.length.toNat ≤ maxLength)
    (hpos : pos < n.length.toNat) :
    (n.sectorAt? pos).eval m = .ok ((n.forest m.content).block? (pos / sectorSize), m) := by
  have hblock : pos / sectorSize < maxBlocks := by
    simp only [maxLength, sectorSize] at *
    omega
  rw [sectorAt?, if_neg (by omega), eval_block? h hblock]

/-- The listing of a file's blocks is that of its trees. -/
theorem eval_sectors (h : ∀ s ∈ (n.forest m.content).nodes, s.toNat < m.size) :
    n.sectors.eval m = .ok (n.blocks m.content, m) := by
  rw [blocks, forest_eq] at *
  simp only [Forest.nodes_append, List.mem_append, Forest.nodes_cons, Forest.nodes_nil,
    List.append_nil] at h
  have hsingle : (blocksUnder 1 n.single).eval m = .ok ((tree m.content 1 n.single).sectors, m) :=
    eval_blocksUnder fun s hs => h s (Or.inr (Or.inl hs))
  have hdouble : (blocksUnder 2 n.double).eval m = .ok ((tree m.content 2 n.double).sectors, m) :=
    eval_blocksUnder fun s hs => h s (Or.inr (Or.inr hs))
  have hdirect : ∀ bs : List UInt32,
      Forest.sectors (bs.map fun b => ⟨0, tree m.content 0 b⟩) = bs.filter (· ≠ 0) := by
    intro bs
    induction bs with
    | nil => rfl
    | cons b bs ih =>
      rw [List.map_cons, Forest.sectors_cons, ih]
      by_cases hb : b = 0 <;> simp [hb, tree, Tree.sectors]
  rw [sectors, Script.eval_bind_of_ok hsingle, Script.eval_bind_of_ok hdouble, Script.eval_pure,
    Forest.sectors_append, SectorVolume.forest, row, List.map_map]
  simp only [Forest.sectors_cons, Forest.sectors_nil, List.append_nil, List.append_assoc]
  rw [← hdirect]
  rfl

end Inode

namespace Forest

theorem lacking_data_holes (count n : Nat) :
    lacking (List.ofFn fun _ : Fin count => ⟨0, .hole⟩) n = min n count := by
  induction count generalizing n with
  | zero => simp
  | succ count ih =>
    rw [List.ofFn_succ, lacking_cons, ih, Tree.lacking_hole_zero]
    simp only [SectorVolume.span]
    split <;> omega

theorem lacking_single_hole (n : Nat) :
    (Tree.hole : Tree 1).lacking n = (if n = 0 then 0 else 1) + min n 128 := by
  rw [Tree.lacking_hole_succ, holes, ofBelow, lacking_data_holes]

theorem lacking_single_holes {count n : Nat} (h : n ≤ count * 128) :
    lacking (List.ofFn fun _ : Fin count => ⟨1, .hole⟩) n = n + (n + 127) / 128 := by
  induction count generalizing n with
  | zero =>
    obtain rfl : n = 0 := by omega
    simp
  | succ count ih =>
    rw [List.ofFn_succ, lacking_cons, lacking_single_hole]
    simp only [span_one]
    rw [ih (by omega)]
    split <;> omega

theorem lacking_double_hole {n : Nat} (h : n ≤ 16384) :
    (Tree.hole : Tree 2).lacking n = (if n = 0 then 0 else 1) + (n + (n + 127) / 128) := by
  rw [Tree.lacking_hole_succ, holes, ofBelow, lacking_single_holes (by omega)]

end Forest

/-- The closed form for the sectors of a file is what the empty trees lack. -/
theorem lacking_bare_eq_totalBlocks (n : Inode) (c : UInt32 → Sector) {length : Nat}
    (h : length ≤ maxLength) :
    (n.forest c).bare.lacking (dataBlocks length) = totalBlocks length := by
  have hblocks := dataBlocks_le_maxBlocks_iff.2 h
  simp only [Inode.bare_forest, Inode.forest_blank, Forest.lacking_append, Forest.lacking_cons,
    Forest.lacking_nil, Forest.lacking_data_holes, Forest.span_ofFn, Forest.lacking_single_hole,
    span_zero, span_one, maxBlocks] at hblocks ⊢
  rw [Forest.lacking_double_hole (by omega)]
  simp only [totalBlocks, directReach, singleReach]
  split <;> split <;> split <;> split <;> omega

section Counts

variable {n : Inode} {c : UInt32 → Sector} {old : Nat}
  (hfits : (n.forest c).Fits (dataBlocks old))
  (hold : old ≤ maxLength)

include hfits hold

/-- A file that has just the blocks of its length. -/
theorem length_blocks_of_fits : (n.blocks c).length = totalBlocks old := by
  rw [Inode.blocks, Forest.length_sectors_of_fits hfits, lacking_bare_eq_totalBlocks n _ hold]

/-- What such a file lacks for another length. -/
theorem lacking_eq_sub {length : Nat} (hle : length ≤ maxLength) :
    (n.forest c).lacking (dataBlocks length) = totalBlocks length - totalBlocks old := by
  rcases Nat.le_total old length with hgrow | hshrink
  · have hsum := Forest.lacking_of_fits hfits (dataBlocks_mono hgrow)
    rw [lacking_bare_eq_totalBlocks n _ hle, lacking_bare_eq_totalBlocks n _ hold] at hsum
    omega
  · have hmono := totalBlocks_mono hshrink
    rw [Forest.lacking_of_fits_of_le hfits (dataBlocks_mono hshrink)]
    omega

end Counts

end SectorVolume
