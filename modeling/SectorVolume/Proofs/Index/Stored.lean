import SectorVolume.Proofs.Script.Medium
import SectorVolume.Proofs.Index.Shape

/-!
The trees that a medium stores. The bytes of the sectors decide what is below a pointer: nothing
below pointer 0, and otherwise what the index block in that sector names. Only the index blocks
have a say, so writing anywhere else leaves the trees alone.
-/

namespace SectorVolume

/-- What is below a pointer to a block of a level. -/
def tree (c : UInt32 → Sector) : (level : Nat) → UInt32 → Tree level
  | 0, block => if block = 0 then .hole else .data block
  | level + 1, block =>
    if block = 0 then .hole
    else .index block fun k => tree c level ((IndexBlock.ofSector (c block)).get k)

/-- Pointers in a row, each with the level of its block. -/
abbrev Roots := List (Nat × UInt32)

/-- Pointers to blocks of one level. -/
def row {n : Nat} (level : Nat) (v : Vector UInt32 n) : Roots := v.toList.map fun b => (level, b)

def forest (c : UInt32 → Sector) (roots : Roots) : Forest :=
  roots.map fun r => ⟨r.1, tree c r.1 r.2⟩

section Stored

variable (c : UInt32 → Sector) (roots roots' : Roots) (level : Nat) (block : UInt32)

@[simp] theorem forest_nil : forest c [] = [] := rfl

@[simp] theorem forest_cons :
    forest c ((level, block) :: roots) = ⟨level, tree c level block⟩ :: forest c roots := rfl

@[simp] theorem forest_append : forest c (roots ++ roots') = forest c roots ++ forest c roots' :=
  List.map_append

theorem forest_row {n : Nat} (v : Vector UInt32 n) :
    forest c (row level v) = List.ofFn fun k : Fin n => ⟨level, tree c level (v.get k)⟩ := by
  apply List.ext_getElem
  · simp [forest, row]
  · intro i _ _
    simp [forest, row]
    rfl

theorem row_push {n : Nat} (v : Vector UInt32 n) :
    row level (v.push block) = row level v ++ [(level, block)] := by
  simp [row, Vector.toList_push]

theorem row_pop_back {n : Nat} (v : Vector UInt32 (n + 1)) :
    row level v = row level v.pop ++ [(level, v.back)] := by
  rw [← row_push, Vector.push_pop_back]

theorem span_forest_row {n : Nat} (v : Vector UInt32 n) :
    (forest c (row level v)).span = n * span level := by
  rw [forest_row, Forest.span_ofFn]

@[simp] theorem tree_null : tree c level 0 = .hole := by
  cases level <;> simp [tree]

theorem tree_zero_of_ne {block : UInt32} (h : block ≠ 0) : tree c 0 block = .data block :=
  if_neg h

theorem tree_succ_of_ne {block : UInt32} (h : block ≠ 0) :
    tree c (level + 1) block =
      .index block fun k => tree c level ((IndexBlock.ofSector (c block)).get k) := if_neg h

/-- The row below an index block. -/
theorem ofBelow_tree {v : IndexBlock} :
    Forest.ofBelow (fun k => tree c level (v.get k)) = forest c (row level v) :=
  (forest_row c level v).symm

theorem forest_row_null {n : Nat} :
    forest c (row level (Vector.replicate n 0)) = List.ofFn fun _ : Fin n => ⟨level, .hole⟩ := by
  rw [forest_row]
  congr 1
  funext k
  have hnull : (Vector.replicate n (0 : UInt32)).get k = 0 := Vector.getElem_replicate k.isLt
  rw [hnull, tree_null]

end Stored

/-- Trees depend on the bytes of their index blocks only. -/
theorem tree_congr {c c' : UInt32 → Sector} {level : Nat} {block : UInt32}
    (h : ∀ s ∈ (tree c level block).nodes, c' s = c s) :
    tree c' level block = tree c level block := by
  induction level generalizing block with
  | zero => rfl
  | succ level ih =>
    by_cases hblock : block = 0
    · simp [hblock]
    · rw [tree_succ_of_ne c level hblock] at h ⊢
      have hself : c' block = c block := h block (by simp)
      rw [tree_succ_of_ne c' level hblock, hself]
      congr 1
      funext k
      apply ih
      intro s hs
      apply h s
      rw [Tree.nodes, List.mem_cons, List.mem_flatten]
      exact Or.inr ⟨_, List.mem_ofFn.2 ⟨k, rfl⟩, hs⟩

theorem forest_congr {c c' : UInt32 → Sector} {roots : Roots}
    (h : ∀ s ∈ (forest c roots).nodes, c' s = c s) : forest c' roots = forest c roots := by
  apply List.map_congr_left
  intro r hr
  have htree : tree c' r.1 r.2 = tree c r.1 r.2 := by
    apply tree_congr
    intro s hs
    exact h s (List.mem_flatMap.2 ⟨_, List.mem_map_of_mem hr, hs⟩)
  rw [htree]

theorem IndexBlock.ext_get {v w : IndexBlock} (h : ∀ k, v.get k = w.get k) : v = w :=
  Vector.ext fun i hi => h ⟨i, hi⟩

/-- A tree tells the pointer to it and the bytes of its index blocks. -/
theorem tree_inj {c c' : UInt32 → Sector} {level : Nat} {block block' : UInt32}
    (h : tree c level block = tree c' level block') :
    block = block' ∧ ∀ s ∈ (tree c level block).nodes, c s = c' s := by
  induction level generalizing block block' with
  | zero =>
    have hnodes : (tree c 0 block).nodes = [] := by
      rw [tree]
      split <;> rfl
    refine ⟨?_, by simp [hnodes]⟩
    rw [tree, tree] at h
    split at h <;> split at h <;> simp_all
  | succ level ih =>
    by_cases hblock : block = 0
    · rw [hblock, tree_null, tree] at h
      split at h
      · next hblock' => exact ⟨hblock.trans hblock'.symm, by simp [hblock, Tree.nodes]⟩
      · cases h
    · by_cases hblock' : block' = 0
      · rw [hblock', tree_null, tree_succ_of_ne c level hblock] at h
        cases h
      · rw [tree_succ_of_ne c level hblock, tree_succ_of_ne c' level hblock',
          Tree.index.injEq] at h
        obtain ⟨rfl, hbelow⟩ := h
        have hentry := fun k => ih (congrFun hbelow k)
        have hself : c block = c' block := by
          rw [← IndexBlock.toSector_ofSector (c block), ← IndexBlock.toSector_ofSector (c' block),
            IndexBlock.ext_get fun k => (hentry k).1]
        refine ⟨rfl, fun s hs => ?_⟩
        rw [tree_succ_of_ne c level hblock, Tree.nodes, List.mem_cons, List.mem_flatten] at hs
        rcases hs with rfl | ⟨nodes, hnodes, hs⟩
        · exact hself
        · obtain ⟨k, rfl⟩ := List.mem_ofFn.1 hnodes
          exact (hentry k).2 s hs

theorem forest_inj {c c' : UInt32 → Sector} {roots roots' : Roots}
    (h : forest c roots = forest c' roots') :
    roots = roots' ∧ ∀ s ∈ (forest c roots).nodes, c s = c' s := by
  induction roots generalizing roots' with
  | nil =>
    cases roots' with
    | nil => exact ⟨rfl, by simp⟩
    | cons r roots' => exact absurd h (by simp [forest])
  | cons r roots ih =>
    cases roots' with
    | nil => exact absurd h (by simp [forest])
    | cons r' roots' =>
      obtain ⟨level, block⟩ := r
      obtain ⟨level', block'⟩ := r'
      rw [forest_cons, forest_cons, List.cons.injEq, Sigma.mk.injEq] at h
      obtain ⟨⟨rfl, htree⟩, hrest⟩ := h
      obtain ⟨rfl, hsame⟩ := tree_inj (eq_of_heq htree)
      obtain ⟨rfl, hkept⟩ := ih hrest
      refine ⟨rfl, fun s hs => ?_⟩
      rw [forest_cons, Forest.nodes_cons, List.mem_append] at hs
      exact hs.elim (hsame s) (hkept s)

theorem row_injective {level n : Nat} {v v' : Vector UInt32 n} (h : row level v = row level v') :
    v = v' := by
  have hlist := List.map_injective_iff.2 (fun _ _ e => (Prod.mk.inj e).2) h
  exact Vector.toList_inj.1 hlist

theorem zero_notMem_tree (c : UInt32 → Sector) (level : Nat) (block : UInt32) :
    0 ∉ (tree c level block).sectors := by
  induction level generalizing block with
  | zero =>
    by_cases hblock : block = 0
    · simp [hblock]
    · simpa [tree_zero_of_ne c hblock, Tree.sectors] using Ne.symm hblock
  | succ level ih =>
    by_cases hblock : block = 0
    · simp [hblock]
    · rw [tree_succ_of_ne c level hblock, Tree.sectors, List.mem_cons, List.mem_flatten]
      rintro (h | ⟨sectors, hsectors, hzero⟩)
      · exact hblock h.symm
      · obtain ⟨k, rfl⟩ := List.mem_ofFn.1 hsectors
        exact ih _ hzero

section IndexBlocks

variable {c : UInt32 → Sector} {level : Nat} {block : UInt32} (h : block ≠ 0)

include h

theorem sectors_index_root : (forest c [(level + 1, block)]).sectors =
    block :: (forest c (row level (IndexBlock.ofSector (c block)))).sectors := by
  simp only [forest_cons, forest_nil, tree_succ_of_ne c level h, Forest.sectors_cons,
    Forest.sectors_nil, Tree.sectors_index, ofBelow_tree, List.append_nil]

theorem self_mem_index_root : block ∈ (forest c [(level + 1, block)]).sectors := by
  rw [sectors_index_root h]
  exact List.mem_cons_self

theorem nodes_index_root : (forest c [(level + 1, block)]).nodes =
    block :: (forest c (row level (IndexBlock.ofSector (c block)))).nodes := by
  simp only [forest_cons, forest_nil, tree_succ_of_ne c level h, Forest.nodes_cons,
    Forest.nodes_nil, Tree.nodes_index, ofBelow_tree, List.append_nil]

theorem beyond_index_root (n : Nat) : (forest c [(level + 1, block)]).beyond n =
    (forest c (row level (IndexBlock.ofSector (c block)))).beyond n ++
      if n = 0 then [block] else [] := by
  simp only [forest_cons, forest_nil, tree_succ_of_ne c level h, Forest.beyond_cons,
    Forest.beyond_nil, Tree.beyond_index, ofBelow_tree, List.append_nil]

theorem lacking_index_root (n : Nat) : (forest c [(level + 1, block)]).lacking n =
    (forest c (row level (IndexBlock.ofSector (c block)))).lacking n := by
  simp only [forest_cons, forest_nil, tree_succ_of_ne c level h, Forest.lacking_cons,
    Forest.lacking_nil, Tree.lacking_index, ofBelow_tree, Nat.add_zero]

/-- The pointers written into an index block are what is below it, unless the block lies below
itself. -/
theorem tree_put_index {m : Medium} {v : IndexBlock}
    (hnot : block ∉ (forest m.content (row level v)).nodes) :
    tree (m.put block v.toSector).content (level + 1) block =
      .index block fun k => tree m.content level (v.get k) := by
  rw [tree_succ_of_ne _ _ h, Medium.content_put_self, IndexBlock.ofSector_toSector]
  congr 1
  funext k
  apply tree_congr
  intro s hs
  apply Medium.content_put_of_ne
  rintro rfl
  apply hnot
  rw [forest_row]
  exact List.mem_flatMap.2 ⟨_, List.mem_ofFn.2 ⟨k, rfl⟩, hs⟩

end IndexBlocks

/-- The null pointer names no sector. -/
theorem zero_notMem_forest (c : UInt32 → Sector) (roots : Roots) :
    0 ∉ (forest c roots).sectors := by
  intro h
  obtain ⟨t, ht, hzero⟩ := List.mem_flatMap.1 h
  obtain ⟨r, _, rfl⟩ := List.mem_map.1 ht
  exact zero_notMem_tree c r.1 r.2 hzero

end SectorVolume
