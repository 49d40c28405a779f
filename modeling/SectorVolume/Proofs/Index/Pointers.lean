import SectorVolume.Proofs.Index.File

/-!
What fitting trees say about the pointers of an inode. For the first `b` data blocks the pointers
to them are there, the index blocks on the way to one of them are there, and all other pointers
are null.
-/

namespace SectorVolume

section Tree

variable {c : UInt32 → Sector} {level n : Nat} {block : UInt32}

/-- A pointer is there if a data block below it is needed. -/
theorem ne_zero_iff_of_fits (h : (tree c level block).Fits n) : block ≠ 0 ↔ n ≠ 0 := by
  cases level with
  | zero =>
    by_cases hblock : block = 0
    · rw [hblock, tree_null] at h
      simp only [Tree.Fits] at h
      simp [hblock, h]
    · rw [tree_zero_of_ne c hblock] at h
      simp only [Tree.Fits] at h
      simp [hblock, h]
  | succ level =>
    by_cases hblock : block = 0
    · rw [hblock, tree_null] at h
      simp only [Tree.Fits] at h
      simp [hblock, h]
    · rw [tree_succ_of_ne c level hblock] at h
      simp only [Tree.Fits] at h
      simp [hblock, h.1]

/-- The trees below an index block fit what is left for them. -/
theorem fits_entry (hblock : block ≠ 0) (h : (tree c (level + 1) block).Fits n) {k : Fin 128}
    {entry : UInt32} (hentry : (IndexBlock.ofSector (c block)).get k = entry) :
    (tree c level entry).Fits (n - k.val * span level) := by
  subst hentry
  rw [tree_succ_of_ne c level hblock] at h
  exact h.2 k

/-- An entry of an index block is there if a data block below it is needed. -/
theorem entry_ne_zero_iff (hblock : block ≠ 0) (h : (tree c (level + 1) block).Fits n)
    (k : Fin 128) :
    (IndexBlock.ofSector (c block)).get k ≠ 0 ↔ n - k.val * span level ≠ 0 := by
  generalize hentry : (IndexBlock.ofSector (c block)).get k = entry
  exact ne_zero_iff_of_fits (fits_entry hblock h hentry)

/-- The same two index blocks down. -/
theorem entry_entry_ne_zero_iff (hblock : block ≠ 0) (h : (tree c (level + 2) block).Fits n)
    {j : Fin 128} (hne : (IndexBlock.ofSector (c block)).get j ≠ 0) (i : Fin 128) :
    (IndexBlock.ofSector (c ((IndexBlock.ofSector (c block)).get j))).get i ≠ 0 ↔
      n - j.val * span (level + 1) - i.val * span level ≠ 0 := by
  generalize hentry : (IndexBlock.ofSector (c block)).get j = entry at hne ⊢
  exact entry_ne_zero_iff hne (fits_entry hblock h hentry) i

end Tree

namespace Inode

/-- The pointers that are not null are those to the first `b` data blocks and to the index blocks
on the way to them. -/
structure Points (n : Inode) (c : UInt32 → Sector) (b : Nat) : Prop where
  direct : ∀ i : Fin 12, n.direct.get i ≠ 0 ↔ i.val < b
  single : n.single ≠ 0 ↔ 12 < b
  belowSingle : n.single ≠ 0 → ∀ i : Fin 128,
    (IndexBlock.ofSector (c n.single)).get i ≠ 0 ↔ 12 + i.val < b
  double : n.double ≠ 0 ↔ 140 < b
  belowDouble : n.double ≠ 0 → ∀ j : Fin 128,
    (IndexBlock.ofSector (c n.double)).get j ≠ 0 ↔ 140 + 128 * j.val < b
  belowBoth : n.double ≠ 0 → ∀ j : Fin 128, (IndexBlock.ofSector (c n.double)).get j ≠ 0 →
    ∀ i : Fin 128,
    (IndexBlock.ofSector (c ((IndexBlock.ofSector (c n.double)).get j))).get i ≠ 0 ↔
      140 + 128 * j.val + i.val < b

theorem points_of_fits {n : Inode} {c : UInt32 → Sector} {b : Nat} (h : (n.forest c).Fits b) :
    n.Points c b := by
  rw [forest_eq, Forest.fits_append, span_forest_row, Forest.fits_cons, Forest.fits_cons,
    forest_row] at h
  simp only [span_zero, span_one, Nat.mul_one, Nat.sub_sub] at h
  obtain ⟨hdirect, hsingle, hdouble, _⟩ := h
  refine {
    direct := fun i => ?_
    single := ?_
    belowSingle := fun hne i => ?_
    double := ?_
    belowDouble := fun hne j => ?_
    belowBoth := fun hne j hentry i => ?_
  }
  · have hblock : (tree c 0 (n.direct.get i)).Fits (b - i.val * span 0) :=
      hdirect (⟨0, tree c 0 (n.direct.get i)⟩, b - i.val * span 0) (by
        rw [Forest.shares_ofFn]
        exact List.mem_ofFn.2 ⟨i, rfl⟩)
    rw [ne_zero_iff_of_fits hblock, span_zero]
    omega
  · rw [ne_zero_iff_of_fits hsingle]
    omega
  · rw [entry_ne_zero_iff hne hsingle, span_zero]
    omega
  · rw [ne_zero_iff_of_fits hdouble]
    omega
  · rw [entry_ne_zero_iff hne hdouble, span_one]
    omega
  · rw [entry_entry_ne_zero_iff hne hdouble hentry, span_one, span_zero]
    omega

end Inode

end SectorVolume
