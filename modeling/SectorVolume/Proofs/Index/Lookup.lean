import SectorVolume.Proofs.Index.Shape

/-!
Looking data blocks up by number. The block with a number under an index block is found by
division and remainder; in a row that means counting from the left. A row that fits `n` data
blocks has just those with numbers below `n`, and in a row without repeated sectors different
numbers give different sectors.
-/

namespace SectorVolume

namespace Forest

@[simp] theorem block?_nil (i : Nat) : block? [] i = none := rfl

theorem block?_cons {level : Nat} (t : Tree level) (F : Forest) (i : Nat) :
    block? (⟨level, t⟩ :: F) i =
      if i < SectorVolume.span level then t.block? i
        else F.block? (i - SectorVolume.span level) :=
  rfl

theorem block?_append (F G : Forest) (i : Nat) :
    (F ++ G : Forest).block? i = if i < F.span then F.block? i else G.block? (i - F.span) := by
  induction F generalizing i with
  | nil => simp [span]
  | cons t rest ih =>
    obtain ⟨level, t⟩ := t
    rw [List.cons_append, block?_cons, block?_cons, ih, span_cons]
    by_cases hi : i < SectorVolume.span level
    · rw [if_pos hi, if_pos hi, if_pos (by omega)]
    · rw [if_neg hi, if_neg hi, Nat.sub_sub]
      by_cases hrest : i - SectorVolume.span level < Forest.span rest
      · rw [if_pos hrest, if_pos (by omega)]
      · rw [if_neg hrest, if_neg (by omega)]

theorem block?_of_span_le {F : Forest} {i : Nat} (h : F.span ≤ i) : F.block? i = none := by
  induction F generalizing i with
  | nil => rfl
  | cons t rest ih =>
    obtain ⟨level, t⟩ := t
    rw [span_cons] at h
    rw [block?_cons, if_neg (by omega)]
    exact ih (by omega)

/-- In a row of trees of one level the tree is found by division, the block in it by the
remainder. -/
theorem block?_ofFn {level m : Nat} (f : Fin m → Tree level) (i : Nat) :
    block? (List.ofFn fun k => ⟨level, f k⟩) i =
      if h : i / SectorVolume.span level < m then
        (f ⟨i / SectorVolume.span level, h⟩).block? (i % SectorVolume.span level)
      else none := by
  have hpos := span_pos level
  induction m generalizing i with
  | zero => simp
  | succ m ih =>
    rw [List.ofFn_succ, block?_cons]
    by_cases hi : i < SectorVolume.span level
    · have hdiv : i / SectorVolume.span level = 0 := Nat.div_eq_of_lt hi
      rw [if_pos hi, dif_pos (by omega), Nat.mod_eq_of_lt hi]
      congr 2
      exact Fin.ext hdiv.symm
    · have hdiv : i / SectorVolume.span level =
          (i - SectorVolume.span level) / SectorVolume.span level + 1 := by
        rw [Nat.div_eq_sub_div hpos (Nat.le_of_not_lt hi)]
      have hmod : i % SectorVolume.span level =
          (i - SectorVolume.span level) % SectorVolume.span level :=
        Nat.mod_eq_sub_mod (Nat.le_of_not_lt hi)
      rw [if_neg hi, ih (fun k => f k.succ), hmod]
      by_cases hlt : (i - SectorVolume.span level) / SectorVolume.span level < m
      · rw [dif_pos hlt, dif_pos (by omega)]
        congr 2
        exact Fin.ext hdiv.symm
      · rw [dif_neg hlt, dif_neg (by omega)]

end Forest

theorem Tree.block?_index {level : Nat} (s : UInt32) (below : Fin 128 → Tree level) (i : Nat) :
    (Tree.index s below).block? i = (Forest.ofBelow below).block? i := by
  rw [Forest.ofBelow, Forest.block?_ofFn, Tree.block?]

namespace Forest

theorem mem_leaves_of_block? {F : Forest} {i : Nat} {s : UInt32} (h : F.block? i = some s) :
    s ∈ F.leaves := by
  induction F using induction generalizing i with
  | nil => exact absurd h (by simp)
  | hole level F ih =>
    rw [block?_cons] at h
    split at h
    · exact absurd h (by simp [Tree.block?])
    · simpa [Tree.leaves] using ih h
  | data t F ih =>
    rw [block?_cons] at h
    split at h
    · obtain rfl : t = s := Option.some.inj h
      simp [Tree.leaves]
    · simpa [Tree.leaves] using Or.inr (ih h)
  | index level t below F ihb ih =>
    rw [block?_cons, Tree.block?_index] at h
    split at h
    · simpa using Or.inl (ihb h)
    · simpa using Or.inr (ih h)

theorem mem_sectors_of_block? {F : Forest} {i : Nat} {s : UInt32} (h : F.block? i = some s) :
    s ∈ F.sectors := mem_sectors.2 (Or.inr (mem_leaves_of_block? h))

/-- A row that fits `n` data blocks has just those with numbers below `n`. -/
theorem isSome_block?_of_fits {F : Forest} {n i : Nat} (hfits : F.Fits n) (hi : i < F.span) :
    (F.block? i).isSome ↔ i < n := by
  induction F using induction generalizing n i with
  | nil => exact absurd hi (by simp [span])
  | hole level F ih =>
    obtain ⟨hn, hfits⟩ := (fits_cons _ _ _).1 hfits
    simp only [Tree.Fits] at hn
    simp only [span] at hi
    rw [block?_cons]
    split
    · simp [Tree.block?, hn]
    · rw [ih hfits (by omega)]
      omega
  | data s F ih =>
    obtain ⟨hn, hfits⟩ := (fits_cons _ _ _).1 hfits
    simp only [Tree.Fits] at hn
    simp only [span] at hi
    rw [block?_cons]
    split
    · rename_i h0
      simp only [SectorVolume.span] at h0
      simp only [Tree.block?, Option.isSome_some, true_iff]
      omega
    · rw [ih hfits (by omega)]
      omega
  | index level s below F ihb ih =>
    obtain ⟨htree, hfits⟩ := (fits_cons _ _ _).1 hfits
    obtain ⟨_, hbelow⟩ := (Tree.fits_index s below n).1 htree
    simp only [span] at hi
    rw [block?_cons, Tree.block?_index]
    split
    · rename_i h0
      exact ihb hbelow (by rw [span_ofBelow]; exact h0)
    · rw [ih hfits (by omega)]
      omega

theorem block?_of_fits {F : Forest} {n i : Nat} (hfits : F.Fits n) (hi : n ≤ i) :
    F.block? i = none := by
  rcases Nat.lt_or_ge i F.span with hspan | hspan
  · by_contra hsome
    have hlt := (isSome_block?_of_fits hfits hspan).1 (Option.isSome_iff_ne_none.2 hsome)
    omega
  · exact block?_of_span_le hspan

/-- Different data blocks lie in different sectors. -/
theorem block?_inj {F : Forest} (hnodup : F.leaves.Nodup) {i j : Nat} {s : UInt32}
    (hi : F.block? i = some s) (hj : F.block? j = some s) : i = j := by
  induction F using induction generalizing i j with
  | nil => exact absurd hi (by simp)
  | hole level F ih =>
    simp only [leaves_cons, Tree.leaves, List.nil_append] at hnodup
    rw [block?_cons] at hi hj
    split at hi
    · exact absurd hi (by simp [Tree.block?])
    · split at hj
      · exact absurd hj (by simp [Tree.block?])
      · have := ih hnodup hi hj
        omega
  | data t F ih =>
    simp only [leaves_cons, Tree.leaves, List.singleton_append, List.nodup_cons] at hnodup
    rw [block?_cons] at hi hj
    split at hi <;> split at hj
    · simp only [SectorVolume.span] at *
      omega
    · obtain rfl : t = s := Option.some.inj hi
      exact absurd (mem_leaves_of_block? hj) hnodup.1
    · obtain rfl : t = s := Option.some.inj hj
      exact absurd (mem_leaves_of_block? hi) hnodup.1
    · have := ih hnodup.2 hi hj
      omega
  | index level t below F ihb ih =>
    simp only [leaves_cons, Tree.leaves_index, List.nodup_append] at hnodup
    obtain ⟨hb, hF, hdisjoint⟩ := hnodup
    rw [block?_cons, Tree.block?_index] at hi hj
    split at hi <;> split at hj
    · exact ihb hb hi hj
    · exact absurd rfl (hdisjoint s (mem_leaves_of_block? hi) s (mem_leaves_of_block? hj))
    · exact absurd rfl (hdisjoint s (mem_leaves_of_block? hj) s (mem_leaves_of_block? hi))
    · have := ih hF hi hj
      omega

end Forest

end SectorVolume
