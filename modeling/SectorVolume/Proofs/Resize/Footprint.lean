import SectorVolume.Proofs.Index.Refit
import SectorVolume.Proofs.Index.Stored
import SectorVolume.Proofs.Resize.Yields

/-!
What a walk over some pointers may touch. It takes sectors from the front of the supply and
overwrites index blocks that it has saved in the journal first; everything else keeps its bytes.
Two walks over different pointers, one after the other, touch different sectors, so the second
finds its trees as they were before the first.
-/

namespace SectorVolume

/-- A walk over these pointers can start: the free map gives out sectors that exist and not sector
0, and what is below the pointers are different sectors that exist and are in use. -/
structure Ready (d : Medium) (roots : Roots) : Prop where
  within : d.map.bitmap.Within d.size
  nodup : (forest d.content roots).sectors.Nodup
  exists_sector : ∀ s ∈ (forest d.content roots).sectors, s.toNat < d.size
  used : ∀ s ∈ (forest d.content roots).sectors, d.map.bitmap.used? s.toNat = some true

/-- The second medium differs from the first in sectors taken and in index blocks that were
saved. -/
structure Touched (d d' : Medium) (F : Forest) (taken : List UInt32)
    (saved : List (UInt32 × IndexBlock)) : Prop where
  size : d'.size = d.size
  mem_nodes : ∀ e ∈ saved, e.1 ∈ F.nodes
  saved_eq : ∀ e ∈ saved, e.2.toSector = d.content e.1
  kept : ∀ s, s ∉ taken → s ∉ saved.map Prod.fst → d'.content s = d.content s

/-- The second medium has the blocks below the pointers fitted to `n` data blocks. New data blocks
are zeroed, and the sectors that are not needed any more are free. -/
structure Fitted (d d' : Medium) (roots roots' : Roots) (n : Nat) (taken : List UInt32)
    (saved : List (UInt32 × IndexBlock)) : Prop
    extends Touched d d' (forest d.content roots) taken saved where
  refit : (forest d.content roots).Refit n (forest d'.content roots') taken
  map : d'.map = (d.map.grantAll taken).takeBackAll ((forest d.content roots).beyond n)
  zeroed : ∀ s ∈ taken, s ∈ (forest d'.content roots').leaves → d'.content s = Sector.zero

namespace Ready

variable {d : Medium} {roots roots' : Roots}

theorem left (h : Ready d (roots ++ roots')) : Ready d roots := by
  obtain ⟨hwithin, hnodup, hexists, hused⟩ := h
  simp only [forest_append, Forest.sectors_append] at hnodup hexists hused
  exact ⟨hwithin, (List.nodup_append.1 hnodup).1,
    fun s hs => hexists s (List.mem_append_left _ hs),
    fun s hs => hused s (List.mem_append_left _ hs)⟩

theorem disjoint (h : Ready d (roots ++ roots')) {s : UInt32}
    (hs : s ∈ (forest d.content roots).sectors) : s ∉ (forest d.content roots').sectors := by
  have hnodup := h.nodup
  rw [forest_append, Forest.sectors_append] at hnodup
  intro hs'
  exact (List.nodup_append.1 hnodup).2.2 s hs s hs' rfl

theorem right (h : Ready d (roots ++ roots')) : Ready d roots' := by
  obtain ⟨hwithin, hnodup, hexists, hused⟩ := h
  simp only [forest_append, Forest.sectors_append] at hnodup hexists hused
  exact ⟨hwithin, (List.nodup_append.1 hnodup).2.1,
    fun s hs => hexists s (List.mem_append_right _ hs),
    fun s hs => hused s (List.mem_append_right _ hs)⟩

theorem notMem_supply (h : Ready d roots) {s : UInt32}
    (hs : s ∈ (forest d.content roots).sectors) : s ∉ d.map.supply :=
  FreeMap.notMem_supply h.within (h.used s hs)

section Exchange

variable {taken rest given : List UInt32} (h : Ready d roots)
  (hsupply : d.map.supply = taken ++ rest)

include h hsupply

theorem free_of_mem_taken {s : UInt32} (hs : s ∈ taken) :
    d.map.bitmap.used? s.toNat = some false := by
  apply FreeMap.mem_supply h.within
  rw [hsupply]
  exact List.mem_append_left _ hs

theorem notMem_taken {s : UInt32} (hs : s ∈ (forest d.content roots).sectors) : s ∉ taken := by
  intro hmem
  apply h.notMem_supply hs
  rw [hsupply]
  exact List.mem_append_left _ hmem

variable (hgiven : ∀ s ∈ given, s ∈ (forest d.content roots).sectors)

include hgiven

/-- Bit by bit: what is given up is free, what was taken is in use. -/
theorem used?_exchanged (i : Nat) :
    ((d.map.grantAll taken).takeBackAll given).bitmap.used? i =
      if i ∈ given.map UInt32.toNat then some false
      else if i ∈ taken.map UInt32.toNat then some true else d.map.bitmap.used? i := by
  have hsome : ∀ s ∈ taken, (d.map.bitmap.used? s.toNat).isSome := fun s hs => by
    rw [h.free_of_mem_taken hsupply hs]
    rfl
  have hsome' : ∀ s ∈ given, ((d.map.grantAll taken).bitmap.used? s.toNat).isSome :=
    fun s hs => by
    rw [FreeMap.isSome_used?_grantAll, h.used s (hgiven s hs)]
    rfl
  rw [FreeMap.used?_takeBackAll hsome', FreeMap.used?_grantAll hsome]

theorem within_exchanged : ((d.map.grantAll taken).takeBackAll given).bitmap.Within d.size := by
  intro i hi
  rw [h.used?_exchanged hsupply hgiven] at hi
  split at hi
  case isTrue hmem =>
    obtain ⟨s, hs, rfl⟩ := List.mem_map.1 hmem
    have hne : s ≠ 0 := by
      rintro rfl
      exact zero_notMem_forest _ _ (hgiven 0 hs)
    refine ⟨?_, h.exists_sector s (hgiven s hs), s.toNat_lt⟩
    exact Nat.pos_of_ne_zero fun hzero => hne (UInt32.toNat_inj.1 hzero)
  case isFalse =>
    split at hi
    · exact absurd hi (by decide)
    · exact h.within i hi

end Exchange

end Ready

namespace Touched

variable {d d' d'' : Medium} {F G : Forest} {taken taken' : List UInt32}
  {saved saved' : List (UInt32 × IndexBlock)}

theorem refl (d : Medium) (F : Forest) : Touched d d F [] [] where
  size := rfl
  mem_nodes := by simp
  saved_eq := by simp
  kept _ _ _ := rfl

theorem mono (h : Touched d d' F taken saved) (hsub : ∀ s ∈ F.nodes, s ∈ G.nodes) :
    Touched d d' G taken saved :=
  ⟨h.size, fun e he => hsub _ (h.mem_nodes e he), h.saved_eq, h.kept⟩

/-- A sector outside the trees that is not taken keeps its bytes. -/
theorem content_of_notMem (h : Touched d d' F taken saved) {s : UInt32} (hs : s ∉ F.nodes)
    (htaken : s ∉ taken) : d'.content s = d.content s := by
  apply h.kept s htaken
  intro hsaved
  obtain ⟨e, he, rfl⟩ := List.mem_map.1 hsaved
  exact hs (h.mem_nodes e he)

theorem trans (h : Touched d d' F taken saved) (h' : Touched d' d'' G taken' saved')
    (hdisjoint : ∀ s ∈ G.nodes, s ∉ F.nodes ∧ s ∉ taken) :
    Touched d d'' (F ++ G) (taken ++ taken') (saved' ++ saved) where
  size := h'.size.trans h.size
  mem_nodes e he := by
    rw [Forest.nodes_append]
    rcases List.mem_append.1 he with he | he
    · exact List.mem_append_right _ (h'.mem_nodes e he)
    · exact List.mem_append_left _ (h.mem_nodes e he)
  saved_eq e he := by
    rcases List.mem_append.1 he with he | he
    · obtain ⟨hF, htaken⟩ := hdisjoint e.1 (h'.mem_nodes e he)
      rw [h'.saved_eq e he, h.content_of_notMem hF htaken]
    · exact h.saved_eq e he
  kept s hs hsaved := by
    rw [List.mem_append, not_or] at hs
    rw [List.map_append, List.mem_append, not_or] at hsaved
    rw [h'.kept s hs.2 hsaved.1, h.kept s hs.1 hsaved.2]

end Touched

namespace Fitted

variable {d d' d'' : Medium} {roots roots' out out' : Roots} {n : Nat}
  {taken taken' rest : List UInt32} {saved saved' : List (UInt32 × IndexBlock)}

theorem mem_sectors (h : Fitted d d' roots out n taken saved) {s : UInt32}
    (hs : s ∈ (forest d'.content out).sectors) :
    s ∈ (forest d.content roots).sectors ∨ s ∈ taken := by
  rw [← List.mem_append, ← h.refit.sectors_perm.mem_iff]
  exact List.mem_append_left _ hs

/-- Behind pointers that were fitted the other trees are as before. -/
theorem forest_right (hready : Ready d (roots ++ roots'))
    (htouched : Touched d d' (forest d.content roots) taken saved)
    (hsupply : d.map.supply = taken ++ rest) :
    forest d'.content roots' = forest d.content roots' := by
  apply forest_congr
  intro s hs
  have hsectors := Forest.mem_sectors.2 (Or.inl hs)
  apply htouched.content_of_notMem
  · intro hnode
    exact hready.disjoint (Forest.mem_sectors.2 (Or.inl hnode)) hsectors
  · exact hready.right.notMem_taken hsupply hsectors

/-- The walk over the pointers that follow can start. -/
theorem ready_right (hready : Ready d (roots ++ roots')) (h : Fitted d d' roots out n taken saved)
    (hsupply : d.map.supply = taken ++ rest) : Ready d' roots' := by
  have hforest := forest_right hready h.toTouched hsupply
  have hbeyond : ∀ s ∈ (forest d.content roots).beyond n,
      s ∈ (forest d.content roots).sectors := fun s hs => Forest.beyond_subset hs
  refine ⟨?_, ?_, ?_, ?_⟩
  · rw [h.map, h.size]
    exact hready.left.within_exchanged hsupply hbeyond
  · rw [hforest]
    exact hready.right.nodup
  · intro s hs
    rw [hforest] at hs
    rw [h.size]
    exact hready.right.exists_sector s hs
  · intro s hs
    rw [hforest] at hs
    have hother : s.toNat ∉ ((forest d.content roots).beyond n).map UInt32.toNat := by
      intro hmem
      obtain ⟨t, ht, heq⟩ := List.mem_map.1 hmem
      rw [UInt32.toNat_inj] at heq
      exact hready.disjoint (hbeyond t ht) (heq ▸ hs)
    rw [h.map, hready.left.used?_exchanged hsupply hbeyond, if_neg hother, hready.right.used s hs,
      ite_self]

/-- What one walk takes and the next takes is what both take, and so for what they return: a walk
that returns anything needs nothing behind it. -/
theorem map_right (h : Fitted d d' roots out n taken saved)
    (h' : Fitted d' d'' roots' out' (n - (forest d.content roots).span) taken' saved') :
    d''.map = (d.map.grantAll (taken ++ taken')).takeBackAll
      ((forest d.content roots).beyond n ++
        (forest d'.content roots').beyond (n - (forest d.content roots).span)) := by
  rw [h'.map, h.map, FreeMap.takeBackAll_append, FreeMap.grantAll_append]
  rcases Nat.le_total (forest d.content roots).span n with hle | hle
  · rw [Forest.beyond_of_span_le _ hle]
    rfl
  · have hzero : n - (forest d.content roots).span = 0 := by omega
    have hlength := h'.refit.length_taken
    rw [hzero, Forest.lacking_zero, List.length_eq_zero_iff] at hlength
    rw [hlength]
    rfl

theorem append (hready : Ready d (roots ++ roots')) (h : Fitted d d' roots out n taken saved)
    (h' : Fitted d' d'' roots' out' (n - (forest d.content roots).span) taken' saved')
    (hsupply : d.map.supply = taken ++ taken' ++ rest) :
    Fitted d d'' (roots ++ roots') (out ++ out') n (taken ++ taken') (saved' ++ saved) := by
  rw [List.append_assoc] at hsupply
  have hforest := forest_right hready h.toTouched hsupply
  have hnodup := FreeMap.nodup_supply hready.within
  rw [hsupply] at hnodup
  have hdisjoint : ∀ s ∈ taken', s ∉ taken := fun s hs' hs =>
    (List.nodup_append.1 hnodup).2.2 s hs s (List.mem_append_left _ hs') rfl
  have hsupplied : ∀ s, s ∈ taken ∨ s ∈ taken' → s ∈ d.map.supply := by
    intro s hs
    rw [hsupply, List.mem_append, List.mem_append]
    exact hs.imp_right Or.inl
  have hunused : ∀ s ∈ (forest d.content (roots ++ roots')).sectors, s ∉ taken ∧ s ∉ taken' :=
    fun s hs => ⟨fun ht => hready.notMem_supply hs (hsupplied s (Or.inl ht)),
      fun ht => hready.notMem_supply hs (hsupplied s (Or.inr ht))⟩
  simp only [forest_append, Forest.sectors_append, List.mem_append] at hunused
  have hsecond : ∀ s ∈ (forest d'.content roots').sectors, s ∉ (forest d.content roots).sectors :=
    fun s hs hs' => hready.disjoint hs' (hforest ▸ hs)
  -- The trees of the first walk stay as it left them.
  have hfirst : forest d''.content out = forest d'.content out := by
    apply forest_congr
    intro s hs
    rcases h.mem_sectors (Forest.mem_sectors.2 (Or.inl hs)) with hold | htaken
    · exact h'.content_of_notMem (fun hn => hsecond s (Forest.mem_sectors.2 (Or.inl hn)) hold)
        (hunused s (Or.inl hold)).2
    · refine h'.content_of_notMem (fun hn => ?_) fun ht => hdisjoint s ht htaken
      rw [hforest] at hn
      exact (hunused s (Or.inr (Forest.mem_sectors.2 (Or.inl hn)))).1 htaken
  refine { toTouched := ?_, refit := ?_, map := ?_, zeroed := ?_ }
  · rw [forest_append, ← hforest]
    apply h.toTouched.trans h'.toTouched
    intro s hs
    have hs' := Forest.mem_sectors.2 (Or.inl hs)
    refine ⟨fun hn => hsecond s hs' (Forest.mem_sectors.2 (Or.inl hn)), ?_⟩
    rw [hforest] at hs'
    exact (hunused s (Or.inr hs')).1
  · rw [forest_append, forest_append, hfirst, ← hforest]
    exact h.refit.append h'.refit
  · rw [forest_append, Forest.beyond_append, ← hforest]
    exact h.map_right h'
  · intro s hs hleaf
    rw [forest_append, Forest.leaves_append, hfirst] at hleaf
    rcases List.mem_append.1 hs with hs | hs <;> rcases List.mem_append.1 hleaf with hleaf | hleaf
    · rw [← h.zeroed s hs hleaf]
      refine h'.content_of_notMem (fun hn => ?_) fun ht => hdisjoint s ht hs
      rw [hforest] at hn
      exact (hunused s (Or.inr (Forest.mem_sectors.2 (Or.inl hn)))).1 hs
    · rcases h'.mem_sectors (Forest.mem_sectors.2 (Or.inr hleaf)) with hold | htaken
      · rw [hforest] at hold
        exact absurd hs (hunused s (Or.inr hold)).1
      · exact absurd hs (hdisjoint s htaken)
    · rcases h.mem_sectors (Forest.mem_sectors.2 (Or.inr hleaf)) with hold | htaken
      · exact absurd hs (hunused s (Or.inl hold)).2
      · exact absurd htaken (hdisjoint s hs)
    · exact h'.zeroed s hs hleaf

end Fitted

end SectorVolume
