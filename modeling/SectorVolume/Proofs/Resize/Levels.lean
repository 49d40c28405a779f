import SectorVolume.Proofs.Index.File
import SectorVolume.Proofs.Resize.Fit

/-!
Pointers of every level are fitted: a row of pointers one after the other, an index block by
fitting the row below it. An index block that is missing is taken before what is below it; one
below which nothing is needed goes after it. So the three parts of a file's index are fitted as
one row.
-/

namespace SectorVolume

namespace Walk

section IndexBlocks

variable {d d' : Medium} {level : Nat} {block : UInt32} {n : Nat} {taken : List UInt32}
  {saved : List (UInt32 × IndexBlock)} {entries entries' : IndexBlock}

/-- The row below an index block can be fitted. -/
theorem ready_below (hblock : block ≠ 0) (hready : Ready d [(level + 1, block)]) :
    Ready d (row level (IndexBlock.ofSector (d.content block))) := by
  obtain ⟨hwithin, hnodup, hexists, hused⟩ := hready
  rw [sectors_index_root hblock] at hnodup hexists hused
  exact ⟨hwithin, (List.nodup_cons.1 hnodup).2,
    fun s hs => hexists s (List.mem_cons_of_mem _ hs),
    fun s hs => hused s (List.mem_cons_of_mem _ hs)⟩

/-- The journal covers an index block and what is below it. -/
theorem touched_index (hblock : block ≠ 0)
    (hentries : IndexBlock.ofSector (d.content block) = entries)
    (h : Touched d d' (forest d.content (row level entries)) taken saved) :
    Touched d d' (forest d.content [(level + 1, block)]) taken (saved ++ [(block, entries)]) where
  size := h.size
  mem_nodes e he := by
    rw [nodes_index_root hblock, hentries]
    rcases List.mem_append.1 he with he | he
    · exact List.mem_cons_of_mem _ (h.mem_nodes e he)
    · rw [List.mem_singleton.1 he]
      exact List.mem_cons_self
  saved_eq e he := by
    rcases List.mem_append.1 he with he | he
    · exact h.saved_eq e he
    · rw [List.mem_singleton.1 he, ← hentries, IndexBlock.toSector_ofSector]
  kept s hs hsaved := by
    rw [List.map_append, List.mem_append, not_or] at hsaved
    exact h.kept s hs hsaved.1

/-- An index block that is there and stays gets the fitted row below it. -/
theorem fitted_keepIndex (hblock : block ≠ 0) (hready : Ready d [(level + 1, block)]) (hn : n ≠ 0)
    {rest : List UInt32} (hsupply : d.map.supply = taken ++ rest)
    (hentries : IndexBlock.ofSector (d.content block) = entries)
    (h : Fitted d d' (row level entries) (row level entries') n taken saved) :
    Fitted d (d'.put block entries'.toSector) [(level + 1, block)] [(level + 1, block)] n taken
      (saved ++ [(block, entries)]) := by
  have hself : block ∈ (forest d.content [(level + 1, block)]).sectors :=
    self_mem_index_root hblock
  have hnottaken : block ∉ taken := hready.notMem_taken hsupply hself
  have hnodup := hready.nodup
  rw [sectors_index_root hblock, hentries, List.nodup_cons] at hnodup
  have hnot : block ∉ (forest d'.content (row level entries')).sectors := fun hmem =>
    (h.mem_sectors hmem).elim hnodup.1 hnottaken
  have htree := tree_put_index (m := d') hblock
    fun hmem => hnot (Forest.mem_sectors.2 (Or.inl hmem))
  have htouched := touched_index hblock hentries h.toTouched
  refine {
    size := htouched.size
    mem_nodes := htouched.mem_nodes
    saved_eq := htouched.saved_eq
    kept := ?_
    refit := ?_
    map := ?_
    zeroed := ?_
  }
  · intro s hs hsaved
    have hne : s ≠ block := by
      rintro rfl
      simp at hsaved
    rw [Medium.content_put_of_ne hne]
    exact htouched.kept s hs hsaved
  · simp only [forest_cons, forest_nil, htree, tree_succ_of_ne d.content level hblock, hentries]
    have hrefit := h.refit
    rw [← ofBelow_tree, ← ofBelow_tree] at hrefit
    simpa using Forest.Refit.keepIndex hn hrefit .nil
  · rw [Medium.map_put, h.map, beyond_index_root hblock, hentries, if_neg hn, List.append_nil]
  · intro s hs hleaf
    simp only [forest_cons, forest_nil, htree, Forest.leaves_cons, Forest.leaves_nil,
      Tree.leaves_index, ofBelow_tree, List.append_nil] at hleaf
    have hne : s ≠ block := by
      rintro rfl
      exact hnottaken hs
    rw [Medium.content_put_of_ne hne]
    exact h.zeroed s hs hleaf

/-- An index block with nothing below it that is needed goes with the row below it. -/
theorem fitted_dropIndex (hblock : block ≠ 0) (hready : Ready d [(level + 1, block)])
    (hentries : IndexBlock.ofSector (d.content block) = entries)
    (h : Fitted d d' (row level entries) (row level entries') 0 taken saved) :
    d'.map.bitmap.used? block.toNat = some true ∧
      Fitted d { d' with map := d'.map.takeBack block } [(level + 1, block)] [(level + 1, 0)] 0
        taken (saved ++ [(block, entries)]) := by
  have hready' := ready_below hblock hready
  rw [hentries] at hready'
  obtain rfl : taken = [] := by
    rw [← List.length_eq_zero_iff, h.refit.length_taken, Forest.lacking_zero]
  have hmap := h.map
  rw [FreeMap.grantAll_nil] at hmap
  have htouched := touched_index hblock hentries h.toTouched
  refine ⟨?_, ?_⟩
  · have hnodup := hready.nodup
    rw [sectors_index_root hblock, hentries, List.nodup_cons] at hnodup
    have hsome : ∀ s ∈ (forest d.content (row level entries)).beyond 0,
        (d.map.bitmap.used? s.toNat).isSome := by
      intro s hs
      rw [hready'.used s (Forest.beyond_subset hs)]
      rfl
    have hother : block.toNat ∉ ((forest d.content (row level entries)).beyond 0).map
        UInt32.toNat := by
      intro hmem
      obtain ⟨t, ht, heq⟩ := List.mem_map.1 hmem
      rw [UInt32.toNat_inj] at heq
      exact hnodup.1 (heq ▸ Forest.beyond_subset ht)
    rw [hmap, FreeMap.used?_takeBackAll hsome, if_neg hother]
    exact hready.used block (self_mem_index_root hblock)
  · refine {
      size := htouched.size
      mem_nodes := htouched.mem_nodes
      saved_eq := htouched.saved_eq
      kept := htouched.kept
      refit := ?_
      map := ?_
      zeroed := by simp
    }
    · simp only [forest_cons, forest_nil, tree_null]
      exact .drop .nil
    · rw [beyond_index_root hblock, hentries, if_pos rfl, FreeMap.takeBackAll_append, hmap]
      rfl

/-- An index block that was missing is taken first and gets a row that was fitted below
nothing. -/
theorem fitted_makeIndex {s : UInt32} (hs : s ≠ 0) (hn : n ≠ 0) (hnottaken : s ∉ taken)
    (h : Fitted { d with map := d.map.grant s } d' (row level IndexBlock.null)
      (row level entries) n taken saved) :
    Fitted d (d'.put s entries.toSector) [(level + 1, 0)] [(level + 1, s)] n (s :: taken)
      saved := by
  have hnull : forest d.content (row level IndexBlock.null) = Forest.holes level :=
    forest_row_null d.content level
  obtain rfl : saved = [] := by
    apply List.eq_nil_iff_forall_not_mem.2
    intro e he
    have hmem := Forest.mem_sectors.2 (Or.inl (h.mem_nodes e he))
    rw [hnull, Forest.sectors_holes] at hmem
    exact absurd hmem (by simp)
  have hnot : s ∉ (forest d'.content (row level entries)).sectors := by
    intro hmem
    rcases h.mem_sectors hmem with hold | htaken
    · rw [hnull, Forest.sectors_holes] at hold
      exact absurd hold (by simp)
    · exact hnottaken htaken
  have htree := tree_put_index (m := d') hs
    fun hmem => hnot (Forest.mem_sectors.2 (Or.inl hmem))
  refine {
    size := h.size
    mem_nodes := by simp
    saved_eq := by simp
    kept := ?_
    refit := ?_
    map := ?_
    zeroed := ?_
  }
  · intro t ht hsaved
    rw [List.mem_cons, not_or] at ht
    rw [Medium.content_put_of_ne ht.1]
    exact h.kept t ht.2 hsaved
  · simp only [forest_cons, forest_nil, htree, tree_null]
    have hrefit := h.refit
    rw [hnull, ← ofBelow_tree] at hrefit
    simpa using Forest.Refit.makeIndex hn hrefit .nil
  · have hmap := h.map
    rw [hnull, Forest.beyond_holes] at hmap
    simp [hmap, Tree.beyond]
  · intro t ht hleaf
    simp only [forest_cons, forest_nil, htree, Forest.leaves_cons, Forest.leaves_nil,
      Tree.leaves_index, ofBelow_tree, List.append_nil] at hleaf
    have hne : t ≠ s := by
      rintro rfl
      exact hnot (Forest.mem_sectors.2 (Or.inr hleaf))
    rw [Medium.content_put_of_ne hne]
    exact h.zeroed t ((List.mem_cons.1 ht).resolve_left hne) hleaf

theorem yields_openIndex (hblock : block ≠ 0) (hexists : block.toNat < d.size)
    (hentries : IndexBlock.ofSector (d.content block) = entries) (j : Journal) :
    (openIndex block).Yields j d (.ok (block, entries))
      { j with overwritten := (block, entries) :: j.overwritten } d := by
  rw [openIndex, if_neg hblock, ← hentries]
  exact (yields_lift (Script.eval_fetchSector hexists) j).bind ((yields_modify _ _ _).bind_pure _)

theorem yields_closeIndex (hn : n ≠ 0) (hexists : block.toNat < d.size) (j : Journal) :
    (closeIndex block entries n).Yields j d (.ok block) j (d.put block entries.toSector) := by
  rw [closeIndex, if_neg hn]
  exact (yields_lift (Script.eval_putSector hexists _) j).bind_pure _

theorem yields_closeIndex_zero (hused : d.map.bitmap.used? block.toNat = some true)
    (j : Journal) :
    (closeIndex block entries 0).Yields j d (.ok 0) j { d with map := d.map.takeBack block } := by
  rw [closeIndex, if_pos rfl]
  exact (yields_lift (Script.eval_releaseSector hused) j).bind_pure _

end IndexBlocks

/-! Rows of pointers, and all levels. -/

theorem fitEach_congr {f : UInt32 → Nat → Walk UInt32} {width n n' m : Nat} (v : Vector UInt32 m)
    (h : ∀ k < m, min (n - k * width) width = min (n' - k * width) width) :
    fitEach f width n m v = fitEach f width n' m v := by
  induction m with
  | zero => rfl
  | succ m ih =>
    rw [fitEach, fitEach, ih _ fun k hk => h k (by omega), h m (by omega)]

/-- No more data blocks are made below a block than it has places for. -/
theorem fit_min (level : Nat) (block : UInt32) (n : Nat) :
    fit level block (min n (span level)) = fit level block n := by
  have hpos := span_pos level
  have hzero : min n (span level) = 0 ↔ n = 0 := by omega
  cases level with
  | zero => simp only [fit, ne_eq, hzero]
  | succ level =>
    have hrow : ∀ v : IndexBlock,
        fitEach (fun entry k => fit level entry k) (span level) (min n (span (level + 1))) 128 v =
          fitEach (fun entry k => fit level entry k) (span level) n 128 v := by
      intro v
      apply fitEach_congr
      intro k hk
      have hle : k * span level + span level ≤ span (level + 1) := by
        have := Nat.mul_le_mul_right (span level) (show k + 1 ≤ 128 by omega)
        rwa [Nat.add_mul, Nat.one_mul] at this
      omega
    have hclose : ∀ (b : UInt32) (v : IndexBlock),
        closeIndex b v (min n (span (level + 1))) = closeIndex b v n := by
      intro b v
      simp only [closeIndex, hzero]
    simp only [fit, hzero, hrow, hclose]

theorem refits_fitEach {level : Nat}
    (hfit : ∀ block n, Refits (fit level block n) [(level, block)] n fun b => [(level, b)])
    {m : Nat} (v : Vector UInt32 m) (n : Nat) :
    Refits (fitEach (fun entry k => fit level entry k) (span level) n m v) (row level v) n
      (row level) := by
  induction m with
  | zero =>
    obtain rfl : v = #v[] := Vector.eq_empty
    exact refits_pure rfl n
  | succ m ih =>
    rw [fitEach, fit_min, row_pop_back]
    exact (ih v.pop).bind (hfit v.back (n - m * span level)) (fun c => span_forest_row c level _)
      fun front last => row_push level last front

section Levels

variable {d : Medium} {level : Nat} {n : Nat} {s : UInt32} {rest : List UInt32}
  (hrow : ∀ (v : IndexBlock) n, Refits
    (fitEach (fun entry k => fit level entry k) (span level) n 128 v) (row level v) n (row level))

/-- Below an index block that has just been taken the row of holes can be fitted. -/
theorem ready_grant {roots : Roots} (hready : Ready d roots)
    (hsupply : d.map.supply = s :: rest) :
    Ready { d with map := d.map.grant s } (row level IndexBlock.null) := by
  have hfree := FreeMap.mem_supply hready.within (s := s) (by simp [hsupply])
  have hholes : (forest d.content (row level IndexBlock.null)).sectors = [] := by
    rw [IndexBlock.null, forest_row_null]
    exact Forest.sectors_holes level
  refine ⟨FreeMap.within_grant hready.within (by rw [hfree]; rfl), ?_, ?_, ?_⟩
  · rw [hholes]
    exact List.nodup_nil
  · rw [hholes]
    simp
  · rw [hholes]
    simp

include hrow

theorem fitted_of_missing (hn : n ≠ 0) (j : Journal) (hready : Ready d [(level + 1, 0)])
    {taken : List UInt32} (hsupply : d.map.supply = taken ++ rest)
    (hlength : taken.length = (forest d.content [(level + 1, 0)]).lacking n) :
    ∃ a saved d', (fit (level + 1) 0 n).Yields j d (.ok a)
        ⟨taken.reverse ++ j.allocated, saved ++ j.overwritten⟩ d' ∧
      Fitted d d' [(level + 1, 0)] [(level + 1, a)] n taken saved := by
  simp only [forest_cons, forest_nil, tree_null, Forest.lacking_cons, Forest.lacking_nil,
    Tree.lacking_hole_succ, if_neg hn, Nat.add_zero] at hlength
  obtain ⟨s, below, rfl⟩ := List.exists_cons_of_length_pos (l := taken) (by omega)
  rw [List.cons_append] at hsupply
  have hfree := FreeMap.mem_supply hready.within (s := s) (by simp [hsupply])
  obtain ⟨hpos, hexists, _⟩ := hready.within _ hfree
  have hs : s ≠ 0 := by
    rintro rfl
    exact absurd hpos (by decide)
  have hnodup := FreeMap.nodup_supply hready.within
  rw [hsupply, List.nodup_cons, List.mem_append, not_or] at hnodup
  have hbelow : below.length =
      (forest d.content (row level IndexBlock.null)).lacking n := by
    rw [IndexBlock.null, forest_row_null]
    rw [List.length_cons, Nat.add_comm] at hlength
    exact Nat.add_left_cancel hlength
  obtain ⟨entries, saved, d', hyields, hfitted⟩ := (hrow IndexBlock.null n).fitted
    { d with map := d.map.grant s } { j with allocated := s :: j.allocated }
    (ready_grant hready hsupply) below rest (FreeMap.supply_grant hsupply hready.within) hbelow
  refine ⟨s, saved, d'.put s (IndexBlock.toSector entries), ?_,
    fitted_makeIndex hs hn hnodup.1.1 hfitted⟩
  have hopen : (openIndex 0).Yields j d (.ok (s, IndexBlock.null))
      { j with allocated := s :: j.allocated } { d with map := d.map.grant s } := by
    rw [openIndex, if_pos rfl]
    exact (yields_take_of_cons hready.within hsupply j).bind_pure _
  rw [fit, if_neg (fun h => hn h.1), List.reverse_cons, List.append_assoc, List.singleton_append]
  refine hopen.bind (hyields.bind ?_)
  exact yields_closeIndex hn (by rw [hfitted.size]; exact hexists) _

theorem fitted_of_present {block : UInt32} (hblock : block ≠ 0) (j : Journal)
    (hready : Ready d [(level + 1, block)]) {taken : List UInt32}
    (hsupply : d.map.supply = taken ++ rest)
    (hlength : taken.length = (forest d.content [(level + 1, block)]).lacking n) :
    ∃ a saved d', (fit (level + 1) block n).Yields j d (.ok a)
        ⟨taken.reverse ++ j.allocated, saved ++ j.overwritten⟩ d' ∧
      Fitted d d' [(level + 1, block)] [(level + 1, a)] n taken saved := by
  obtain ⟨entries, hentries⟩ :
      ∃ v : IndexBlock, IndexBlock.ofSector (d.content block) = v := ⟨_, rfl⟩
  have hexists := hready.exists_sector block (self_mem_index_root hblock)
  have hbelow := ready_below hblock hready
  rw [lacking_index_root hblock, hentries] at hlength
  rw [hentries] at hbelow
  obtain ⟨entries', saved, d', hyields, hfitted⟩ := (hrow entries n).fitted d
    { j with overwritten := (block, entries) :: j.overwritten } hbelow taken rest hsupply hlength
  have hopen := yields_openIndex hblock hexists hentries j
  by_cases hn : n = 0
  · subst hn
    obtain ⟨hused, hfitted'⟩ := fitted_dropIndex hblock hready hentries hfitted
    refine ⟨0, _, _, ?_, hfitted'⟩
    rw [fit, if_neg (fun h => hblock h.2), List.append_assoc, List.singleton_append]
    exact hopen.bind (hyields.bind (yields_closeIndex_zero hused _))
  · refine ⟨block, _, _, ?_, fitted_keepIndex hblock hready hn hsupply hentries hfitted⟩
    rw [fit, if_neg (fun h => hblock h.2), List.append_assoc, List.singleton_append]
    refine hopen.bind (hyields.bind ?_)
    exact yields_closeIndex hn (by rw [hfitted.size]; exact hexists) _

theorem refused_of_missing (j : Journal) (hready : Ready d [(level + 1, 0)])
    (hlength : d.map.supply.length < (forest d.content [(level + 1, 0)]).lacking n) :
    ∃ saved d', (fit (level + 1) 0 n).Yields j d (.error .noSpace)
        ⟨d.map.supply.reverse ++ j.allocated, saved ++ j.overwritten⟩ d' ∧
      Touched d d' (forest d.content [(level + 1, 0)]) d.map.supply saved ∧
      d'.map = (d.map.grantAll d.map.supply).refuse := by
  have hn : n ≠ 0 := by
    rintro rfl
    rw [Forest.lacking_zero] at hlength
    omega
  simp only [forest_cons, forest_nil, tree_null, Forest.lacking_cons, Forest.lacking_nil,
    Tree.lacking_hole_succ, if_neg hn, Nat.add_zero] at hlength
  rw [fit, if_neg (fun h => hn h.1)]
  cases hsupply : d.map.supply with
  | nil =>
    refine ⟨[], { d with map := d.map.refuse }, ?_, ⟨rfl, by simp, by simp, fun _ _ _ => rfl⟩,
      rfl⟩
    have hopen : (openIndex 0).Yields j d (.error .noSpace) j { d with map := d.map.refuse } := by
      rw [openIndex, if_pos rfl]
      exact (yields_take_of_nil hsupply j).bind_error _
    exact hopen.bind_error _
  | cons s rest =>
    have hsupply' := FreeMap.supply_grant hsupply hready.within
    rw [hsupply, List.length_cons, Nat.add_comm] at hlength
    obtain ⟨saved, d', hyields, htouched, hmap⟩ := (hrow IndexBlock.null n).refused
      { d with map := d.map.grant s } { j with allocated := s :: j.allocated }
      (ready_grant hready hsupply) (by
        rw [hsupply', IndexBlock.null, forest_row_null]
        exact Nat.lt_of_add_lt_add_left hlength)
    rw [hsupply'] at hyields htouched hmap
    have hopen : (openIndex 0).Yields j d (.ok (s, IndexBlock.null))
        { j with allocated := s :: j.allocated } { d with map := d.map.grant s } := by
      rw [openIndex, if_pos rfl]
      exact (yields_take_of_cons hready.within hsupply j).bind_pure _
    refine ⟨saved, d', ?_, ?_, hmap⟩
    · rw [List.reverse_cons, List.append_assoc, List.singleton_append]
      exact hopen.bind (hyields.bind_error _)
    · refine ⟨htouched.size, fun e he => ?_, htouched.saved_eq, fun t ht hsaved => ?_⟩
      · have hmem := Forest.mem_sectors.2 (Or.inl (htouched.mem_nodes e he))
        rw [IndexBlock.null, forest_row_null] at hmem
        exact absurd ((Forest.sectors_holes level).symm ▸ hmem) (by simp)
      · exact htouched.kept t (fun hmem => ht (List.mem_cons_of_mem _ hmem)) hsaved

theorem refused_of_present {block : UInt32} (hblock : block ≠ 0) (j : Journal)
    (hready : Ready d [(level + 1, block)])
    (hlength : d.map.supply.length < (forest d.content [(level + 1, block)]).lacking n) :
    ∃ saved d', (fit (level + 1) block n).Yields j d (.error .noSpace)
        ⟨d.map.supply.reverse ++ j.allocated, saved ++ j.overwritten⟩ d' ∧
      Touched d d' (forest d.content [(level + 1, block)]) d.map.supply saved ∧
      d'.map = (d.map.grantAll d.map.supply).refuse := by
  obtain ⟨entries, hentries⟩ :
      ∃ v : IndexBlock, IndexBlock.ofSector (d.content block) = v := ⟨_, rfl⟩
  have hexists := hready.exists_sector block (self_mem_index_root hblock)
  have hbelow := ready_below hblock hready
  rw [lacking_index_root hblock, hentries] at hlength
  rw [hentries] at hbelow
  obtain ⟨saved, d', hyields, htouched, hmap⟩ := (hrow entries n).refused d
    { j with overwritten := (block, entries) :: j.overwritten } hbelow hlength
  refine ⟨saved ++ [(block, entries)], d', ?_, touched_index hblock hentries htouched, hmap⟩
  rw [fit, if_neg (fun h => hblock h.2), List.append_assoc, List.singleton_append]
  exact (yields_openIndex hblock hexists hentries j).bind (hyields.bind_error _)

theorem refits_fit_succ (block : UInt32) (n : Nat) :
    Refits (fit (level + 1) block n) [(level + 1, block)] n fun b => [(level + 1, b)] where
  fitted d j hready taken rest hsupply hlength := by
    by_cases hblock : block = 0
    · subst hblock
      by_cases hn : n = 0
      · subst hn
        obtain rfl : taken = [] := by
          rw [← List.length_eq_zero_iff, hlength, Forest.lacking_zero]
        refine ⟨0, [], d, ?_, ?_⟩
        · rw [fit, if_pos ⟨rfl, rfl⟩]
          exact yields_pure 0 j d
        · refine { toTouched := Touched.refl d _, refit := ?_, map := ?_, zeroed := by simp }
          · simp only [forest_cons, forest_nil, tree_null]
            exact .drop .nil
          · simp [Tree.beyond]
      · exact fitted_of_missing hrow hn j hready hsupply hlength
    · exact fitted_of_present hrow hblock j hready hsupply hlength
  refused d j hready hlength := by
    by_cases hblock : block = 0
    · subst hblock
      exact refused_of_missing hrow j hready hlength
    · exact refused_of_present hrow hblock j hready hlength

end Levels

/-- A pointer of any level is fitted. -/
theorem refits_fit (level : Nat) (block : UInt32) (n : Nat) :
    Refits (fit level block n) [(level, block)] n fun b => [(level, b)] := by
  induction level generalizing block n with
  | zero => exact refits_fit_zero block n
  | succ level ih => exact refits_fit_succ (fun v n => refits_fitEach ih v n) block n

end Walk

namespace Inode

theorem remap_eq (n : Inode) (blocks : Nat) : n.remap blocks =
    Walk.fitEach (fun entry k => Walk.fit 0 entry k) (span 0) blocks 12 n.direct >>= fun direct =>
      (Walk.fit 1 n.single (blocks - directReach) >>= fun single =>
        Walk.fit 2 n.double (blocks - directReach - span 1) >>= fun double =>
          pure (single, double)) >>= fun below =>
        pure { n with direct, single := below.1, double := below.2 } := by
  simp only [remap, bind_assoc, pure_bind, span_zero, span_one, Nat.sub_sub, directReach,
    singleReach]

/-- The three parts of the index are fitted as one row. -/
theorem refits_remap (n : Inode) (blocks : Nat) :
    Walk.Refits (n.remap blocks) n.roots blocks Inode.roots := by
  have hbelow : Walk.Refits (Walk.fit 1 n.single (blocks - directReach) >>= fun single =>
      Walk.fit 2 n.double (blocks - directReach - span 1) >>= fun double =>
        pure (single, double)) [(1, n.single), (2, n.double)] (blocks - directReach)
      fun below => [(1, below.1), (2, below.2)] :=
    (Walk.refits_fit 1 n.single _).bind (Walk.refits_fit 2 n.double _) (fun _ => rfl)
      fun _ _ => rfl
  rw [remap_eq]
  exact (Walk.refits_fitEach (Walk.refits_fit 0) n.direct blocks).bind hbelow
    (fun c => span_forest_row c 0 n.direct) fun _ _ => rfl

end Inode

end SectorVolume
