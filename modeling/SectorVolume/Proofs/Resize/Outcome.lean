import SectorVolume.Proofs.Resize.Levels

/-!
What a resize does as a whole. Where the supply has the sectors that the file lacks, its trees are
fitted to the new length and the inode is stored; otherwise the journal puts back every index
block that was overwritten and returns every sector that was taken, and only sectors that were
free have other bytes than before.
-/

namespace SectorVolume

namespace Script

/-- Writing sectors back one after the other, each as a function `c` has it. -/
theorem eval_forM_put {c : UInt32 → Sector} {saved : List (UInt32 × IndexBlock)} {m : Medium}
    (hexists : ∀ e ∈ saved, e.1.toNat < m.size) (hsaved : ∀ e ∈ saved, e.2.toSector = c e.1) :
    ∃ m', (saved.forM fun e => putSector e.1 e.2.toSector).eval m = .ok ((), m') ∧
      m'.size = m.size ∧ m'.map = m.map ∧
      (∀ s ∈ saved.map Prod.fst, m'.content s = c s) ∧
      ∀ s, s ∉ saved.map Prod.fst → m'.content s = m.content s := by
  induction saved generalizing m with
  | nil => exact ⟨m, rfl, rfl, rfl, by simp, fun _ _ => rfl⟩
  | cons e saved ih =>
    have he := hexists e List.mem_cons_self
    have hce := hsaved e List.mem_cons_self
    obtain ⟨m', heval, hsize, hmap, hput, hkept⟩ := ih (m := m.put e.1 e.2.toSector)
      (fun e' he' => hexists e' (List.mem_cons_of_mem _ he'))
      fun e' he' => hsaved e' (List.mem_cons_of_mem _ he')
    refine ⟨m', ?_, hsize, hmap, ?_, ?_⟩
    · exact (eval_bind_of_ok (eval_putSector he _)).trans heval
    · intro s hs
      by_cases hmem : s ∈ saved.map Prod.fst
      · exact hput s hmem
      · obtain rfl : s = e.1 := (List.mem_cons.1 hs).resolve_right hmem
        rw [hkept _ hmem, Medium.content_put_self, hce]
    · intro s hs
      rw [List.map_cons, List.mem_cons, not_or] at hs
      rw [hkept s hs.2, Medium.content_put_of_ne hs.1]

/-- Returning different sectors that are in use. -/
theorem eval_forM_release {xs : List UInt32} {m : Medium} (hnodup : xs.Nodup)
    (hused : ∀ s ∈ xs, m.map.bitmap.used? s.toNat = some true) :
    (xs.forM releaseSector).eval m = .ok ((), { m with map := m.map.takeBackAll xs }) := by
  induction xs generalizing m with
  | nil => rfl
  | cons s xs ih =>
    obtain ⟨hnot, hnodup⟩ := List.nodup_cons.1 hnodup
    have hs := hused s List.mem_cons_self
    have hrest : ∀ t ∈ xs, (m.map.takeBack s).bitmap.used? t.toNat = some true := by
      intro t ht
      rw [FreeMap.used?_takeBack (by rw [hs]; rfl), if_neg fun he : t = s => hnot (he ▸ ht)]
      exact hused t (List.mem_cons_of_mem _ ht)
    have htail := ih (m := { m with map := m.map.takeBack s }) hnodup hrest
    exact (eval_bind_of_ok (eval_releaseSector hs)).trans htail

end Script

/-- A walk that was refused left this journal and this medium behind; undoing it brings everything
back but the bytes of sectors that were free. -/
theorem Journal.eval_undo {d d' : Medium} {roots : Roots} {saved : List (UInt32 × IndexBlock)}
    (hready : Ready d roots) (htouched : Touched d d' (forest d.content roots) d.map.supply saved)
    (hmap : d'.map = (d.map.grantAll d.map.supply).refuse) :
    ∃ d'', (Journal.mk d.map.supply.reverse saved).undo.eval d' = .ok ((), d'') ∧
      d''.size = d.size ∧ d''.map = d'.map.takeBackAll d.map.supply.reverse ∧
      ∀ s, s ∉ d.map.supply → d''.content s = d.content s := by
  have hexists : ∀ e ∈ saved, e.1.toNat < d'.size := by
    intro e he
    rw [htouched.size]
    exact hready.exists_sector _ (Forest.mem_sectors.2 (Or.inl (htouched.mem_nodes e he)))
  obtain ⟨m, heval, hsize, hm, hput, hkept⟩ :=
    Script.eval_forM_put (c := d.content) hexists htouched.saved_eq
  have hnodup : d.map.supply.reverse.Nodup :=
    List.nodup_reverse.2 (FreeMap.nodup_supply hready.within)
  have hsome : ∀ s ∈ d.map.supply, (d.map.bitmap.used? s.toNat).isSome := by
    intro s hs
    rw [FreeMap.mem_supply hready.within hs]
    rfl
  have hused : ∀ s ∈ d.map.supply.reverse, m.map.bitmap.used? s.toNat = some true := by
    intro s hs
    rw [hm, hmap]
    change (d.map.grantAll d.map.supply).bitmap.used? s.toNat = some true
    rw [FreeMap.used?_grantAll hsome, if_pos (List.mem_map_of_mem (List.mem_reverse.1 hs))]
  have hrelease := Script.eval_forM_release hnodup hused
  refine ⟨{ m with map := m.map.takeBackAll d.map.supply.reverse }, ?_,
    hsize.trans htouched.size, by rw [hm], ?_⟩
  · rw [Journal.undo, Script.eval_bind_of_ok heval]
    exact hrelease
  · intro s hs
    by_cases hmem : s ∈ saved.map Prod.fst
    · exact hput s hmem
    · exact (hkept s hmem).trans (htouched.kept s hs hmem)

namespace Inode

/-- An inode whose blocks are different existing sectors in use, and its own sector is one
more. -/
structure Placed (n : Inode) (sector : UInt32) (d : Medium) : Prop where
  ready : Ready d n.roots
  exists_self : sector.toNat < d.size
  used_self : d.map.bitmap.used? sector.toNat = some true
  self_notMem : sector ∉ n.blocks d.content

/-- The second medium has the file resized: its trees are fitted to the length, and the new inode
is stored in its sector. -/
structure Resized (d d' : Medium) (n n' : Inode) (sector : UInt32) (length : Nat)
    (taken : List UInt32) : Prop where
  size : d'.size = d.size
  map : d'.map = (d.map.grantAll taken).takeBackAll
    ((n.forest d.content).beyond (dataBlocks length))
  refit : (n.forest d.content).Refit (dataBlocks length) (n'.forest d'.content) taken
  stored : d'.content sector = n'.toSector
  kept : ∀ s, s ≠ sector → s ∉ (n.forest d.content).nodes → s ∉ taken →
    d'.content s = d.content s
  zeroed : ∀ s ∈ taken, s ∈ (n'.forest d'.content).leaves → d'.content s = Sector.zero
  same_record : n' = { n with
    length := UInt32.ofNat length, direct := n'.direct, single := n'.single, double := n'.double }

/-- The second medium has every sector that was not free as the first, and the same sectors free.
As many sectors were returned as had been handed out. -/
structure Undone (d d' : Medium) : Prop where
  size : d'.size = d.size
  map : d'.map = ((d.map.grantAll d.map.supply).refuse).takeBackAll d.map.supply.reverse
  kept : ∀ s, s ∉ d.map.supply → d'.content s = d.content s

variable {n : Inode} {sector : UInt32} {d : Medium} {length : Nat}

theorem Undone.bitmap {d' : Medium} (h : Undone d d') (hwithin : d.map.bitmap.Within d.size) :
    d'.map.bitmap = d.map.bitmap := by
  have hfree : ∀ s ∈ d.map.supply, d.map.bitmap.used? s.toNat = some false := fun s hs =>
    FreeMap.mem_supply hwithin hs
  have hback := FreeMap.bitmap_takeBackAll_grantAll hfree (List.reverse_perm d.map.supply)
  have hrefuse : (d.map.grantAll d.map.supply).refuse.bitmap =
      (d.map.grantAll d.map.supply).bitmap := rfl
  rw [h.map, FreeMap.bitmap_takeBackAll_congr hrefuse, hback]

theorem exists_fields_of_yields {blocks : Nat} {n n' : Inode} {j j' : Journal} {d d' : Medium}
    (h : (n.remap blocks).Yields j d (.ok n') j' d') :
    n' = { n with direct := n'.direct, single := n'.single, double := n'.double } := by
  rw [remap_eq, ← Walk.bind_pure_pair] at h
  obtain ⟨a, rfl⟩ := h.exists_of_bind_pure
  rfl

theorem eval_resize_of_tooLarge (h : maxLength < length) :
    (n.resize sector length).eval d = .ok (.error .tooLarge, d) := by
  rw [resize, if_pos h, Script.eval_pure]

theorem Placed.exists_node (hplaced : n.Placed sector d) :
    ∀ s ∈ (n.forest d.content).nodes, s.toNat < d.size := fun s hs =>
  hplaced.ready.exists_sector s (Forest.mem_sectors.2 (Or.inl hs))

/-- An inode of the same trees is placed as well. -/
theorem Placed.of_forest_eq {m : Inode} {d' : Medium} (hplaced : n.Placed sector d)
    (hforest : m.forest d'.content = n.forest d.content) (hsize : d'.size = d.size)
    (hwithin : d'.map.bitmap.Within d'.size)
    (hused : ∀ s ∈ sector :: n.blocks d.content, d'.map.bitmap.used? s.toNat = some true) :
    m.Placed sector d' := by
  have hforest' :
      SectorVolume.forest d'.content m.roots = SectorVolume.forest d.content n.roots :=
    hforest
  have hblocks : m.blocks d'.content = n.blocks d.content := congrArg Forest.sectors hforest
  refine {
    ready := ⟨hwithin, ?_, ?_, ?_⟩
    exists_self := by rw [hsize]; exact hplaced.exists_self
    used_self := hused sector List.mem_cons_self
    self_notMem := by rw [hblocks]; exact hplaced.self_notMem
  }
  · rw [hforest']
    exact hplaced.ready.nodup
  · rw [hforest', hsize]
    exact hplaced.ready.exists_sector
  · intro s hs
    rw [hforest'] at hs
    exact hused s (List.mem_cons_of_mem _ hs)

theorem Placed.self_notMem_taken (hplaced : n.Placed sector d) {taken rest : List UInt32}
    (hsupply : d.map.supply = taken ++ rest) : sector ∉ taken := by
  intro hmem
  apply FreeMap.notMem_supply hplaced.ready.within hplaced.used_self
  rw [hsupply]
  exact List.mem_append_left _ hmem

/-- With sectors enough the file is resized. -/
theorem eval_resize_of_supply (hplaced : n.Placed sector d) (hlength : length ≤ maxLength)
    {taken rest : List UInt32} (hsupply : d.map.supply = taken ++ rest)
    (htaken : taken.length = (n.forest d.content).lacking (dataBlocks length)) :
    ∃ n' d', (n.resize sector length).eval d = .ok (.ok n', d') ∧
      Resized d d' n n' sector length taken := by
  obtain ⟨a, saved, d', hyields, hfitted⟩ :=
    (refits_remap n (dataBlocks length)).fitted d {} hplaced.ready taken rest hsupply htaken
  have hself : sector ∉ (a.forest d'.content).sectors := by
    intro hmem
    rcases hfitted.mem_sectors hmem with hold | hnew
    · exact hplaced.self_notMem hold
    · exact hplaced.self_notMem_taken hsupply hnew
  have hforest : ∀ data : Sector,
      SectorVolume.forest (d'.put sector data).content a.roots = a.forest d'.content := by
    intro data
    apply forest_congr
    intro s hs
    apply Medium.content_put_of_ne
    rintro rfl
    exact hself (Forest.mem_sectors.2 (Or.inl hs))
  have hexists : sector.toNat < d'.size := by
    rw [hfitted.size]
    exact hplaced.exists_self
  refine ⟨{ a with length := UInt32.ofNat length },
    d'.put sector (toSector { a with length := UInt32.ofNat length }), ?_, ?_⟩
  · rw [resize, if_neg (Nat.not_lt.2 hlength)]
    refine (Script.eval_bind_of_ok hyields).trans ?_
    exact (Script.eval_bind_of_ok (Script.eval_putSector hexists _)).trans rfl
  · refine {
      size := hfitted.size
      map := hfitted.map
      refit := ?_
      stored := Medium.content_put_self ..
      kept := ?_
      zeroed := ?_
      same_record := ?_
    }
    · have hrefit := hfitted.refit
      rw [show SectorVolume.forest d'.content a.roots = a.forest d'.content from rfl,
        ← hforest (toSector { a with length := UInt32.ofNat length })] at hrefit
      exact hrefit
    · intro s hs hnode hmem
      rw [Medium.content_put_of_ne hs]
      exact hfitted.content_of_notMem hnode hmem
    · intro s hs hleaf
      have hleaf' : s ∈ (a.forest d'.content).leaves := by
        rw [← hforest (toSector { a with length := UInt32.ofNat length })]
        exact hleaf
      have hne : s ≠ sector := by
        rintro rfl
        exact hplaced.self_notMem_taken hsupply hs
      rw [Medium.content_put_of_ne hne]
      exact hfitted.zeroed s hs hleaf'
    · have hfields := exists_fields_of_yields hyields
      rw [hfields]

/-- Without sectors enough nothing has changed that was in use. -/
theorem eval_resize_of_lacking (hplaced : n.Placed sector d) (hlength : length ≤ maxLength)
    (hlacking : d.map.supply.length < (n.forest d.content).lacking (dataBlocks length)) :
    ∃ d', (n.resize sector length).eval d = .ok (.error .noSpace, d') ∧ Undone d d' := by
  obtain ⟨saved, d', hyields, htouched, hmap⟩ :=
    (refits_remap n (dataBlocks length)).refused d {} hplaced.ready hlacking
  rw [List.append_nil, List.append_nil] at hyields
  obtain ⟨d'', hundo, hsize, hmap', hkept⟩ := Journal.eval_undo hplaced.ready htouched hmap
  refine ⟨d'', ?_, hsize, by rw [hmap', hmap], hkept⟩
  rw [resize, if_neg (Nat.not_lt.2 hlength)]
  refine (Script.eval_bind_of_ok hyields).trans ?_
  exact (Script.eval_bind_of_ok hundo).trans rfl

end Inode

end SectorVolume
