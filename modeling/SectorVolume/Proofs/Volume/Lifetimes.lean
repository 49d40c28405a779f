import SectorVolume.Proofs.Volume.Sizes

/-!
A file comes to be in a sector that was taken for it, and is empty at first; it goes with all its
blocks and that sector.
-/

namespace SectorVolume

namespace Inode

theorem fits_blank (isDir : Bool) (c : UInt32 → Sector) : ((blank isDir).forest c).Fits 0 := by
  rw [forest_blank, Forest.fits_append]
  refine ⟨fun share hshare => ?_, ?_⟩
  · rw [Forest.shares_ofFn] at hshare
    obtain ⟨k, rfl⟩ := List.mem_ofFn.1 hshare
    exact Nat.zero_sub _
  · rw [Nat.zero_sub]
    exact (Forest.fits_cons _ _ _).2
      ⟨rfl, (Forest.fits_cons _ _ _).2 ⟨Nat.zero_sub _, Forest.fits_nil _⟩⟩

/-- An empty file can be put into any sector in use. -/
theorem placed_blank {d : Medium} {sector : UInt32} (isDir : Bool)
    (hwithin : d.map.bitmap.Within d.size) (hexists : sector.toNat < d.size)
    (hused : d.map.bitmap.used? sector.toNat = some true) :
    (blank isDir).Placed sector (d.put sector (blank isDir).toSector) := by
  have hforest : ∀ c, (SectorVolume.forest c (blank isDir).roots).sectors = [] :=
    fun c => blocks_blank c isDir
  refine ⟨⟨hwithin, ?_, ?_, ?_⟩, hexists, hused, ?_⟩
  · rw [hforest]
    exact List.nodup_nil
  · rw [hforest]
    simp
  · rw [hforest]
    simp
  · rw [blocks_blank]
    simp

end Inode

namespace Medium

variable {d d' : Medium} {x : UInt32} {n m : Inode} {f : File} {files : UInt32 → Option File}
  {reserved : Nat}

theorem stores_blank {isDir : Bool} (hplaced : (Inode.blank isDir).Placed x d)
    (hstored : d.content x = (Inode.blank isDir).toSector) :
    d.Stores x (Inode.blank isDir) (File.empty isDir) := by
  have hzero : dataBlocks (File.empty isDir).length = 0 := show dataBlocks 0 = 0 by decide
  exact {
    hasInode := ⟨hplaced.exists_self, hstored, rfl⟩
    placed := hplaced
    fits := by rw [hzero]; exact Inode.fits_blank isDir _
    length_le := Nat.zero_le _
    length_eq := rfl
    isDir_eq := by cases isDir <;> rfl
    children_eq := rfl
    size_bytes := by rw [hzero, Nat.zero_mul]; rfl
    bytes_eq := fun i hi => absurd hi (Nat.not_lt_zero i)
  }

section Make

variable {data : Sector} (hfree : d.map.bitmap.used? x.toNat = some false)
  (hd' : d' = ({ d with map := d.map.grant x } : Medium).put x data)

include hfree hd'

/-- A sector that is handed out and written is new, and no other has changed. -/
theorem changed_of_made : d.Changed d' [] [x] := by
  have hassign : ∀ i, d'.map.bitmap.used? i =
      if i = x.toNat then some true else d.map.bitmap.used? i := fun i => by
    rw [hd']
    exact Bitmap.used?_assign _ _ _ _ (by rw [hfree]; rfl)
  refine {
    size := by rw [hd']; rfl
    capacity := by rw [hd']; rfl
    content := ?_
    used := ?_
    fresh := ?_
    freed := ?_
  }
  · intro s hs _
    rw [hd']
    apply Medium.content_put_of_ne
    rintro rfl
    rw [hfree] at hs
    exact absurd hs (by decide)
  · intro s
    simp only [hassign, UInt32.toNat_inj]
    by_cases hs : s = x <;> simp [hs]
  · intro s hs
    rw [List.mem_singleton.1 hs]
    exact Or.inr hfree
  · intro i hi
    rw [hassign] at hi
    split at hi
    · exact absurd hi (by decide)
    · exact Or.inl hi

theorem space_of_made : d'.map.space = d.map.space.exchange 0 1 := by
  have hcount := Bitmap.freeCount_assign_true hfree
  have hquota : d'.map.quota = d.map.quota.map (· - 1) := by rw [hd']; rfl
  have hbitmap : d'.map.bitmap.freeCount = d.map.bitmap.freeCount + 0 - 1 := by
    have hassign : d'.map.bitmap = d.map.bitmap.assign x.toNat true := by rw [hd']; rfl
    rw [hassign]
    omega
  rw [FreeMap.space, FreeMap.space, Space.exchange, hquota, hbitmap]

end Make

/-- An empty file in a sector that has just been handed out. -/
theorem Holds.make (h : d.Holds reserved files) {rest : List UInt32}
    (hsupply : d.map.supply = x :: rest) (isDir : Bool)
    (hd' : d' = ({ d with map := d.map.grant x } : Medium).put x (Inode.blank isDir).toSector) :
    x.toNat < d.size ∧ d'.Holds reserved (Function.update files x (some (File.empty isDir))) ∧
      d'.Stores x (Inode.blank isDir) (File.empty isDir) ∧
      d'.map.space = d.map.space.exchange 0 1 := by
  have hfree := FreeMap.mem_supply h.within (s := x) (by simp [hsupply])
  have hsome : (d.map.bitmap.used? x.toNat).isSome := by rw [hfree]; rfl
  obtain ⟨_, hexists, _⟩ := h.within _ hfree
  have hnone := h.none_of_free hfree
  have hstored : d'.content x = (Inode.blank isDir).toSector := by
    rw [hd']
    exact Medium.content_put_self ..
  have hplaced : (Inode.blank isDir).Placed x d' := by
    rw [hd']
    refine Inode.placed_blank isDir (FreeMap.within_grant h.within hsome) hexists ?_
    rw [FreeMap.used?_grant hsome, if_pos rfl]
  have hstores := stores_blank hplaced hstored
  refine ⟨hexists, h.update ?_ fun _ g hg => ?_, hstores, space_of_made hfree hd'⟩
  · rw [share, share, if_neg (by rw [hnone]; decide), if_pos (by rw [Function.update_self]; rfl),
      hstores.owned_eq, Inode.blocks_blank]
    exact changed_of_made hfree hd'
  · obtain rfl := Option.some.inj hg
    exact ⟨_, hstores⟩

/-- A map that has no sector to hand out. -/
theorem space_refuse (h : d.map.supply = []) : d.map.refuse.space = d.map.space.exhaust := by
  have hzero : d.map.space.available = 0 := by
    rw [← FreeMap.length_supply, h]
    rfl
  rw [Space.exhaust, hzero]
  rfl

section Reclaim

/-- Giving back all blocks of a file, and then the sector of its inode. -/
theorem Stores.eval_reclaim (hn : d.Stores x n f) :
    ∃ d' returned, (Handle.reclaim x).eval d = .ok ((), d') ∧ returned.Perm (d.owned x) ∧
      d'.size = d.size ∧ d'.map = d.map.takeBackAll returned ∧
      ∀ s, s ∉ d.owned x → d'.content s = d.content s := by
  obtain ⟨a, saved, d', hyields, hfitted⟩ :=
    (Inode.refits_remap n 0).fitted d {} hn.placed.ready []
    d.map.supply rfl (Forest.lacking_zero _).symm
  have hperm : ((n.forest d.content).beyond 0).Perm (n.blocks d.content) := Forest.beyond_zero _
  have hmap : d'.map = d.map.takeBackAll ((n.forest d.content).beyond 0) := hfitted.map
  have hused : d'.map.bitmap.used? x.toNat = some true := by
    have hnot : x.toNat ∉ ((n.forest d.content).beyond 0).map UInt32.toNat := by
      intro hmem
      obtain ⟨s, hs, heq⟩ := List.mem_map.1 hmem
      rw [UInt32.toNat_inj] at heq
      exact hn.placed.self_notMem (heq ▸ hperm.mem_iff.1 hs)
    rw [hmap, FreeMap.used?_takeBackAll fun s hs => by
      rw [hn.placed.ready.used s (hperm.mem_iff.1 hs)]
      rfl, if_neg hnot]
    exact hn.placed.used_self
  have hclear : n.clear.eval d = .ok ({ a with length := 0 }, d') :=
    (Script.eval_bind_of_ok hyields).trans rfl
  refine ⟨{ d' with map := d'.map.takeBack x }, (n.forest d.content).beyond 0 ++ [x], ?_, ?_,
    hfitted.size, ?_, ?_⟩
  · rw [Handle.reclaim, Script.eval_bind_of_ok hn.hasInode.eval_readInode,
      Script.eval_bind_of_ok hclear]
    exact Script.eval_releaseSector hused
  · rw [hn.owned_eq]
    exact List.perm_append_comm.trans (hperm.cons x)
  · rw [hmap, FreeMap.takeBackAll_append]
    rfl
  · intro s hs
    rw [hn.owned_eq, List.mem_cons, not_or] at hs
    exact hfitted.content_of_notMem (fun hnode => hs.2 (Forest.mem_sectors.2 (Or.inl hnode)))
      (by simp)

section Returned

variable {returned : List UInt32} (hn : d.Stores x n f) (hperm : returned.Perm (d.owned x))
  (hmap : d'.map = d.map.takeBackAll returned)

include hn hperm hmap

theorem changed_of_returned (hsize : d'.size = d.size)
    (hkept : ∀ s, s ∉ d.owned x → d'.content s = d.content s) : d.Changed d' (d.owned x) [] := by
  have hmem : ∀ s : UInt32, s.toNat ∈ returned.map UInt32.toNat ↔ s ∈ d.owned x := by
    intro s
    rw [← hperm.mem_iff]
    simp [UInt32.toNat_inj]
  have hused : ∀ i, d'.map.bitmap.used? i =
      if i ∈ returned.map UInt32.toNat then some false else d.map.bitmap.used? i := fun i => by
    rw [hmap, FreeMap.used?_takeBackAll fun s hs => by
      rw [hn.used_owned (hperm.mem_iff.1 hs)]
      rfl]
  refine {
    size := hsize
    capacity := by rw [hmap, FreeMap.capacity_takeBackAll]
    content := fun s _ hs => hkept s hs
    used := ?_
    fresh := by simp
    freed := ?_
  }
  · intro s
    simp only [hused, hmem]
    by_cases hs : s ∈ d.owned x <;> simp [hs]
  · intro i hi
    rw [hused] at hi
    split at hi
    · rename_i hreturned
      obtain ⟨s, hs, rfl⟩ := List.mem_map.1 hreturned
      exact Or.inr ⟨s, hperm.mem_iff.1 hs, rfl⟩
    · exact Or.inl hi

theorem space_of_returned : d'.map.space = d.map.space.exchange (f.blocks + 1) 0 := by
  have hnodup : returned.Nodup := by
    rw [hperm.nodup_iff, hn.owned_eq]
    exact List.nodup_cons.2 ⟨hn.placed.self_notMem, hn.placed.ready.nodup⟩
  have hcount :=
    FreeMap.freeCount_takeBackAll hnodup fun s hs => hn.used_owned (hperm.mem_iff.1 hs)
  have hlength : returned.length = f.blocks + 1 := by
    rw [hperm.length_eq, hn.owned_eq, List.length_cons, hn.length_blocks]
  have hbitmap : d'.map.bitmap.freeCount = d.map.bitmap.freeCount + (f.blocks + 1) - 0 := by
    rw [hmap, hcount, hlength]
    rfl
  have hquota : d'.map.quota = d.map.quota.map (· - (0 - (f.blocks + 1))) := by
    rw [hmap, FreeMap.quota_takeBackAll, Nat.zero_sub]
    cases d.map.quota <;> rfl
  rw [FreeMap.space, FreeMap.space, Space.exchange, hquota, hbitmap]

end Returned

theorem Holds.reclaim (h : d.Holds reserved files) (hf : files x = some f) (hn : d.Stores x n f) :
    ∃ d', (Handle.reclaim x).eval d = .ok ((), d') ∧
      d'.Holds reserved (Function.update files x none) ∧
      d'.map.space = d.map.space.exchange (f.blocks + 1) 0 := by
  obtain ⟨d', returned, heval, hperm, hsize, hmap, hkept⟩ := hn.eval_reclaim
  refine ⟨d', heval, h.update ?_ fun _ g hg => absurd hg (by simp),
    space_of_returned hn hperm hmap⟩
  rw [share, share, if_pos (by rw [hf]; rfl), if_neg (by rw [Function.update_self]; decide)]
  exact changed_of_returned hn hperm hmap hsize hkept

end Reclaim

end Medium

end SectorVolume
