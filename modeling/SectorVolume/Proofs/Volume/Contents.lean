import SectorVolume.Proofs.Volume.Sizes

/-!
Changes to a file that leave its sectors where they are: writing bytes inside its length, counting
its children, marking it as removed.
-/

namespace SectorVolume

/-- The bytes of a file that data is laid over. -/
theorem File.getElem?_overlay (f : File) (offset : Nat) (data : Array UInt8) {i : Nat}
    (hi : i < f.bytes.size) : (f.overlay offset data).bytes[i]? =
      if offset ≤ i ∧ i < offset + data.size then data[i - offset]? else f.bytes[i]? := by
  simp only [File.overlay]
  rw [Array.getElem?_ofFn, dif_pos hi]
  dsimp only
  by_cases hlow : offset ≤ i
  · by_cases hhigh : i < offset + data.size
    · rw [if_pos hlow, if_pos ⟨hlow, hhigh⟩, Array.getD_eq_getD_getElem?,
        Array.getElem?_eq_getElem (by omega), Option.getD_some]
    · rw [if_pos hlow, if_neg fun hboth => hhigh hboth.2, Array.getD_eq_getD_getElem?,
        Array.getElem?_eq_none (by omega), Option.getD_none, Array.getElem?_eq_getElem hi]
      rfl
  · rw [if_neg hlow, if_neg fun hboth => hlow hboth.1, Array.getElem?_eq_getElem hi]
    rfl

namespace Medium

variable {d d' : Medium} {x : UInt32} {n m : Inode} {f f' : File} {files : UInt32 → Option File}
  {reserved : Nat}

/-- A change within the sectors of one file. -/
theorem Holds.change_within (h : d.Holds reserved files) (hf : files x = some f)
    (hn : d.Stores x n f) (hsize : d'.size = d.size) (hmap : d'.map = d.map)
    (hcontent : ∀ s, s ∉ d.owned x → d'.content s = d.content s) (howned : d'.owned x = d.owned x)
    (hm : d'.Stores x m f') : d'.Holds reserved (Function.update files x (some f')) := by
  have hchanged : d.Changed d' (d.owned x) (d'.owned x) := {
    size := hsize
    capacity := by rw [hmap]
    content := fun s _ hs => hcontent s hs
    used := by
      intro s
      rw [hmap, howned]
      by_cases hs : s ∈ d.owned x
      · simp [hs, hn.used_owned hs]
      · simp [hs]
    fresh := by
      intro s hs
      rw [howned] at hs
      exact Or.inl hs
    freed := by
      intro i hi
      rw [hmap] at hi
      exact Or.inl hi
  }
  refine h.update ?_ fun _ g hg => ?_
  · rw [share, share, if_pos (by rw [hf]; rfl), if_pos (by rw [Function.update_self]; rfl)]
    exact hchanged
  · obtain rfl := Option.some.inj hg
    exact ⟨m, hm⟩

/-- The mark of removal is not on the medium. -/
theorem Holds.mark (h : d.Holds reserved files) (hf : files x = some f) (removed : Bool) :
    d.Holds reserved (Function.update files x (some { f with removed })) := by
  obtain ⟨n, hn⟩ := h.stores x f hf
  have hm : d.Stores x n { f with removed } := ⟨hn.hasInode, hn.placed, hn.fits, hn.length_le,
    hn.length_eq, hn.isDir_eq, hn.children_eq, hn.size_bytes, hn.bytes_eq⟩
  exact h.change_within hf hn rfl rfl (fun _ _ => rfl) rfl hm

/-- A new number of children is written into the inode. -/
theorem Holds.setChildren (h : d.Holds reserved files) (hf : files x = some f)
    (hn : d.Stores x n f) (children : UInt32) :
    (d.put x { n with children }.toSector).Holds reserved
      (Function.update files x (some { f with children := children.toNat })) := by
  have hkept : ∀ s ∈ n.blocks d.content,
      (d.put x { n with children }.toSector).content s = d.content s := by
    intro s hs
    apply Medium.content_put_of_ne
    rintro rfl
    exact hn.placed.self_notMem hs
  have hforest : { n with children }.forest (d.put x { n with children }.toSector).content =
      n.forest d.content := by
    apply forest_congr
    exact fun s hs => hkept s (Forest.mem_sectors.2 (Or.inl hs))
  have hblocks : { n with children }.blocks (d.put x { n with children }.toSector).content =
      n.blocks d.content := congrArg Forest.sectors hforest
  have hstored : (d.put x { n with children }.toSector).content x =
      { n with children }.toSector := Medium.content_put_self ..
  have hm : (d.put x { n with children }.toSector).Stores x { n with children }
      { f with children := children.toNat } := {
    hasInode := ⟨hn.hasInode.exists_sector, hstored, hn.hasInode.valid⟩
    placed := by
      refine hn.placed.of_forest_eq hforest rfl hn.placed.ready.within ?_
      rw [← hn.owned_eq]
      exact fun s hs => hn.used_owned hs
    fits := by
      rw [hforest]
      exact hn.fits
    length_le := hn.length_le
    length_eq := hn.length_eq
    isDir_eq := hn.isDir_eq
    children_eq := rfl
    size_bytes := hn.size_bytes
    bytes_eq := by
      intro i hi
      rw [hn.bytes_eq i hi]
      exact (Inode.byte?_congr hforest hkept i).symm
  }
  refine h.change_within hf hn rfl rfl (fun s hs => Medium.content_put_of_ne ?_) ?_ hm
  · rintro rfl
    exact hs (by rw [owned]; exact List.mem_cons_self)
  · rw [owned_of_stored hstored, hn.owned_eq, hblocks]

/-- Bytes inside the length are written, into sectors of the file. -/
theorem Holds.write (h : d.Holds reserved files) (hf : files x = some f) (hn : d.Stores x n f)
    {offset : Nat} {data : Array UInt8} (hin : offset + data.size ≤ f.length) :
    ∃ d', (n.writeAt offset data).eval d = .ok (data.size, d') ∧
      d'.Holds reserved (Function.update files x (some (f.overlay offset data))) ∧
      d'.size = d.size ∧ d'.map = d.map ∧ ∀ s, s ∉ d.owned x → d'.content s = d.content s := by
  have hwhole := hn.whole
  obtain ⟨d', heval, hsame, hbytes⟩ := Inode.eval_writeAt hwhole
    (show offset + data.size ≤ n.length.toNat by rw [hn.length_eq]; exact hin)
  have hforest := hsame.forest_eq hwhole.sparse
  have hblocks : n.blocks d'.content = n.blocks d.content := congrArg Forest.sectors hforest
  have hkept : ∀ s, s ∉ n.blocks d.content → d'.content s = d.content s := fun s hs =>
    hsame.kept s fun hleaf => hs (Forest.mem_sectors.2 (Or.inr hleaf))
  have hself := hkept x hn.placed.self_notMem
  have hstored : d'.content x = n.toSector := hself.trans hn.hasInode.stored
  have hm : d'.Stores x n (f.overlay offset data) := {
    hasInode := ⟨by rw [hsame.size]; exact hn.hasInode.exists_sector, hstored, hn.hasInode.valid⟩
    placed := by
      refine hn.placed.of_forest_eq hforest hsame.size ?_ ?_
      · rw [hsame.map, hsame.size]
        exact hn.placed.ready.within
      · rw [← hn.owned_eq, hsame.map]
        exact fun s hs => hn.used_owned hs
    fits := by
      rw [hforest]
      exact hn.fits
    length_le := hn.length_le
    length_eq := hn.length_eq
    isDir_eq := hn.isDir_eq
    children_eq := hn.children_eq
    size_bytes := by
      rw [File.overlay, Array.size_ofFn]
      exact hn.size_bytes
    bytes_eq := by
      intro i hi
      rw [File.overlay, Array.size_ofFn] at hi
      rw [File.getElem?_overlay f offset data hi, hbytes i, hn.bytes_eq i hi]
  }
  have hout : ∀ s, s ∉ d.owned x → d'.content s = d.content s := by
    intro s hs
    rw [hn.owned_eq, List.mem_cons, not_or] at hs
    exact hkept s hs.2
  refine ⟨d', heval, h.change_within hf hn hsame.size hsame.map hout ?_ hm, hsame.size, hsame.map,
    hout⟩
  rw [owned_of_stored hstored, hn.owned_eq, hblocks]

/-- What a file gives to a reader is what its sectors hold, whatever is in use otherwise. -/
theorem Stores.eval_readAt_of_map (hn : d.Stores x n f) (map : FreeMap) (offset len : Nat) :
    (n.readAt offset len).eval { d with map } = .ok (f.read offset len, { d with map }) := by
  have hle := hn.length_le_size
  have hwhole : n.Whole { d with map } :=
    ⟨hn.whole.length_le, hn.whole.fits, hn.whole.exists_sector, hn.whole.nodup⟩
  have hread := Inode.eval_readAt hwhole (fun i hi => hn.bytes_eq i (by
    rw [hn.length_eq] at hi
    omega)) offset len
  rw [hread, File.read, hn.length_eq]

theorem Stores.eval_readAt (hn : d.Stores x n f) (offset len : Nat) :
    (n.readAt offset len).eval d = .ok (f.read offset len, d) :=
  hn.eval_readAt_of_map d.map offset len

end Medium

end SectorVolume
