import SectorVolume.Proofs.Volume.Holdings
import SectorVolume.Proofs.Resize.Exact

/-!
Making, resizing and reclaiming files. The medium holds the files afterwards as it should, and the
free sectors and the quota are those that the numbers of sectors say. What is refused is refused
because of these numbers alone.
-/

namespace SectorVolume

/-- The free sectors of a map as numbers. -/
def FreeMap.space (m : FreeMap) : Space := ⟨m.bitmap.freeCount, m.quota⟩

theorem FreeMap.length_supply (m : FreeMap) : m.supply.length = m.space.available := by
  rw [supply, Space.available, space]
  cases m.quota with
  | none => simp only [List.length_map, Bitmap.freeCount_eq_length]
  | some q => simp only [List.length_take, List.length_map, Bitmap.freeCount_eq_length]

namespace Medium

variable {d d' : Medium} {x : UInt32} {n m : Inode} {f : File} {files : UInt32 → Option File}
  {reserved length : Nat}

/-- Where nothing in use has changed the files are the same. -/
theorem Holds.congr (h : d.Holds reserved files) (hsize : d'.size = d.size)
    (hbitmap : d'.map.bitmap = d.map.bitmap)
    (hcontent : ∀ s : UInt32, d.map.bitmap.used? s.toNat = some true →
      d'.content s = d.content s) : d'.Holds reserved files := by
  have hwithin : d'.map.bitmap.Within d'.size := by
    rw [hbitmap, hsize]
    exact h.within
  have howned : ∀ x, (files x).isSome → ∀ s ∈ d.owned x, d'.content s = d.content s :=
    fun x hx s hs => hcontent s (h.used_owned hx hs)
  have hsame : ∀ x, (files x).isSome → d'.owned x = d.owned x := by
    intro x hx
    obtain ⟨f, hf⟩ := Option.isSome_iff_exists.1 hx
    obtain ⟨n, hn⟩ := h.stores x f hf
    exact hn.owned_congr (howned x hx)
  refine {
    reserved_pos := h.reserved_pos
    within := hwithin
    numbered := by rw [hbitmap]; exact h.numbered
    tail := by rw [hbitmap]; exact h.tail
    stores := ?_
    apart := ?_
    beyond_reserved := ?_
    used_iff := ?_
  }
  · intro x f hf
    obtain ⟨n, hn⟩ := h.stores x f hf
    have hx : (files x).isSome := by rw [hf]; rfl
    refine ⟨n, hn.congr hsize hwithin (howned x hx) fun s hs => ?_⟩
    rw [hbitmap]
    exact h.used_owned hx hs
  · intro x y hx hy hne
    rw [hsame x hx, hsame y hy]
    exact h.apart x y hx hy hne
  · intro x hx
    rw [hsame x hx, hbitmap]
    exact h.beyond_reserved x hx
  · intro s hs
    rw [hbitmap] at hs ⊢
    rw [h.used_iff s hs]
    refine or_congr Iff.rfl (exists_congr fun x => and_congr_right fun hx => ?_)
    rw [hsame x hx]

section Resize

variable {taken rest : List UInt32}

theorem Stores.lacking_eq (hn : d.Stores x n f) (hle : length ≤ maxLength) :
    (n.forest d.content).lacking (dataBlocks length) = totalBlocks length - f.blocks :=
  lacking_eq_sub hn.fits hn.length_le hle

theorem Stores.length_blocks (hn : d.Stores x n f) : (n.blocks d.content).length = f.blocks :=
  length_blocks_of_fits hn.fits hn.length_le

theorem owned_of_stored (h : d.content x = m.toSector) : d.owned x = x :: m.blocks d.content := by
  rw [owned, h, Inode.ofSector_toSector]

/-- A bit that is clear after a resize was clear before or belongs to a block that went. -/
theorem freed_of_resized (hn : n.Placed x d) (hsupply : d.map.supply = taken ++ rest)
    (h : Inode.Resized d d' n m x length taken) {i : Nat}
    (hi : d'.map.bitmap.used? i = some false) :
    d.map.bitmap.used? i = some false ∨ ∃ s ∈ n.blocks d.content, s.toNat = i := by
  have hbeyond : ∀ s ∈ (n.forest d.content).beyond (dataBlocks length), s ∈ n.blocks d.content :=
    fun s hs => Forest.beyond_subset hs
  rw [h.map, hn.ready.used?_exchanged hsupply hbeyond] at hi
  split at hi
  · rename_i hmem
    obtain ⟨s, hs, rfl⟩ := List.mem_map.1 hmem
    exact Or.inr ⟨s, hbeyond s hs, rfl⟩
  · split at hi
    · exact absurd hi (by decide)
    · exact Or.inl hi

theorem changed_of_resized (hn : d.Stores x n f) (hsupply : d.map.supply = taken ++ rest)
    (h : Inode.Resized d d' n m x length taken) : d.Changed d' (d.owned x) (d'.owned x) := by
  rw [hn.owned_eq, owned_of_stored h.stored]
  refine {
    size := h.size
    capacity := by rw [h.map, FreeMap.capacity_takeBackAll, FreeMap.capacity_grantAll]
    content := ?_
    used := ?_
    fresh := ?_
    freed := ?_
  }
  · intro s hs hnot
    rw [List.mem_cons, not_or] at hnot
    refine h.kept s hnot.1
      (fun hnode => hnot.2 (Forest.mem_sectors.2 (Or.inl hnode))) fun ht => ?_
    rw [hn.placed.ready.free_of_mem_taken hsupply ht] at hs
    exact absurd hs (by decide)
  · intro s
    rw [h.used_iff hn.placed hsupply, List.mem_cons, List.mem_cons, not_or]
    have hself := hn.placed.used_self
    have hnot := hn.placed.self_notMem
    constructor
    · rintro (⟨hused, hold⟩ | hnew)
      · by_cases hs : s = x
        · exact Or.inr (Or.inl hs)
        · exact Or.inl ⟨hused, hs, hold⟩
      · exact Or.inr (Or.inr hnew)
    · rintro (⟨hused, _, hold⟩ | rfl | hnew)
      · exact Or.inl ⟨hused, hold⟩
      · exact Or.inl ⟨hself, hnot⟩
      · exact Or.inr hnew
  · intro s hs
    rcases List.mem_cons.1 hs with rfl | hs
    · exact Or.inl List.mem_cons_self
    · rcases ((h.mem_blocks hn.placed hsupply).1 hs).1 with hold | hnew
      · exact Or.inl (List.mem_cons_of_mem _ hold)
      · exact Or.inr (hn.placed.ready.free_of_mem_taken hsupply hnew)
  · intro i hi
    rcases freed_of_resized hn.placed hsupply h hi with hfree | ⟨s, hs, hsi⟩
    · exact Or.inl hfree
    · exact Or.inr ⟨s, List.mem_cons_of_mem _ hs, hsi⟩

/-- Old bytes stay up to the sectors of the new length, and after them there are zero bytes. -/
theorem byte?_of_resized (hn : d.Stores x n f) (hsupply : d.map.supply = taken ++ rest)
    (h : Inode.Resized d d' n m x length taken) (hle : length ≤ maxLength) {i : Nat}
    (hi : i < dataBlocks length * sectorSize) :
    m.byte? d'.content i = some (f.bytes.getD i 0) := by
  have hblock : i / sectorSize < dataBlocks length := by
    rw [Nat.div_lt_iff_lt_mul (by decide)]
    exact hi
  have hmod : i % sectorSize < sectorSize := Nat.mod_lt _ (by decide)
  have hblocks := dataBlocks_le_maxBlocks_iff.2 hle
  have hspan := Inode.span_forest n d.content
  obtain ⟨s, hs, hcases⟩ := Inode.content_of_resized hn.placed hsupply h hblock hle
  have hold := Forest.isSome_block?_of_fits hn.fits (show i / sectorSize <
    (n.forest d.content).span by omega)
  rw [Inode.byte?, hs, Option.bind_some, Vector.getElem?_eq_getElem hmod, Option.some.injEq,
    Array.getD_eq_getD_getElem?]
  rcases hcases with ⟨hsome, hcontent⟩ | ⟨hnone, hzero⟩
  · have hin : i < f.bytes.size := by
      have hlt := hold.1 (by rw [hsome]; rfl)
      rw [hn.size_bytes]
      exact (Nat.div_lt_iff_lt_mul (by decide)).1 hlt
    rw [hn.bytes_eq i hin, Inode.byte?, hsome, Option.bind_some, Vector.getElem?_eq_getElem hmod,
      Option.getD_some]
    simp only [hcontent]
  · have hout : f.bytes.size ≤ i := by
      by_contra hin
      rw [hn.size_bytes, Nat.not_le] at hin
      have hsome := hold.2 ((Nat.div_lt_iff_lt_mul (by decide)).2 hin)
      rw [hnone] at hsome
      exact absurd hsome (by decide)
    rw [Array.getElem?_eq_none hout, Option.getD_none]
    simp only [hzero, Sector.zero, Vector.getElem_replicate]

theorem stores_of_resized (hn : d.Stores x n f) (hsupply : d.map.supply = taken ++ rest)
    (h : Inode.Resized d d' n m x length taken) (hle : length ≤ maxLength) :
    d'.Stores x m (f.resize length) := by
  have hplaced := h.placed hn.placed hsupply
  have hmagic : m.magic = n.magic := by rw [h.same_record]
  have hisDir : m.isDirWord = n.isDirWord := by rw [h.same_record]
  have hchildren : m.children = n.children := by rw [h.same_record]
  refine {
    hasInode := ⟨hplaced.exists_self, h.stored, ?_⟩
    placed := hplaced
    fits := h.refit.fits
    length_le := hle
    length_eq := ?_
    isDir_eq := ?_
    children_eq := ?_
    size_bytes := Array.size_ofFn
    bytes_eq := ?_
  }
  · rw [Inode.isValid, hmagic]
    exact hn.hasInode.valid
  · rw [h.same_record]
    apply UInt32.toNat_ofNat_of_lt'
    refine Nat.lt_of_le_of_lt hle ?_
    decide
  · rw [Inode.isDir, hisDir]
    exact hn.isDir_eq
  · rw [hchildren]
    exact hn.children_eq
  · intro i hi
    have hlt : i < dataBlocks length * sectorSize := by
      rwa [File.resize, Array.size_ofFn] at hi
    rw [byte?_of_resized hn hsupply h hle hlt]
    simp only [File.resize]
    rw [Array.getElem?_ofFn, dif_pos hlt]

theorem space_of_resized (hn : d.Stores x n f) (hsupply : d.map.supply = taken ++ rest)
    (h : Inode.Resized d d' n m x length taken) (hle : length ≤ maxLength)
    (htaken : taken.length = (n.forest d.content).lacking (dataBlocks length)) :
    d'.map.space = d.map.space.exchange f.blocks (totalBlocks length) := by
  have hold := hn.length_blocks
  have hnew := (stores_of_resized hn hsupply h hle).length_blocks
  have hperm := h.refit.sectors_perm.length_eq
  rw [List.length_append, List.length_append] at hperm
  rw [File.resize, File.blocks] at hnew
  rw [hn.lacking_eq hle] at htaken
  have hfree : ∀ s ∈ taken, d.map.bitmap.used? s.toNat = some false := fun s hs =>
    hn.placed.ready.free_of_mem_taken hsupply hs
  have hnodup := List.nodup_append.1 (hn.placed.nodup_append hsupply)
  have hgrant := FreeMap.freeCount_grantAll hnodup.2.1 hfree
  have hused : ∀ s ∈ (n.forest d.content).beyond (dataBlocks length),
      (d.map.grantAll taken).bitmap.used? s.toNat = some true := by
    intro s hs
    rw [FreeMap.used?_grantAll fun t ht => by rw [hfree t ht]; rfl,
      hn.placed.ready.used s (Forest.beyond_subset hs), ite_self]
  have hback := FreeMap.freeCount_takeBackAll
    (Forest.nodup_beyond hn.placed.ready.nodup (dataBlocks length)) hused
  have hcount :
      d'.map.bitmap.freeCount = d.map.bitmap.freeCount + f.blocks - totalBlocks length := by
    have hback' : d'.map.bitmap.freeCount = (d.map.grantAll taken).bitmap.freeCount +
        ((n.forest d.content).beyond (dataBlocks length)).length := by
      rw [h.map]
      exact hback
    have hold' : (n.forest d.content).sectors.length = f.blocks := hold
    have hnew' : (m.forest d'.content).sectors.length = totalBlocks length := hnew
    omega
  have hquota : d'.map.quota = d.map.quota.map (· - (totalBlocks length - f.blocks)) := by
    rw [h.map, FreeMap.quota_takeBackAll, FreeMap.quota_grantAll, htaken]
  rw [FreeMap.space, FreeMap.space, Space.exchange, hcount, hquota]

/-- A resize for which there are sectors enough takes the first of them. -/
theorem Holds.exists_resized (h : d.Holds reserved files) (hf : files x = some f)
    (hn : d.Stores x n f) (hle : length ≤ maxLength)
    (havailable : totalBlocks length - f.blocks ≤ d.map.space.available) :
    ∃ m d' taken rest, (n.resize x length).eval d = .ok (.ok m, d') ∧
      d'.Holds reserved (Function.update files x (some (f.resize length))) ∧
      d.map.supply = taken ++ rest ∧ taken.length = totalBlocks length - f.blocks ∧
      Inode.Resized d d' n m x length taken := by
  obtain ⟨taken, rest, hsupply, htaken⟩ : ∃ taken rest, d.map.supply = taken ++ rest ∧
      taken.length = totalBlocks length - f.blocks := by
    refine ⟨_, _, (List.take_append_drop _ _).symm, List.length_take_of_le ?_⟩
    rw [FreeMap.length_supply]
    exact havailable
  obtain ⟨m, d', heval, hresized⟩ := Inode.eval_resize_of_supply hn.placed hle hsupply
    (htaken.trans (hn.lacking_eq hle).symm)
  have hchanged := changed_of_resized hn hsupply hresized
  refine ⟨m, d', taken, rest, heval, h.update ?_ fun _ g hg => ?_, hsupply, htaken, hresized⟩
  · rw [share, share, if_pos (by rw [hf]; rfl), if_pos (by rw [Function.update_self]; rfl)]
    exact hchanged
  · obtain rfl := Option.some.inj hg
    exact ⟨m, stores_of_resized hn hsupply hresized hle⟩

theorem Holds.resize_of_available (h : d.Holds reserved files) (hf : files x = some f)
    (hn : d.Stores x n f) (hle : length ≤ maxLength)
    (havailable : totalBlocks length - f.blocks ≤ d.map.space.available) :
    ∃ m d', (n.resize x length).eval d = .ok (.ok m, d') ∧
      d'.Holds reserved (Function.update files x (some (f.resize length))) ∧
      d'.Stores x m (f.resize length) ∧
      d'.map.space = d.map.space.exchange f.blocks (totalBlocks length) := by
  obtain ⟨m, d', taken, rest, heval, hholds, hsupply, htaken, hresized⟩ :=
    h.exists_resized hf hn hle havailable
  exact ⟨m, d', heval, hholds, stores_of_resized hn hsupply hresized hle,
    space_of_resized hn hsupply hresized hle (htaken.trans (hn.lacking_eq hle).symm)⟩

/-- A resize for which there are not sectors enough. -/
theorem Holds.resize_of_few (h : d.Holds reserved files) (hn : d.Stores x n f)
    (hle : length ≤ maxLength) (hfew : d.map.space.available < totalBlocks length - f.blocks) :
    ∃ d', (n.resize x length).eval d = .ok (.error .noSpace, d') ∧ d'.Holds reserved files ∧
      d'.map.space = d.map.space.exhaust := by
  rw [← FreeMap.length_supply, ← hn.lacking_eq hle] at hfew
  obtain ⟨d', heval, hundone⟩ := Inode.eval_resize_of_lacking hn.placed hle hfew
  have hbitmap := hundone.bitmap h.within
  refine ⟨d', heval, h.congr hundone.size hbitmap fun s hs => hundone.kept s ?_, ?_⟩
  · exact FreeMap.notMem_supply h.within hs
  · have hquota : d'.map.quota = d.map.quota.map (· - (d.map.space.available + 1)) := by
      rw [hundone.map, FreeMap.quota_takeBackAll, FreeMap.refuse]
      simp only [FreeMap.quota_grantAll, Option.map_map, FreeMap.length_supply]
      rfl
    rw [FreeMap.space, hbitmap, hquota]
    rfl

end Resize

end Medium

end SectorVolume
