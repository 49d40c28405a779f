import SectorVolume.Proofs.Transfer.Reading

/-!
Writing lays the bytes over those that the blocks of a file have, piece by piece, up to the first
hole. Only data blocks of the file change, and in them only the positions of the range, so the
trees of the file stay, and so does every other sector.
-/

namespace SectorVolume

namespace Inode

variable {n : Inode} {d d' : Medium}

/-- Two media that differ in data blocks of a file only. -/
structure SameTrees (n : Inode) (d d' : Medium) : Prop where
  size : d'.size = d.size
  map : d'.map = d.map
  kept : ∀ s, s ∉ (n.forest d.content).leaves → d'.content s = d.content s

namespace SameTrees

theorem refl (n : Inode) (d : Medium) : n.SameTrees d d := ⟨rfl, rfl, fun _ _ => rfl⟩

theorem content_node (h : n.SameTrees d d') (hn : n.Sparse d) {s : UInt32}
    (hs : s ∈ (n.forest d.content).nodes) : d'.content s = d.content s := by
  have hperm := (n.forest d.content).sectors_perm.nodup_iff.1 hn.nodup
  exact h.kept s fun hleaf => (List.nodup_append.1 hperm).2.2 s hs s hleaf rfl

theorem forest_eq (h : n.SameTrees d d') (hn : n.Sparse d) :
    n.forest d'.content = n.forest d.content :=
  forest_congr fun _ hs => h.content_node hn hs

theorem sparse (h : n.SameTrees d d') (hn : n.Sparse d) : n.Sparse d' := by
  have hblocks : n.blocks d'.content = n.blocks d.content :=
    congrArg Forest.sectors (h.forest_eq hn)
  refine ⟨hn.length_le, ?_, ?_⟩
  · rw [hblocks, h.size]
    exact hn.exists_sector
  · rw [hblocks]
    exact hn.nodup

theorem trans {d'' : Medium} (h : n.SameTrees d d') (h' : n.SameTrees d' d'') (hn : n.Sparse d) :
    n.SameTrees d d'' := by
  refine ⟨h'.size.trans h.size, h'.map.trans h.map, fun s hs => ?_⟩
  rw [h'.kept s (by rwa [h.forest_eq hn]), h.kept s hs]

theorem put {b : Nat} {s : UInt32} (hs : (n.forest d.content).block? b = some s) (data : Sector) :
    n.SameTrees d (d.put s data) := by
  refine ⟨rfl, rfl, fun t ht => Medium.content_put_of_ne ?_⟩
  rintro rfl
  exact ht (Forest.mem_leaves_of_block? hs)

theorem firstHole (h : n.SameTrees d d') (hn : n.Sparse d) {start hole : Nat}
    (hhole : n.FirstHole d.content start hole) : n.FirstHole d'.content start hole := by
  have hforest := h.forest_eq hn
  refine ⟨hhole.le, ?_, ?_⟩
  · rw [hforest]
    exact hhole.missing
  · rw [hforest]
    exact hhole.there

end SameTrees

/-- Two media that differ in a range of positions of a file only. -/
structure SameOutside (n : Inode) (d d' : Medium) (start stop : Nat) : Prop where
  trees : n.SameTrees d d'
  kept : ∀ (s : UInt32) (k : Nat), (∀ pos, start ≤ pos → pos < stop →
      (n.forest d.content).block? (pos / sectorSize) = some s → pos % sectorSize ≠ k) →
    (d'.content s)[k]? = (d.content s)[k]?

namespace SameOutside

variable {start mid stop : Nat}

theorem refl (n : Inode) (d : Medium) (start stop : Nat) : n.SameOutside d d start stop :=
  ⟨SameTrees.refl n d, fun _ _ _ => rfl⟩

theorem trans {d'' : Medium} (h : n.SameOutside d d' start mid)
    (h' : n.SameOutside d' d'' mid stop)
    (hn : n.Sparse d) (hmid : start ≤ mid) (hstop : mid ≤ stop) :
    n.SameOutside d d'' start stop := by
  refine ⟨h.trees.trans h'.trees hn, fun s k hout => ?_⟩
  rw [h'.kept s k, h.kept s k]
  · intro pos hpos hlt
    exact hout pos hpos (by omega)
  · rw [h.trees.forest_eq hn]
    intro pos hpos hlt
    exact hout pos (by omega) hlt

/-- The file has the same bytes at all other positions. -/
theorem byte?_eq (h : n.SameOutside d d' start stop) (hn : n.Sparse d) {i : Nat}
    (hi : ¬(start ≤ i ∧ i < stop)) : n.byte? d'.content i = n.byte? d.content i := by
  unfold byte?
  rw [h.trees.forest_eq hn]
  cases hs : (n.forest d.content).block? (i / sectorSize) with
  | none => rfl
  | some s =>
    rw [Option.bind_some, Option.bind_some]
    refine h.kept s _ fun pos hpos hlt hblock hmod => hi ?_
    have hdiv := Forest.block?_inj hn.nodup_leaves hblock hs
    have hsame : pos = i := by
      simp only [sectorSize] at *
      omega
    rw [← hsame]
    exact ⟨hpos, hlt⟩

end SameOutside

/-- A piece of a file is laid over its sector, whether the sector is replaced or changed. -/
theorem eval_writePiece {sector : UInt32} {offset : Nat} {data : Array UInt8}
    (hexists : sector.toNat < d.size) (hwhole : data.size = sectorSize → offset = 0) :
    (writePiece sector offset data).eval d =
      .ok ((), d.put sector ((d.content sector).overlay offset data)) := by
  rw [writePiece]
  by_cases hsize : data.size = sectorSize
  · have hvector : Sector.ofArray? data = some ⟨data, hsize⟩ := dif_pos hsize
    rw [hvector, hwhole hsize]
    refine (Script.eval_putSector hexists _).trans ?_
    rw [← Sector.overlay_whole (d.content sector) ⟨data, hsize⟩]
  · have hnone : Sector.ofArray? data = none := dif_neg hsize
    rw [hnone]
    exact Script.eval_updateSector_of_ok hexists rfl

/-- One piece is laid over the block that it lies in. -/
theorem sameOutside_of_piece {m : Medium} {s : UInt32} {offset start mid : Nat}
    {data : Array UInt8} (hn : n.Sparse d) (hoffset : offset ≤ start)
    (hdata : mid ≤ offset + data.size) (hlt : start < mid)
    (hmid : mid ≤ (start / sectorSize + 1) * sectorSize)
    (hs : (n.forest d.content).block? (start / sectorSize) = some s)
    (hm : m = d.put s ((d.content s).overlay (start % sectorSize)
      (data.extract (start - offset) (start - offset + (mid - start))))) :
    n.SameOutside d m start mid ∧
      ∀ i, start ≤ i → i < mid → n.byte? m.content i = data[i - offset]? := by
  have hsize : (data.extract (start - offset) (start - offset + (mid - start))).size =
      mid - start := by
    rw [Array.size_extract]
    omega
  have htrees : n.SameTrees d m := hm ▸ SameTrees.put hs _
  constructor
  · refine ⟨htrees, fun t k hout => ?_⟩
    by_cases ht : t = s
    · rw [ht, hm, Medium.content_put_self]
      by_cases hk : k < sectorSize
      · rw [Vector.getElem?_eq_getElem hk, Vector.getElem?_eq_getElem hk, Sector.getElem_overlay,
          dif_neg]
        rw [hsize]
        intro hin
        -- the byte would be that of a position of the piece
        refine hout (start + (k - start % sectorSize)) (by omega) (by omega) ?_ ?_
        · rw [ht, ← hs]
          congr 1
          simp only [sectorSize] at *
          omega
        · simp only [sectorSize] at *
          omega
      · rw [Vector.getElem?_eq_none (by omega), Vector.getElem?_eq_none (by omega)]
    · rw [hm, Medium.content_put_of_ne ht]
  · intro i hi hi'
    have hdiv : i / sectorSize = start / sectorSize := by
      simp only [sectorSize] at *
      omega
    have hmod : i % sectorSize < sectorSize := Nat.mod_lt _ (by decide)
    have hpos : start % sectorSize ≤ i % sectorSize ∧
        i % sectorSize - start % sectorSize < mid - start := by
      simp only [sectorSize] at *
      omega
    have hindex : start - offset + (i % sectorSize - start % sectorSize) = i - offset := by
      simp only [sectorSize] at *
      omega
    unfold byte?
    rw [htrees.forest_eq hn, hdiv, hs, Option.bind_some, hm, Medium.content_put_self,
      Vector.getElem?_eq_getElem hmod, Sector.getElem_overlay,
      dif_pos ⟨hpos.1, by rw [hsize]; exact hpos.2⟩, Array.getElem_extract,
      Array.getElem?_eq_getElem (by omega)]
    simp only [hindex]

/-- The pieces of a range are written one after the other, up to the first hole. -/
theorem eval_writePieces (hn : n.Sparse d) {offset start stop hole : Nat} {data : Array UInt8}
    (hstop : stop ≤ n.length.toNat) (hdata : stop ≤ offset + data.size) (sofar : Nat)
    (hoffset : offset ≤ start) (hhole : n.FirstHole d.content start hole) :
    ∃ d', (n.writePieces offset data (Piece.ofRange start stop) sofar).eval d =
        .ok (sofar + (min stop hole - start), d') ∧
      n.SameOutside d d' start (min stop hole) ∧
      ∀ i, start ≤ i → i < min stop hole → n.byte? d'.content i = data[i - offset]? := by
  obtain ⟨rest, hrest⟩ : ∃ rest, rest = stop - start := ⟨_, rfl⟩
  induction rest using Nat.strong_induction_on generalizing start sofar d with
  | _ rest ih =>
    have hle := hhole.le
    rcases Nat.lt_or_ge start stop with hlt | hge
    · rw [Piece.ofRange_of_lt hlt]
      unfold writePieces
      rw [Script.eval_bind_of_ok (hn.eval_sectorAt? (show start < n.length.toNat by omega))]
      cases hs : (n.forest d.content).block? (start / sectorSize) with
      | none =>
        have hhere := hhole.eq_start hs
        have hzero : min stop hole - start = 0 := by omega
        refine ⟨d, ?_, SameOutside.refl n d _ _, fun i hi hi' => by omega⟩
        rw [hzero]
        rfl
      | some s =>
        have hblock := hhole.block_le hs
        obtain ⟨mid, hmid⟩ : ∃ mid, mid = min stop ((start / sectorSize + 1) * sectorSize) :=
          ⟨_, rfl⟩
        obtain ⟨hfirst, hlast, hinside⟩ :
            start < mid ∧ mid ≤ stop ∧ mid ≤ (start / sectorSize + 1) * sectorSize := by
          simp only [sectorSize] at *
          omega
        have hwhole : (data.extract (start - offset) (start - offset + (mid - start))).size =
            sectorSize → start % sectorSize = 0 := by
          rw [Array.size_extract]
          simp only [sectorSize] at *
          omega
        have hwrite := eval_writePiece (hn.exists_leaf hs) hwhole
        obtain ⟨m, hm⟩ : ∃ m, m = d.put s ((d.content s).overlay (start % sectorSize)
          (data.extract (start - offset) (start - offset + (mid - start)))) := ⟨_, rfl⟩
        rw [← hm] at hwrite
        obtain ⟨hsame, hpiece⟩ :=
          sameOutside_of_piece hn hoffset (by omega) hfirst hinside hs hm
        have hnext := hhole.from_mid (Nat.le_of_lt hfirst) (by omega)
        have hn' := hsame.trees.sparse hn
        obtain ⟨d', heval, hsame', hbytes⟩ := ih (stop - mid) (by omega) hn'
          (sofar + (mid - start)) (by omega) (hsame.trees.firstHole hn hnext) rfl
        refine ⟨d', ?_, hsame.trans hsame' hn (Nat.le_of_lt hfirst) (by omega),
          fun i hi hi' => ?_⟩
        · refine (Script.eval_bind_of_ok (by rw [Piece.offset, ← hmid]; exact hwrite)).trans ?_
          rw [← hmid, heval]
          congr 2
          omega
        · by_cases hnow : i < mid
          · rw [hsame'.byte?_eq hn' (by omega), hpiece i hi hnow]
          · exact hbytes i (by omega) hi'
    · have hzero : min stop hole - start = 0 := by omega
      refine ⟨d, ?_, SameOutside.refl n d _ _, fun i hi hi' => by omega⟩
      rw [Piece.ofRange_of_le hge, hzero]
      rfl

/-- Bytes are written up to the end of the file or the first hole. -/
theorem Sparse.eval_writeAt (hn : n.Sparse d) {offset hole : Nat} {data : Array UInt8}
    (hlimit : offset + data.size < wordLimit) (hhole : n.FirstHole d.content offset hole) :
    ∃ d', (n.writeAt offset data).eval d =
        .ok (min (min (offset + data.size) n.length.toNat) hole - offset, d') ∧
      n.SameOutside d d' offset (min (min (offset + data.size) n.length.toNat) hole) ∧
      ∀ i, offset ≤ i → i < min (min (offset + data.size) n.length.toNat) hole →
        n.byte? d'.content i = data[i - offset]? := by
  obtain ⟨d', heval, hrest⟩ := eval_writePieces hn (Nat.min_le_right _ _)
    (Nat.min_le_left (offset + data.size) n.length.toNat) 0 (Nat.le_refl _) hhole
  refine ⟨d', ?_, hrest⟩
  unfold writeAt
  rw [if_neg (by omega), heval, Nat.zero_add]

/-- A range inside a file without holes is written as a whole. -/
theorem eval_writeAt (hw : n.Whole d) {offset : Nat} {data : Array UInt8}
    (hin : offset + data.size ≤ n.length.toNat) :
    ∃ d', (n.writeAt offset data).eval d = .ok (data.size, d') ∧ n.SameTrees d d' ∧
      ∀ i, n.byte? d'.content i =
        if offset ≤ i ∧ i < offset + data.size then data[i - offset]?
          else n.byte? d.content i := by
  have hlimit : offset + data.size < wordLimit := by
    have hlength := n.length.toNat_lt
    simp only [wordLimit]
    omega
  obtain ⟨hole, hhole⟩ := FirstHole.exists_of n d.content offset
  have hend : min (min (offset + data.size) n.length.toNat) hole = offset + data.size := by
    have hle := hw.length_le_hole hhole
    omega
  obtain ⟨d', heval, hsame, hbytes⟩ := hw.sparse.eval_writeAt hlimit hhole
  rw [hend] at heval hsame hbytes
  refine ⟨d', ?_, hsame.trees, fun i => ?_⟩
  · rw [heval, Nat.add_sub_cancel_left]
  · by_cases hi : offset ≤ i ∧ i < offset + data.size
    · rw [if_pos hi, hbytes i hi.1 hi.2]
    · rw [if_neg hi, hsame.byte?_eq hw.sparse hi]

end Inode

end SectorVolume
