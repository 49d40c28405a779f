import SectorVolume.Inode.Transfer
import SectorVolume.Proofs.Index.File

/-!
Reading gives the bytes that the blocks of a file hold, piece by piece, up to the first hole. A
file that has all blocks of its length has no hole inside it, so there every range is read as a
whole.
-/

namespace SectorVolume

namespace Inode

/-- The byte of a file at a position. -/
def byte? (n : Inode) (c : UInt32 → Sector) (pos : Nat) : Option UInt8 :=
  ((n.forest c).block? (pos / sectorSize)).bind fun s => (c s)[pos % sectorSize]?

/-- Files of the same trees have the same bytes, where the blocks have. -/
theorem byte?_congr {n m : Inode} {c c' : UInt32 → Sector} (hforest : m.forest c' = n.forest c)
    (hcontent : ∀ s ∈ n.blocks c, c' s = c s) (pos : Nat) : m.byte? c' pos = n.byte? c pos := by
  rw [byte?, byte?, hforest]
  cases hblock : (n.forest c).block? (pos / sectorSize) with
  | none => rfl
  | some s =>
    have hmem := Forest.mem_sectors_of_block? hblock
    rw [Option.bind_some, Option.bind_some, hcontent s hmem]

/-- A file whose blocks lie in different existing sectors, whichever of its blocks are there. -/
structure Sparse (n : Inode) (d : Medium) : Prop where
  length_le : n.length.toNat ≤ maxLength
  exists_sector : ∀ s ∈ n.blocks d.content, s.toNat < d.size
  nodup : (n.blocks d.content).Nodup

/-- The first position from `start` on whose block is missing. -/
structure FirstHole (n : Inode) (c : UInt32 → Sector) (start hole : Nat) : Prop where
  le : start ≤ hole
  missing : (n.forest c).block? (hole / sectorSize) = none
  there : ∀ pos, start ≤ pos → pos < hole →
    ((n.forest c).block? (pos / sectorSize)).isSome = true

namespace FirstHole

variable {n : Inode} {c : UInt32 → Sector} {start hole : Nat}

theorem exists_of (n : Inode) (c : UInt32 → Sector) (start : Nat) :
    ∃ hole, n.FirstHole c start hole := by
  have hex : ∃ pos, start ≤ pos ∧ (n.forest c).block? (pos / sectorSize) = none := by
    refine ⟨max start (maxBlocks * sectorSize), Nat.le_max_left _ _, ?_⟩
    apply Forest.block?_of_span_le
    rw [span_forest, Nat.le_div_iff_mul_le (by decide)]
    exact Nat.le_max_right _ _
  obtain ⟨hle, hmissing⟩ := Nat.find_spec hex
  refine ⟨Nat.find hex, hle, hmissing, fun pos hpos hlt => ?_⟩
  have hbefore := Nat.find_min hex hlt
  rw [Option.isSome_iff_ne_none]
  exact fun hnone => hbefore ⟨hpos, hnone⟩

theorem from_mid (h : n.FirstHole c start hole) {mid : Nat} (hmid : start ≤ mid)
    (hhole : mid ≤ hole) : n.FirstHole c mid hole :=
  ⟨hhole, h.missing, fun pos hpos hlt => h.there pos (by omega) hlt⟩

theorem eq_start (h : n.FirstHole c start hole)
    (hnone : (n.forest c).block? (start / sectorSize) = none) : hole = start := by
  by_contra hne
  have hle := h.le
  have hsome := h.there start (Nat.le_refl _) (by omega)
  rw [hnone] at hsome
  cases hsome

/-- A block that is there ends before the first hole. -/
theorem block_le (h : n.FirstHole c start hole) {s : UInt32}
    (hs : (n.forest c).block? (start / sectorSize) = some s) :
    (start / sectorSize + 1) * sectorSize ≤ hole := by
  have hle := h.le
  by_contra hlt
  have hsame : hole / sectorSize = start / sectorSize := by
    simp only [sectorSize] at *
    omega
  have hnone := h.missing
  rw [hsame, hs] at hnone
  cases hnone

end FirstHole

variable {n : Inode} {d : Medium}

namespace Sparse

theorem nodup_leaves (h : n.Sparse d) : (n.forest d.content).leaves.Nodup :=
  (List.nodup_append.1 ((n.forest d.content).sectors_perm.nodup_iff.1 h.nodup)).2.1

theorem exists_node (h : n.Sparse d) {s : UInt32} (hs : s ∈ (n.forest d.content).nodes) :
    s.toNat < d.size := h.exists_sector s (Forest.mem_sectors.2 (Or.inl hs))

theorem exists_leaf (h : n.Sparse d) {b : Nat} {s : UInt32}
    (hs : (n.forest d.content).block? b = some s) : s.toNat < d.size :=
  h.exists_sector s (Forest.mem_sectors_of_block? hs)

/-- Inside the length the lookup says what the trees say. -/
theorem eval_sectorAt? (h : n.Sparse d) {pos : Nat} (hpos : pos < n.length.toNat) :
    (n.sectorAt? pos).eval d = .ok ((n.forest d.content).block? (pos / sectorSize), d) :=
  eval_sectorAt?_of_lt (fun _ ht => h.exists_node ht) h.length_le hpos

end Sparse

/-- The bytes of one piece. -/
theorem getElem?_piece {c : UInt32 → Sector} {s : UInt32} {start stop : Nat} (hlt : start < stop)
    (hstop : stop ≤ (start / sectorSize + 1) * sectorSize)
    (hs : (n.forest c).block? (start / sectorSize) = some s) :
    ((c s).bytes (start % sectorSize) (stop - start)).size = stop - start ∧
      ∀ i < stop - start,
        ((c s).bytes (start % sectorSize) (stop - start))[i]? = n.byte? c (start + i) := by
  have hfit : start % sectorSize + (stop - start) ≤ sectorSize := by
    simp only [sectorSize] at *
    omega
  refine ⟨Sector.size_bytes _ _ _ hfit, fun i hi => ?_⟩
  have hdiv : (start + i) / sectorSize = start / sectorSize := by
    simp only [sectorSize] at *
    omega
  have hmod : (start + i) % sectorSize = start % sectorSize + i := by
    simp only [sectorSize] at *
    omega
  unfold byte? Sector.bytes
  rw [hdiv, hs, Option.bind_some, hmod, Array.getElem?_extract, if_pos (by simp; omega),
    Vector.getElem?_toArray]

/-- The pieces of a range are read one after the other, up to the first hole. -/
theorem eval_readPieces (hn : n.Sparse d) {start stop hole : Nat} (hstop : stop ≤ n.length.toNat)
    (hhole : n.FirstHole d.content start hole) (sofar : Array UInt8) :
    ∃ data, (n.readPieces (Piece.ofRange start stop) sofar).eval d = .ok (sofar ++ data, d) ∧
      data.size = min stop hole - start ∧
      ∀ i < data.size, data[i]? = n.byte? d.content (start + i) := by
  obtain ⟨rest, hrest⟩ : ∃ rest, rest = stop - start := ⟨_, rfl⟩
  induction rest using Nat.strong_induction_on generalizing start sofar with
  | _ rest ih =>
    have hle := hhole.le
    rcases Nat.lt_or_ge start stop with hlt | hge
    · rw [Piece.ofRange_of_lt hlt]
      unfold readPieces
      rw [Script.eval_bind_of_ok (hn.eval_sectorAt? (show start < n.length.toNat by omega))]
      cases hs : (n.forest d.content).block? (start / sectorSize) with
      | none =>
        have hhere := hhole.eq_start hs
        refine ⟨#[], ?_, ?_, fun i hi => absurd hi (Nat.not_lt_zero i)⟩
        · rw [Array.append_empty]
          rfl
        · simp only [List.size_toArray, List.length_nil]
          omega
      | some s =>
        have hblock := hhole.block_le hs
        obtain ⟨mid, hmid⟩ : ∃ mid, mid = min stop ((start / sectorSize + 1) * sectorSize) :=
          ⟨_, rfl⟩
        obtain ⟨hfirst, hlast, hinside⟩ :
            start < mid ∧ mid ≤ stop ∧ mid ≤ (start / sectorSize + 1) * sectorSize := by
          simp only [sectorSize] at *
          omega
        obtain ⟨hsize, hpiece⟩ := getElem?_piece hfirst hinside hs
        obtain ⟨piece, hp⟩ : ∃ piece, piece =
          (d.content s).bytes (start % sectorSize) (mid - start) := ⟨_, rfl⟩
        rw [← hp] at hsize hpiece
        obtain ⟨data, heval, hdata, hbytes⟩ := ih (stop - mid) (by omega)
          (hhole.from_mid (Nat.le_of_lt hfirst) (by omega)) (sofar ++ piece) rfl
        refine ⟨piece ++ data, ?_, ?_, fun i hi => ?_⟩
        · refine (Script.eval_bind_of_ok (Script.eval_fetchSector (hn.exists_leaf hs))).trans ?_
          rw [Piece.offset, ← hmid, ← hp, heval, Array.append_assoc]
        · rw [Array.size_append]
          omega
        · rw [Array.size_append] at hi
          by_cases hold : i < piece.size
          · rw [Array.getElem?_append_left hold]
            exact hpiece i (by omega)
          · rw [Array.getElem?_append_right (by omega), hbytes _ (by omega)]
            congr 1
            omega
    · refine ⟨#[], ?_, ?_, fun i hi => absurd hi (Nat.not_lt_zero i)⟩
      · rw [Piece.ofRange_of_le hge, Array.append_empty]
        rfl
      · simp only [List.size_toArray, List.length_nil]
        omega

/-- A range inside the file is read up to the first hole. -/
theorem Sparse.eval_readAt (hn : n.Sparse d) {offset len hole : Nat}
    (hin : offset + len ≤ n.length.toNat) (hhole : n.FirstHole d.content offset hole) :
    ∃ data, (n.readAt offset len).eval d = .ok (data, d) ∧
      data.size = min (offset + len) hole - offset ∧
      ∀ i < data.size, data[i]? = n.byte? d.content (offset + i) := by
  have hlimit := n.length.toNat_lt
  obtain ⟨data, heval, hdata⟩ := eval_readPieces hn hin hhole #[]
  refine ⟨data, ?_, hdata⟩
  unfold readAt
  rw [if_neg (by simp only [wordLimit]; omega), heval, Array.empty_append]

/-- Of a range that leaves the file nothing is read. -/
theorem eval_readAt_of_lt {offset len : Nat}
    (hout : wordLimit ≤ offset + len ∨ n.length.toNat < offset + len) :
    (n.readAt offset len).eval d = .ok (#[], d) := by
  unfold readAt
  rw [if_pos hout, Script.eval_pure]

/-- A file that has just the blocks of its length, all of them in different existing sectors. -/
structure Whole (n : Inode) (d : Medium) : Prop where
  length_le : n.length.toNat ≤ maxLength
  fits : (n.forest d.content).Fits (dataBlocks n.length.toNat)
  exists_sector : ∀ s ∈ n.blocks d.content, s.toNat < d.size
  nodup : (n.blocks d.content).Nodup

theorem Whole.sparse (h : n.Whole d) : n.Sparse d := ⟨h.length_le, h.exists_sector, h.nodup⟩

/-- No hole is inside such a file. -/
theorem Whole.length_le_hole (h : n.Whole d) {start hole : Nat}
    (hhole : n.FirstHole d.content start hole) : n.length.toNat ≤ hole := by
  by_contra hlt
  have hblock : hole / sectorSize < dataBlocks n.length.toNat := by
    rw [lt_dataBlocks_iff]
    exact Nat.lt_of_le_of_lt (Nat.div_mul_le_self _ _) (Nat.not_le.1 hlt)
  have hblocks := dataBlocks_le_maxBlocks_iff.2 h.length_le
  have hsome := (Forest.isSome_block?_of_fits h.fits (by rw [span_forest]; omega)).2 hblock
  rw [hhole.missing] at hsome
  cases hsome

/-- A range inside the file is read as it is; of any other range nothing is read. -/
theorem eval_readAt (h : n.Whole d) {bytes : Array UInt8}
    (hbytes : ∀ i < n.length.toNat, bytes[i]? = n.byte? d.content i) (offset len : Nat) :
    (n.readAt offset len).eval d =
      .ok (if offset + len ≤ n.length.toNat then bytes.extract offset (offset + len)
        else #[], d) := by
  by_cases hin : offset + len ≤ n.length.toNat
  · obtain ⟨hole, hhole⟩ := FirstHole.exists_of n d.content offset
    have hend := h.length_le_hole hhole
    obtain ⟨data, heval, hsize, hdata⟩ := h.sparse.eval_readAt hin hhole
    rw [if_pos hin, heval]
    congr 2
    apply Array.ext_getElem?
    intro i
    rw [Array.getElem?_extract]
    by_cases hi : i < len
    · rw [hdata i (by omega), ← hbytes _ (by omega)]
      by_cases hsome : i < min (offset + len) bytes.size - offset
      · rw [if_pos hsome]
      · rw [if_neg hsome, Array.getElem?_eq_none (by omega)]
    · rw [Array.getElem?_eq_none (by omega), if_neg (by omega)]
  · rw [if_neg hin, eval_readAt_of_lt (Or.inr (by omega))]

end Inode

end SectorVolume
