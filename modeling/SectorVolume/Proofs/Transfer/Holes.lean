import SectorVolume.Inode.Transfer
import SectorVolume.Proofs.Script.Medium

/-!
Reading a file with holes. Whatever the lookup says of the blocks, the pieces of a range from the
start of the file are read one after the other, up to the first block that is missing.
-/

namespace SectorVolume

/-- The bytes of the blocks up to `stop`, or up to the first block that is missing. -/
structure ReadUpTo (block? : Nat → Option UInt32) (content : UInt32 → Sector) (stop : Nat)
    (data : Array UInt8) : Prop where
  size_le : data.size ≤ stop
  bytes : ∀ i < data.size, ∃ s, block? (i / sectorSize) = some s ∧
    data[i]? = (content s)[i % sectorSize]?
  ends : data.size = stop ∨ ∃ k, data.size = k * sectorSize ∧ block? k = none

/-- All blocks are there up to the end of what has been read. -/
theorem ReadUpTo.lt_size_iff {block? : Nat → Option UInt32} {content : UInt32 → Sector}
    {stop : Nat}
    {data : Array UInt8} (h : ReadUpTo block? content stop data) {i : Nat} (hi : i < stop) :
    i < data.size ↔ ∀ k ≤ i / sectorSize, (block? k).isSome := by
  constructor
  · intro hlt k hk
    have hstart : k * sectorSize < data.size :=
      Nat.lt_of_le_of_lt ((Nat.le_div_iff_mul_le (by decide)).1 hk) hlt
    obtain ⟨s, hs, -⟩ := h.bytes _ hstart
    rw [Nat.mul_div_cancel _ (by decide)] at hs
    rw [hs]
    rfl
  · intro hall
    rcases h.ends with hsize | ⟨k, hsize, hnone⟩
    · exact hsize ▸ hi
    · by_contra hge
      rw [hsize, Nat.not_lt] at hge
      have hsome := hall k ((Nat.le_div_iff_mul_le (by decide)).2 hge)
      rw [hnone] at hsome
      exact absurd hsome (by decide)

namespace Inode

variable {n : Inode} {d : Medium} {block? : Nat → Option UInt32} {stop : Nat}

/-- The bytes of one more block. -/
theorem getElem?_append_bytes {sofar : Array UInt8} {s : Sector} {k mid i : Nat}
    (hsize : sofar.size = k * sectorSize) (hlt : sofar.size ≤ i) (hi : i < mid)
    (hmid : mid ≤ (k + 1) * sectorSize) :
    i / sectorSize = k ∧
      (sofar ++ s.bytes (sofar.size % sectorSize) (mid - sofar.size))[i]? =
        s[i % sectorSize]? := by
  have hdiv : i / sectorSize = k := by
    simp only [sectorSize] at *
    omega
  have hmod : i % sectorSize = i - sofar.size := by
    simp only [sectorSize] at *
    omega
  have hzero : sofar.size % sectorSize = 0 := by rw [hsize, Nat.mul_mod_left]
  have hbyte : i - sofar.size < s.toArray.size := by
    rw [Vector.size_toArray, ← hmod]
    exact Nat.mod_lt _ (by decide)
  refine ⟨hdiv, ?_⟩
  rw [Array.getElem?_append_right hlt, Sector.bytes, hzero, Nat.zero_add, hmod,
    Array.getElem?_extract, if_pos (by omega), Nat.zero_add, Vector.getElem?_toArray]

/-- What has been read so far is read on. -/
theorem exists_readPieces
    (hlookup : ∀ k, k * sectorSize < stop → (∀ j < k, (block? j).isSome) →
      (n.sectorAt? (k * sectorSize)).eval d = .ok (block? k, d) ∧
        ∀ s, block? k = some s → s.toNat < d.size)
    (sofar : Array UInt8) (hle : sofar.size ≤ stop)
    (hwhole : sofar.size = stop ∨ ∃ k, sofar.size = k * sectorSize)
    (hbytes : ∀ i < sofar.size, ∃ s, block? (i / sectorSize) = some s ∧
      sofar[i]? = (d.content s)[i % sectorSize]?) :
    ∃ data, (n.readPieces (Piece.ofRange sofar.size stop) sofar).eval d = .ok (data, d) ∧
      ReadUpTo block? d.content stop data := by
  obtain ⟨rest, hrest⟩ : ∃ rest, rest = stop - sofar.size := ⟨_, rfl⟩
  induction rest using Nat.strongRecOn generalizing sofar with
  | ind rest ih =>
    rcases Nat.lt_or_ge sofar.size stop with hlt | hge
    · obtain ⟨k, hk⟩ := hwhole.resolve_left (Nat.ne_of_lt hlt)
      have hdiv : sofar.size / sectorSize = k := by rw [hk, Nat.mul_div_cancel _ (by decide)]
      -- what has been read came from the blocks before this one, so they are all there
      have hbefore : ∀ j < k, (block? j).isSome := by
        intro j hj
        have hstart : j * sectorSize < sofar.size := by
          rw [hk]
          exact Nat.mul_lt_mul_of_pos_right hj (by decide)
        obtain ⟨s, hs, -⟩ := hbytes _ hstart
        rw [Nat.mul_div_cancel _ (by decide)] at hs
        rw [hs]
        rfl
      obtain ⟨hat, hexists⟩ := hlookup k (hk ▸ hlt) hbefore
      rw [← hk] at hat
      rw [Piece.ofRange_of_lt hlt, hdiv, readPieces, Script.eval_bind_of_ok hat]
      cases hblock : block? k with
      | none => exact ⟨sofar, rfl, hle, hbytes, Or.inr ⟨k, hk, hblock⟩⟩
      | some s =>
        obtain ⟨mid, hmid⟩ : ∃ mid, mid = min stop ((k + 1) * sectorSize) := ⟨_, rfl⟩
        have hbounds : sofar.size < mid ∧ mid ≤ stop ∧ mid ≤ (k + 1) * sectorSize := by
          simp only [sectorSize] at *
          omega
        obtain ⟨hfirst, hlast, hinside⟩ := hbounds
        obtain ⟨more, hmore⟩ : ∃ more, more =
          sofar ++ (d.content s).bytes (sofar.size % sectorSize) (mid - sofar.size) := ⟨_, rfl⟩
        have hsize : more.size = mid := by
          rw [hmore, Array.size_append, Sector.size_bytes _ _ _ (by
            simp only [sectorSize] at *
            omega)]
          omega
        obtain ⟨data, heval, hread⟩ := ih (stop - more.size) (by omega) more (by omega)
          (by
            rw [hsize, hmid]
            rcases Nat.le_total stop ((k + 1) * sectorSize) with hend | hend
            · exact Or.inl (Nat.min_eq_left hend)
            · exact Or.inr ⟨k + 1, Nat.min_eq_right hend⟩)
          (fun i hi => by
            rw [hsize] at hi
            rcases Nat.lt_or_ge i sofar.size with hold | hnew
            · obtain ⟨t, ht, hbyte⟩ := hbytes i hold
              exact ⟨t, ht, by rw [hmore, Array.getElem?_append_left hold, hbyte]⟩
            · obtain ⟨hi', hbyte⟩ :=
                getElem?_append_bytes (s := d.content s) hk hnew hi hinside
              exact ⟨s, hi' ▸ hblock, hmore ▸ hbyte⟩)
          rfl
        refine ⟨data, ?_, hread⟩
        refine (Script.eval_bind_of_ok (Script.eval_fetchSector (hexists s hblock))).trans ?_
        rw [Piece.offset, ← hmid, ← hmore, ← hsize]
        exact heval
    · rw [Piece.ofRange_of_le hge]
      exact ⟨sofar, rfl, hle, hbytes, Or.inl (Nat.le_antisymm hle hge)⟩

/-- A file is read from its start up to its end or to the first hole. -/
theorem exists_readAt
    (hlookup : ∀ k, k * sectorSize < n.length.toNat → (∀ j < k, (block? j).isSome) →
      (n.sectorAt? (k * sectorSize)).eval d = .ok (block? k, d) ∧
        ∀ s, block? k = some s → s.toNat < d.size) :
    ∃ data, (n.readAt 0 n.length.toNat).eval d = .ok (data, d) ∧
      ReadUpTo block? d.content n.length.toNat data := by
  have hlimit : n.length.toNat < wordLimit := by
    have := n.length.toNat_lt
    simp only [wordLimit]
    omega
  have hread := exists_readPieces hlookup #[] (Nat.zero_le _) (Or.inr ⟨0, rfl⟩) fun i hi =>
    absurd hi (Nat.not_lt_zero i)
  rw [readAt, Nat.zero_add, if_neg (by omega)]
  exact hread

end Inode

end SectorVolume
