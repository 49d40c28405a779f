import SectorVolume.Proofs.Resize.Outcome

/-!
A file that was resized has just the blocks of its length. The lookup by division and remainder,
the listing of all blocks and the closed form for their number agree on it; blocks that were there
before have not moved, and new ones are zeroed. The sectors in use are those before without the
old blocks and with the new ones.
-/

namespace SectorVolume

namespace Inode

variable {e e' : Engine RamDisk} {n m : Inode} {sector : UInt32} {length : Nat}

/-- The second engine has the file with the inode `n` resized to a length, with the inode `m`. -/
structure ResizedTo (e e' : Engine RamDisk) (n m : Inode) (sector : UInt32)
    (length : Nat) : Prop where
  /-- Every byte of the file has a sector. -/
  mapped : ∀ pos < length, ∃ s, e'.answer (m.sectorAt? pos) = .ok (some s)
  unmapped : ∀ pos, length ≤ pos → e'.answer (m.sectorAt? pos) = .ok none
  /-- Bytes of different blocks lie in different sectors. -/
  apart : ∀ pos pos' s, e'.answer (m.sectorAt? pos) = .ok (some s) →
    e'.answer (m.sectorAt? pos') = .ok (some s) → pos / sectorSize = pos' / sectorSize
  /-- A block that was there keeps its sector and its bytes. -/
  unmoved : ∀ i < dataBlocks length, ∀ s, e.answer (n.block? i) = .ok (some s) →
    e'.answer (m.block? i) = .ok (some s) ∧ e'.store.content s = e.store.content s
  /-- A block that was missing is zeroed. -/
  zeroed : ∀ i < dataBlocks length, e.answer (n.block? i) = .ok none →
    ∃ s, e'.answer (m.block? i) = .ok (some s) ∧ e'.store.content s = Sector.zero
  /-- The listing has every block once, as many as the length takes, and all are in use. The
  sectors in use are those before without the old blocks, and the new blocks. -/
  listed : ∃ old new, e.answer n.sectors = .ok old ∧ e'.answer m.sectors = .ok new ∧ new.Nodup ∧
    new.length = totalBlocks length ∧
    ∀ s : UInt32, e'.map.bitmap.used? s.toNat = some true ↔
      (e.map.bitmap.used? s.toNat = some true ∧ s ∉ old) ∨ s ∈ new
  length_eq : m.length.toNat = length
  isDirWord_eq : m.isDirWord = n.isDirWord
  children_eq : m.children = n.children
  magic_eq : m.magic = n.magic
  unused_eq : m.unused = n.unused
  /-- The inode on the volume is the one in memory. -/
  stored : Inode.ofSector (e'.store.content sector) = m

section Resized

variable {d d' : Medium} {taken rest : List UInt32}

/-- The old blocks and the sectors taken are all different. -/
theorem Placed.nodup_append (hplaced : n.Placed sector d)
    (hsupply : d.map.supply = taken ++ rest) :
    (n.blocks d.content ++ taken).Nodup := by
  refine List.nodup_append.2 ⟨hplaced.ready.nodup, ?_, ?_⟩
  · have hall := FreeMap.nodup_supply hplaced.ready.within
    rw [hsupply] at hall
    exact (List.nodup_append.1 hall).1
  · rintro s hs _ hs' rfl
    exact hplaced.ready.notMem_taken hsupply hs hs'

/-- The new blocks are the old ones and the sectors taken, without those that are not needed. -/
theorem Resized.mem_blocks (hplaced : n.Placed sector d) (hsupply : d.map.supply = taken ++ rest)
    (h : Resized d d' n m sector length taken) {s : UInt32} : s ∈ m.blocks d'.content ↔
      (s ∈ n.blocks d.content ∨ s ∈ taken) ∧
        s ∉ (n.forest d.content).beyond (dataBlocks length) := by
  have hperm := h.refit.sectors_perm
  have hsplit := List.nodup_append.1 (hperm.nodup_iff.2 (hplaced.nodup_append hsupply))
  have hiff := hperm.mem_iff (a := s)
  rw [List.mem_append, List.mem_append] at hiff
  constructor
  · intro hs
    exact ⟨hiff.1 (Or.inl hs), fun hb => hsplit.2.2 s hs s hb rfl⟩
  · rintro ⟨hs, hb⟩
    exact (hiff.2 hs).resolve_right hb

theorem Resized.nodup_blocks (hplaced : n.Placed sector d)
    (hsupply : d.map.supply = taken ++ rest)
    (h : Resized d d' n m sector length taken) : (m.blocks d'.content).Nodup :=
  (List.nodup_append.1
    (h.refit.sectors_perm.nodup_iff.2 (hplaced.nodup_append hsupply))).1

/-- Bit by bit: what is not needed any more is free, what was taken is in use. -/
theorem Resized.used? (hplaced : n.Placed sector d) (hsupply : d.map.supply = taken ++ rest)
    (h : Resized d d' n m sector length taken) (s : UInt32) :
    d'.map.bitmap.used? s.toNat =
      if s ∈ (n.forest d.content).beyond (dataBlocks length) then some false
      else if s ∈ taken then some true else d.map.bitmap.used? s.toNat := by
  have hmem : ∀ xs : List UInt32, s.toNat ∈ xs.map UInt32.toNat ↔ s ∈ xs := by
    intro xs
    simp [UInt32.toNat_inj]
  have hbeyond : ∀ t ∈ (n.forest d.content).beyond (dataBlocks length), t ∈ n.blocks d.content :=
    fun t ht => Forest.beyond_subset ht
  rw [h.map, hplaced.ready.used?_exchanged hsupply hbeyond]
  simp only [hmem]

/-- The sectors in use after a resize. -/
theorem Resized.used_iff (hplaced : n.Placed sector d) (hsupply : d.map.supply = taken ++ rest)
    (h : Resized d d' n m sector length taken) (s : UInt32) :
    d'.map.bitmap.used? s.toNat = some true ↔
      (d.map.bitmap.used? s.toNat = some true ∧ s ∉ n.blocks d.content) ∨
      s ∈ m.blocks d'.content := by
  rw [h.used? hplaced hsupply, h.mem_blocks hplaced hsupply]
  by_cases hb : s ∈ (n.forest d.content).beyond (dataBlocks length)
  · have hold : s ∈ n.blocks d.content := Forest.beyond_subset hb
    simp [hb, hold]
  · by_cases ht : s ∈ taken
    · simp [hb, ht]
    · by_cases hs : s ∈ n.blocks d.content
      · simp [hb, ht, hs, hplaced.ready.used s hs]
      · simp [hb, ht, hs]

/-- The resized file is well placed again. -/
theorem Resized.placed (hplaced : n.Placed sector d) (hsupply : d.map.supply = taken ++ rest)
    (h : Resized d d' n m sector length taken) : m.Placed sector d' := by
  have hwithin : d'.map.bitmap.Within d'.size := by
    rw [h.map, h.size]
    exact hplaced.ready.within_exchanged hsupply fun s hs => Forest.beyond_subset hs
  have hnotself : sector ∉ m.blocks d'.content := by
    intro hmem
    rcases ((h.mem_blocks hplaced hsupply).1 hmem).1 with hold | hnew
    · exact hplaced.self_notMem hold
    · exact hplaced.self_notMem_taken hsupply hnew
  refine {
    ready := ⟨hwithin, h.nodup_blocks hplaced hsupply, ?_, ?_⟩
    exists_self := by
      rw [h.size]
      exact hplaced.exists_self
    used_self := (h.used_iff hplaced hsupply sector).2
      (Or.inl ⟨hplaced.used_self, hplaced.self_notMem⟩)
    self_notMem := hnotself
  }
  · intro s hs
    rw [h.size]
    rcases ((h.mem_blocks hplaced hsupply).1 hs).1 with hold | hnew
    · exact hplaced.ready.exists_sector s hold
    · exact (hplaced.ready.within _ (hplaced.ready.free_of_mem_taken hsupply hnew)).2.1
  · intro s hs
    exact (h.used_iff hplaced hsupply s).2 (Or.inr hs)

/-- A block of the new file is one of the old file with its bytes, or it is zeroed. -/
theorem content_of_resized (hplaced : n.Placed sector d) (hsupply : d.map.supply = taken ++ rest)
    (h : Resized d d' n m sector length taken) {i : Nat} (hi : i < dataBlocks length)
    (hle : length ≤ maxLength) :
    ∃ s, (m.forest d'.content).block? i = some s ∧
      ((n.forest d.content).block? i = some s ∧ d'.content s = d.content s ∨
        (n.forest d.content).block? i = none ∧ d'.content s = Sector.zero) := by
  have hspan := span_forest m d'.content
  have hblocks := dataBlocks_le_maxBlocks_iff.2 hle
  have hsome := (Forest.isSome_block?_of_fits h.refit.fits (by rw [hspan]; omega)).2 hi
  obtain ⟨s, hs⟩ := Option.isSome_iff_exists.1 hsome
  refine ⟨s, hs, ?_⟩
  cases hold : (n.forest d.content).block? i with
  | none =>
    exact Or.inr
      ⟨rfl, h.zeroed s (h.refit.mem_taken_of_none hold hs) (Forest.mem_leaves_of_block? hs)⟩
  | some t =>
    obtain rfl : t = s := Option.some.inj ((h.refit.block?_of_some hi hold).symm.trans hs)
    have hleaf := Forest.mem_leaves_of_block? hold
    have hmem := Forest.mem_sectors_of_block? hold
    have hnodup := hplaced.ready.nodup
    refine Or.inl ⟨rfl, h.kept t ?_ ?_ ?_⟩
    · rintro rfl
      exact hplaced.self_notMem hmem
    · intro hnode
      have hperm := (n.forest d.content).sectors_perm.nodup_iff.1 hnodup
      exact (List.nodup_append.1 hperm).2.2 t hnode t hleaf rfl
    · exact hplaced.ready.notMem_taken hsupply hmem

end Resized

/-- The new length fits into its field. -/
theorem Resized.length_eq {d d' : Medium} {taken : List UInt32}
    (h : Resized d d' n m sector length taken) (hle : length ≤ maxLength) :
    m.length.toNat = length := by
  rw [h.same_record]
  apply UInt32.toNat_ofNat_of_lt'
  refine Nat.lt_of_le_of_lt hle ?_
  decide

section Answers

variable (hcoherent : e.store.Coherent) (hplaced : n.Placed sector e.medium)

include hcoherent hplaced

theorem Placed.answer_block? {i : Nat} (hi : i < maxBlocks) :
    e.answer (n.block? i) = .ok ((n.forest e.medium.content).block? i) :=
  Engine.answer_of_eval_ok hcoherent (eval_block? hplaced.exists_node hi)

theorem Placed.answer_sectorAt? (hle : n.length.toNat ≤ maxLength) {pos : Nat}
    (hpos : pos < n.length.toNat) :
    e.answer (n.sectorAt? pos) = .ok ((n.forest e.medium.content).block? (pos / sectorSize)) :=
  Engine.answer_of_eval_ok hcoherent (eval_sectorAt?_of_lt hplaced.exists_node hle hpos)

theorem Placed.answer_sectors : e.answer n.sectors = .ok (n.blocks e.medium.content) :=
  Engine.answer_of_eval_ok hcoherent (eval_sectors hplaced.exists_node)

end Answers

/-- Bytes in one sector are in one block. -/
theorem eq_of_sectorAt? (hcoherent : e.store.Coherent) (hplaced : n.Placed sector e.medium)
    (hle : n.length.toNat ≤ maxLength) {pos pos' : Nat} {s : UInt32}
    (hs : e.answer (n.sectorAt? pos) = .ok (some s))
    (hs' : e.answer (n.sectorAt? pos') = .ok (some s)) :
    pos / sectorSize = pos' / sectorSize := by
  have hlt : ∀ p, e.answer (n.sectorAt? p) = .ok (some s) → p < n.length.toNat := by
    intro p hp
    by_contra hge
    have hend := Engine.answer_of_eval_ok hcoherent (eval_sectorAt?_of_le (Nat.le_of_not_lt hge))
    rw [hend] at hp
    exact absurd hp (by simp)
  rw [hplaced.answer_sectorAt? hcoherent hle (hlt _ hs), Except.ok.injEq] at hs
  rw [hplaced.answer_sectorAt? hcoherent hle (hlt _ hs'), Except.ok.injEq] at hs'
  have hperm := (n.forest e.medium.content).sectors_perm.nodup_iff.1 hplaced.ready.nodup
  exact Forest.block?_inj (List.nodup_append.1 hperm).2.1 hs hs'

theorem resizedTo_of_resized {taken rest : List UInt32} (hcoherent : e.store.Coherent)
    (hcoherent' : e'.store.Coherent) (hplaced : n.Placed sector e.medium)
    (hsupply : e.medium.map.supply = taken ++ rest) (hle : length ≤ maxLength)
    (h : Resized e.medium e'.medium n m sector length taken) :
    ResizedTo e e' n m sector length := by
  have hplaced' := h.placed hplaced hsupply
  have hlength := h.length_eq hle
  have hle' : m.length.toNat ≤ maxLength := by rwa [hlength]
  have hblock : ∀ i < dataBlocks length,
      e.answer (n.block? i) = .ok ((n.forest e.medium.content).block? i) ∧
        e'.answer (m.block? i) = .ok ((m.forest e'.medium.content).block? i) := by
    intro i hi
    have hmax := Nat.lt_of_lt_of_le hi (dataBlocks_le_maxBlocks_iff.2 hle)
    exact ⟨hplaced.answer_block? hcoherent hmax, hplaced'.answer_block? hcoherent' hmax⟩
  refine {
    mapped := ?_
    unmapped := ?_
    apart := fun pos pos' s hs hs' => eq_of_sectorAt? hcoherent' hplaced' hle' hs hs'
    unmoved := ?_
    zeroed := ?_
    listed := ?_
    length_eq := hlength
    isDirWord_eq := by rw [h.same_record]
    children_eq := by rw [h.same_record]
    magic_eq := by rw [h.same_record]
    unused_eq := by rw [h.same_record]
    stored := ?_
  }
  · intro pos hlt
    have hindex : pos / sectorSize < dataBlocks length := by
      rw [lt_dataBlocks_iff]
      exact Nat.lt_of_le_of_lt (Nat.div_mul_le_self _ _) hlt
    obtain ⟨s, hs, _⟩ := content_of_resized hplaced hsupply h hindex hle
    exact ⟨s, by rw [hplaced'.answer_sectorAt? hcoherent' hle' (by rwa [hlength]), hs]⟩
  · intro pos hge
    exact Engine.answer_of_eval_ok hcoherent' (eval_sectorAt?_of_le (by rwa [hlength]))
  · intro i hi s hs
    rw [(hblock i hi).1, Except.ok.injEq] at hs
    obtain ⟨t, ht, hcases⟩ := content_of_resized hplaced hsupply h hi hle
    rcases hcases with ⟨hold, hcontent⟩ | ⟨hold, _⟩
    · obtain rfl : s = t := Option.some.inj (hs.symm.trans hold)
      exact ⟨by rw [(hblock i hi).2, ht], hcontent⟩
    · rw [hold] at hs
      exact absurd hs (by simp)
  · intro i hi hs
    rw [(hblock i hi).1, Except.ok.injEq] at hs
    obtain ⟨t, ht, hcases⟩ := content_of_resized hplaced hsupply h hi hle
    rcases hcases with ⟨hold, _⟩ | ⟨_, hzero⟩
    · rw [hold] at hs
      exact absurd hs (by simp)
    · exact ⟨t, by rw [(hblock i hi).2, ht], hzero⟩
  · refine ⟨_, _, hplaced.answer_sectors hcoherent, hplaced'.answer_sectors hcoherent',
      hplaced'.ready.nodup, ?_, ?_⟩
    · rw [blocks, Forest.length_sectors_of_fits h.refit.fits, lacking_bare_eq_totalBlocks m _ hle]
    · exact h.used_iff hplaced hsupply
  · have hstored : e'.store.content sector = m.toSector := h.stored
    rw [hstored, ofSector_toSector]

/-- After a resize that succeeds the file has exactly the blocks of its new length. -/
theorem resize_maps_exactly {e : Engine RamDisk} {n : Inode} {sector : UInt32}
    (hcoherent : e.store.Coherent) (hgiven : e.map.bitmap.Within e.store.size)
    (hdistinct : (n.blocks e.store.content).Nodup)
    (hblocks : ∀ s ∈ n.blocks e.store.content, s ≠ sector ∧ s.toNat < e.store.size ∧
      e.map.bitmap.used? s.toNat = some true)
    (hself : sector.toNat < e.store.size ∧ e.map.bitmap.used? sector.toNat = some true)
    (length : Nat) :
    ∃ r e', Engine.run (n.resize sector length) e = .ok r e' ∧
      ∀ m, r = .ok m → ResizedTo e e' n m sector length := by
  have hplaced : n.Placed sector e.medium := {
    ready := ⟨hgiven, hdistinct, fun s hs => (hblocks s hs).2.1, fun s hs => (hblocks s hs).2.2⟩
    exists_self := hself.1
    used_self := hself.2
    self_notMem := fun hmem => (hblocks sector hmem).1 rfl
  }
  by_cases hlength : length ≤ maxLength
  · rcases Nat.lt_or_ge e.map.supply.length
      ((n.forest e.store.content).lacking (dataBlocks length)) with hfew | henough
    · obtain ⟨d', heval, _⟩ := eval_resize_of_lacking hplaced hlength hfew
      obtain ⟨e', hrun, _⟩ := Engine.run_of_eval_ok hcoherent heval
      exact ⟨_, e', hrun, fun m hm => absurd hm (by simp)⟩
    · obtain ⟨taken, rest, hsupply, htaken⟩ :
          ∃ taken rest, e.medium.map.supply = taken ++ rest ∧
            taken.length = (n.forest e.medium.content).lacking (dataBlocks length) :=
        ⟨_, _, (List.take_append_drop _ _).symm, List.length_take_of_le henough⟩
      obtain ⟨m, d', heval, hresized⟩ := eval_resize_of_supply hplaced hlength hsupply htaken
      obtain ⟨e', hrun, hcoherent', hmedium⟩ := Engine.run_of_eval_ok hcoherent heval
      refine ⟨_, e', hrun, ?_⟩
      rintro _ ⟨rfl⟩
      subst hmedium
      exact resizedTo_of_resized hcoherent hcoherent' hplaced hsupply hlength hresized
  · have heval : (n.resize sector length).eval e.medium = .ok (.error .tooLarge, e.medium) :=
      eval_resize_of_tooLarge (Nat.lt_of_not_le hlength)
    obtain ⟨e', hrun, _⟩ := Engine.run_of_eval_ok hcoherent heval
    exact ⟨_, e', hrun, fun m hm => absurd hm (by simp)⟩

end Inode

/-- Eight sectors behind a cache of one slot. The first two sectors are in use. -/
def Engine.small : Engine RamDisk where
  store := ⟨Cache.empty 1 (by decide), Metered.ofDevice (RamDisk.blank 8)⟩
  map := FreeMap.ofBitmap (((Bitmap.blank 8).assign 0 true).assign 1 true)

namespace Engine

theorem coherent_small : small.store.Coherent := Cached.coherent_empty 1 (by decide) _

theorem used?_small (i : Nat) : small.map.bitmap.used? i =
    if i = 1 then some true else if i = 0 then some true else (Bitmap.blank 8).used? i := by
  have hzero : ((Bitmap.blank 8).used? 0).isSome := Bitmap.used?_isSome_of_lt (by decide)
  have hone : (((Bitmap.blank 8).assign 0 true).used? 1).isSome :=
    Bitmap.used?_isSome_of_lt (by decide)
  change (((Bitmap.blank 8).assign 0 true).assign 1 true).used? i = _
  rw [Bitmap.used?_assign _ _ _ _ hone, Bitmap.used?_assign _ _ _ _ hzero]

theorem tail_small {i : Nat} (hi : small.map.bitmap.used? i = some false) : i ≠ 0 ∧ i < 8 := by
  rw [used?_small] at hi
  split at hi
  · exact absurd hi (by decide)
  · split at hi
    · exact absurd hi (by decide)
    · exact ⟨by assumption, Bitmap.used?_blank_eq_some_false.1 hi⟩

theorem size_small : small.store.size = 8 := Array.size_replicate

theorem within_small : small.map.bitmap.Within small.store.size := by
  intro i hi
  have htail := tail_small hi
  have hsize : UInt32.size = 4294967296 := rfl
  rw [size_small]
  omega

end Engine

/-- An empty file gets two blocks. -/
theorem Inode.resize_blank_maps_exactly : ∃ m e',
    Engine.run ((blank false).resize 1 600) Engine.small = .ok (.ok m) e' ∧
      ResizedTo Engine.small e' (blank false) m 1 600 := by
  have hself : (1 : UInt32).toNat < Engine.small.store.size ∧
      Engine.small.map.bitmap.used? (1 : UInt32).toNat = some true := by
    rw [Engine.size_small, Engine.used?_small]
    decide
  have hblocks : (blank false).blocks Engine.small.store.content = [] := blocks_blank _ _
  obtain ⟨r, e', hrun, hresized⟩ := resize_maps_exactly Engine.coherent_small
    Engine.within_small (by rw [hblocks]; exact List.nodup_nil) (by rw [hblocks]; simp) hself 600
  have hok : (match Engine.run ((blank false).resize 1 600) Engine.small with
      | .ok (.ok _) _ => true
      | _ => false) = true := by
    decide +kernel
  rw [hrun] at hok
  cases r with
  | error refusal => exact absurd hok (by simp)
  | ok m => exact ⟨m, e', hrun, hresized m rfl⟩

end SectorVolume
