import SectorVolume.Proofs.Volume.Lifetimes

/-!
How many requests a resize makes. A file that has just the blocks of its length lacks as many
sectors for another length as the blocks that the two lengths take differ in number, so these
numbers and what the map has to give settle whether a resize is granted. A file that grows takes
the difference and returns nothing, one that shrinks returns it and takes nothing, and one that
keeps its number of data blocks is left as it is but for its length.
-/

namespace SectorVolume

namespace Inode

variable {d d' : Medium} {n m : Inode} {sector : UInt32} {length : Nat} {taken rest : List UInt32}

/-- A file that has the blocks of its length and no others. -/
structure Trim (n : Inode) (sector : UInt32) (d : Medium) : Prop extends n.Placed sector d where
  length_le : n.length.toNat ≤ maxLength
  fits : (n.forest d.content).Fits (dataBlocks n.length.toNat)

/-- What a resize that is granted leaves, and what it asked of the map for that. -/
structure Settled (d d' : Medium) (n m : Inode) (sector : UInt32) (length : Nat) : Prop where
  trim : m.Trim sector d'
  length_eq : m.length.toNat = length
  /-- A file that grows is granted the sectors that it lacks, and that is all. -/
  grown : n.length.toNat ≤ length → ∃ taken : List UInt32,
    taken.length = totalBlocks length - totalBlocks n.length.toNat ∧
      d'.map.ledger = taken.map (.granted · 1) ++ d.map.ledger
  /-- A file that shrinks returns the sectors that it needs no more, and that is all. -/
  shrunk : length ≤ n.length.toNat → ∃ returned : List UInt32,
    returned.length = totalBlocks n.length.toNat - totalBlocks length ∧
      d'.map.ledger = returned.map (.returned · 1) ++ d.map.ledger
  /-- A file that keeps its number of data blocks keeps its pointers, and no other sector and
  nothing of the map changes. -/
  same : dataBlocks length = dataBlocks n.length.toNat →
    m = { n with length := UInt32.ofNat length } ∧ d'.map = d.map ∧
      ∀ s, s ≠ sector → d'.content s = d.content s

theorem Resized.trim (htrim : n.Trim sector d) (hsupply : d.map.supply = taken ++ rest)
    (hle : length ≤ maxLength) (h : Resized d d' n m sector length taken) : m.Trim sector d' := by
  have hlength := h.length_eq hle
  exact {
    toPlaced := h.placed htrim.toPlaced hsupply
    length_le := by rwa [hlength]
    fits := by
      rw [hlength]
      exact h.refit.fits
  }

/-- No sector goes from a file that grows. -/
theorem Resized.map_of_grown (htrim : n.Trim sector d) (h : Resized d d' n m sector length taken)
    (hgrow : n.length.toNat ≤ length) : d'.map = d.map.grantAll taken := by
  rw [h.map, Forest.beyond_of_fits htrim.fits (dataBlocks_mono hgrow), FreeMap.takeBackAll_nil]

/-- No sector is taken for a file that shrinks. -/
theorem Resized.taken_eq_nil (htrim : n.Trim sector d) (h : Resized d d' n m sector length taken)
    (hshrink : length ≤ n.length.toNat) : taken = [] := by
  rw [← List.length_eq_zero_iff, h.refit.length_taken,
    Forest.lacking_of_fits_of_le htrim.fits (dataBlocks_mono hshrink)]

theorem Resized.length_beyond (htrim : n.Trim sector d) (h : Resized d d' n m sector length taken)
    (hle : length ≤ maxLength) (hshrink : length ≤ n.length.toNat) :
    ((n.forest d.content).beyond (dataBlocks length)).length =
      totalBlocks n.length.toNat - totalBlocks length := by
  have hperm := h.refit.sectors_perm.length_eq
  have hold : (n.forest d.content).sectors.length = totalBlocks n.length.toNat :=
    length_blocks_of_fits htrim.fits htrim.length_le
  have hnew : (m.forest d'.content).sectors.length = totalBlocks length :=
    length_blocks_of_fits h.refit.fits hle
  simp only [List.length_append, h.taken_eq_nil htrim hshrink, List.length_nil, hold,
    hnew] at hperm
  omega

/-- The trees are already what the length asks for, and the walk writes the index blocks back as
they were. -/
theorem Resized.same (htrim : n.Trim sector d) (h : Resized d d' n m sector length taken)
    (hblocks : dataBlocks length = dataBlocks n.length.toNat) :
    m = { n with length := UInt32.ofNat length } ∧ d'.map = d.map ∧
      ∀ s, s ≠ sector → d'.content s = d.content s := by
  have hfits := htrim.fits
  rw [← hblocks] at hfits
  obtain ⟨hforest, rfl⟩ := h.refit.eq_of_fits hfits
  obtain ⟨hroots, hnodes⟩ := forest_inj hforest
  obtain ⟨hdirect, hsingle, hdouble⟩ := eq_of_roots_eq hroots
  refine ⟨?_, ?_, fun s hs => ?_⟩
  · rw [h.same_record, hdirect, hsingle, hdouble]
  · rw [h.map, Forest.beyond_of_fits hfits (Nat.le_refl _)]
    rfl
  · by_cases hnode : s ∈ (n.forest d.content).nodes
    · have hnode' : s ∈ (m.forest d'.content).nodes := by rwa [hforest]
      exact hnodes s hnode'
    · exact h.kept s hs hnode (by simp)

theorem Resized.settled (htrim : n.Trim sector d) (hsupply : d.map.supply = taken ++ rest)
    (htaken : taken.length = totalBlocks length - totalBlocks n.length.toNat)
    (hle : length ≤ maxLength) (h : Resized d d' n m sector length taken) :
    Settled d d' n m sector length where
  trim := h.trim htrim hsupply hle
  length_eq := h.length_eq hle
  grown hgrow := by
    refine ⟨taken.reverse, by rw [List.length_reverse, htaken], ?_⟩
    rw [h.map_of_grown htrim hgrow, FreeMap.ledger_grantAll, List.map_reverse]
  shrunk hshrink := by
    refine ⟨((n.forest d.content).beyond (dataBlocks length)).reverse, ?_, ?_⟩
    · rw [List.length_reverse, h.length_beyond htrim hle hshrink]
    · rw [h.map, h.taken_eq_nil htrim hshrink, FreeMap.grantAll_nil, FreeMap.ledger_takeBackAll,
        List.map_reverse]
  same := h.same htrim

/-- What is undone is asked for until a request is refused, and returned in the opposite order. -/
theorem Undone.ledger (h : Undone d d') : d'.map.ledger =
    d.map.supply.map (.returned · 1) ++
      .refused 1 :: (d.map.supply.reverse.map (.granted · 1) ++ d.map.ledger) := by
  rw [h.map, FreeMap.ledger_takeBackAll, FreeMap.refuse, FreeMap.ledger_grantAll,
    List.map_reverse, List.reverse_reverse, List.map_reverse]

/-- Whether a file that has just the blocks of its length is resized depends on the number of
blocks that the two lengths take and on the number of sectors that the map has to give. A refusal
for want of sectors comes when all of these have been taken, and they are returned. -/
theorem resize_is_settled_by_counts {e : Engine RamDisk} {n : Inode} {sector : UInt32}
    (hcoherent : e.store.Coherent) (htrim : n.Trim sector e.medium) (length : Nat) :
    ∃ r e', Engine.run (n.resize sector length) e = .ok r e' ∧
      (r = .error .tooLarge ↔ maxLength < length) ∧
      (r = .error .noSpace ↔ length ≤ maxLength ∧
        e.map.space.available < totalBlocks length - totalBlocks n.length.toNat) ∧
      ((∃ m, r = .ok m) ↔ length ≤ maxLength ∧
        totalBlocks length - totalBlocks n.length.toNat ≤ e.map.space.available) ∧
      (r = .error .noSpace → n.length.toNat < length ∧ ∃ taken : List UInt32,
        taken.length = e.map.space.available ∧ e'.map.ledger =
          taken.map (.returned · 1) ++
            .refused 1 :: (taken.reverse.map (.granted · 1) ++ e.map.ledger)) ∧
      ∀ m, r = .ok m → e'.store.Coherent ∧ Settled e.medium e'.medium n m sector length := by
  have hsupply : e.medium.map.supply.length = e.map.space.available := FreeMap.length_supply _
  rcases Nat.lt_or_ge maxLength length with hlarge | hle
  · have heval : (n.resize sector length).eval e.medium = .ok (.error .tooLarge, e.medium) :=
      eval_resize_of_tooLarge hlarge
    obtain ⟨e', hrun, -⟩ := Engine.run_of_eval_ok hcoherent heval
    exact ⟨_, e', hrun, by simp [hlarge], by simp [Nat.not_le.2 hlarge],
      by simp [Nat.not_le.2 hlarge], by simp, by simp⟩
  · have hlacking := lacking_eq_sub htrim.fits htrim.length_le hle
    rcases Nat.lt_or_ge e.map.space.available
      (totalBlocks length - totalBlocks n.length.toNat) with hfew | henough
    · obtain ⟨d', heval, hundone⟩ := eval_resize_of_lacking htrim.toPlaced hle
        (by rw [hsupply, hlacking]; exact hfew)
      obtain ⟨e', hrun, -, rfl⟩ := Engine.run_of_eval_ok hcoherent heval
      refine ⟨_, e', hrun, by simp [Nat.not_lt.2 hle], by simp [hle, hfew],
        by simp [Nat.not_le.2 hfew], fun _ => ⟨?_, _, hsupply, hundone.ledger⟩, by simp⟩
      by_contra hshrink
      have hmono := totalBlocks_mono (Nat.le_of_not_lt hshrink)
      omega
    · obtain ⟨m, d', heval, hresized⟩ := eval_resize_of_supply htrim.toPlaced hle
        (List.take_append_drop _ e.medium.map.supply).symm
        (List.length_take_of_le (by rw [hsupply, hlacking]; exact henough))
      obtain ⟨e', hrun, hcoherent', rfl⟩ := Engine.run_of_eval_ok hcoherent heval
      refine ⟨_, e', hrun, by simp [Nat.not_lt.2 hle], by simp [Nat.not_lt.2 henough],
        by simp [hle, henough], by simp, ?_⟩
      rintro _ ⟨rfl⟩
      refine ⟨hcoherent', hresized.settled htrim (List.take_append_drop _ _).symm ?_ hle⟩
      rw [hresized.refit.length_taken, hlacking]

/-- An empty file that could have six blocks. -/
theorem trim_blank_small : (blank false).Trim 1 Engine.small.medium where
  ready := by
    have hblocks :
        (SectorVolume.forest Engine.small.medium.content (blank false).roots).sectors = [] :=
      blocks_blank _ _
    exact ⟨Engine.within_small, by rw [hblocks]; exact List.nodup_nil, by simp [hblocks],
      by simp [hblocks]⟩
  exists_self := by
    change 1 < Engine.small.store.size
    rw [Engine.size_small]
    decide
  used_self := Engine.used?_small 1
  self_notMem := by simp [blocks_blank]
  length_le := Nat.zero_le _
  fits := fits_blank _ _

/-- Six sectors are free: a seventh block is refused, and with six the file is as large as it can
be. -/
theorem resize_blank_is_settled :
    Engine.small.map.space.available = 6 ∧
    (∃ e', ∃ taken : List UInt32, Engine.run ((blank false).resize 1 3073) Engine.small =
        .ok (.error .noSpace) e' ∧ taken.length = 6 ∧ e'.map.ledger =
          taken.map (.returned · 1) ++ .refused 1 :: (taken.reverse.map (.granted · 1) ++ [])) ∧
    ∃ m e', Engine.run ((blank false).resize 1 3072) Engine.small = .ok (.ok m) e' ∧
      m.Trim 1 e'.medium ∧ ∃ taken : List UInt32, taken.length = 6 ∧
        e'.map.ledger = taken.map (.granted · 1) ++ [] := by
  have hspace : Engine.small.map.space.available = 6 := by decide +kernel
  refine ⟨hspace, ?_, ?_⟩
  · obtain ⟨r, e', hrun, -, hnoSpace, -, hledger, -⟩ :=
      resize_is_settled_by_counts Engine.coherent_small trim_blank_small 3073
    obtain rfl := hnoSpace.2 (by rw [hspace]; decide)
    obtain ⟨-, taken, htaken, hmap⟩ := hledger rfl
    rw [hspace] at htaken
    exact ⟨e', taken, hrun, htaken, hmap⟩
  · obtain ⟨r, e', hrun, -, -, hok, -, hsettled⟩ :=
      resize_is_settled_by_counts Engine.coherent_small trim_blank_small 3072
    obtain ⟨m, rfl⟩ := hok.2 (by rw [hspace]; decide)
    obtain ⟨-, h⟩ := hsettled m rfl
    obtain ⟨taken, htaken, hmap⟩ := h.grown (Nat.zero_le _)
    exact ⟨m, e', hrun, h.trim, taken, htaken, hmap⟩

end Inode

end SectorVolume
