import SectorVolume.Proofs.Index.Compose
import SectorVolume.Proofs.Resize.Tally

/-!
A resize forgets how the file came to the length it had. A file that grows in two steps is, at its
end, the file that grows at once, down to the bytes of its index blocks and the bits of the
bitmap; a file that grows and is cut back is the file that was made that short in the first place.
The sectors come off the front of the supply in the order in which the blocks are missing, so the
shorter growth has the first of the sectors that the longer one has.
-/

namespace SectorVolume

namespace Bitmap.Within

variable {b c : Bitmap} {size : Nat}

/-- A clear bit stands for a sector, so it is clear in the other map too if that has no more
sectors in use. -/
theorem used?_of_clear (hb : b.Within size) (hcap : b.capacity = c.capacity)
    (h : ∀ s : UInt32, c.used? s.toNat = some true → b.used? s.toNat = some true) {i : Nat}
    (hi : b.used? i = some false) : c.used? i = some false := by
  have hthere : (c.used? i).isSome := by
    rw [used?_isSome_iff, ← hcap, ← used?_isSome_iff, hi]
    rfl
  obtain ⟨used, hused⟩ := Option.isSome_iff_exists.1 hthere
  cases used with
  | false => exact hused
  | true =>
    have hnumber : (UInt32.ofNat i).toNat = i := UInt32.toNat_ofNat_of_lt' (hb i hi).2.2
    have hboth := h (UInt32.ofNat i)
    rw [hnumber, hused, hi] at hboth
    exact absurd (hboth rfl) (by simp)

/-- Two maps of one disk with the same sectors in use are the same. -/
theorem eq_of_used (hb : b.Within size) (hc : c.Within size) (hcap : b.capacity = c.capacity)
    (h : ∀ s : UInt32, b.used? s.toNat = some true ↔ c.used? s.toNat = some true) : b = c := by
  apply eq_of_used? hcap
  intro i
  have hclear : b.used? i = some false ↔ c.used? i = some false :=
    ⟨hb.used?_of_clear hcap fun s => (h s).2, hc.used?_of_clear hcap.symm fun s => (h s).1⟩
  have hthere : (b.used? i).isSome ↔ (c.used? i).isSome := by
    rw [used?_isSome_iff, used?_isSome_iff, hcap]
  rcases hbit : b.used? i with _ | _ | _ <;> rcases hbit' : c.used? i with _ | _ | _
  all_goals simp [hbit, hbit'] at hclear hthere ⊢

end Bitmap.Within

namespace Inode

/-- The second medium has the file with the inode `m` as the first has it, with the same bits. -/
structure Alike (d d' : Medium) (m : Inode) (sector : UInt32) : Prop where
  tree : m.forest d'.content = m.forest d.content
  index : ∀ s ∈ (m.forest d.content).nodes, d'.content s = d.content s
  data : ∀ i s, (m.forest d.content).block? i = some s → d'.content s = d.content s
  stored : d'.content sector = d.content sector
  bitmap : d'.map.bitmap = d.map.bitmap

/-- A resize of a file that has just the blocks of its length, with the first of the sectors that
the map has to give. -/
structure Granted (d d' : Medium) (n m : Inode) (sector : UInt32) (length : Nat)
    (taken : List UInt32) : Prop extends Resized d d' n m sector length taken where
  trim_before : n.Trim sector d
  supply : ∃ rest, d.map.supply = taken ++ rest
  length_le : length ≤ maxLength

namespace Granted

variable {d d' d₁ d₂ : Medium} {n m m₁ m₂ : Inode} {sector : UInt32} {length other : Nat}
  {taken taken₁ taken₂ : List UInt32}

theorem trim (h : Granted d d' n m sector length taken) : m.Trim sector d' := by
  obtain ⟨rest, hsupply⟩ := h.supply
  exact h.toResized.trim h.trim_before hsupply h.length_le

theorem used_iff (h : Granted d d' n m sector length taken) (s : UInt32) :
    d'.map.bitmap.used? s.toNat = some true ↔
      (d.map.bitmap.used? s.toNat = some true ∧ s ∉ n.blocks d.content) ∨
        s ∈ m.blocks d'.content := by
  obtain ⟨rest, hsupply⟩ := h.supply
  exact h.toResized.used_iff h.trim_before.toPlaced hsupply s

/-- A block of the file is an old one, or it was free. -/
theorem mem_old_or_free (h : Granted d d' n m sector length taken) {s : UInt32}
    (hs : s ∈ m.blocks d'.content) :
    s ∈ n.blocks d.content ∨ d.map.bitmap.used? s.toNat = some false := by
  obtain ⟨rest, hsupply⟩ := h.supply
  rcases ((h.mem_blocks h.trim_before.toPlaced hsupply).1 hs).1 with hold | hnew
  · exact Or.inl hold
  · exact Or.inr (h.trim_before.ready.free_of_mem_taken hsupply hnew)

/-- The bytes of a data block are those it had, or zeroes. -/
theorem content_of_block (h : Granted d d' n m sector length taken) {i : Nat} {s : UInt32}
    (hs : (m.forest d'.content).block? i = some s) :
    d'.content s = ((n.forest d.content).block? i).elim Sector.zero d.content := by
  obtain ⟨rest, hsupply⟩ := h.supply
  have hi : i < dataBlocks length := by
    by_contra hi
    rw [Forest.block?_of_fits h.refit.fits (Nat.le_of_not_lt hi)] at hs
    exact absurd hs (by simp)
  obtain ⟨t, ht, hcontent⟩ :=
    content_of_resized h.trim_before.toPlaced hsupply h.toResized hi h.length_le
  obtain rfl : s = t := Option.some.inj (hs.symm.trans ht)
  rcases hcontent with ⟨hold, hkept⟩ | ⟨hold, hzero⟩
  · rw [hold, Option.elim_some, hkept]
  · rw [hold, Option.elim_none, hzero]

/-- A length on the way that is past the end of the file or past the last length loses no bytes of
what stays. -/
theorem content_of_block_twice (h₁ : Granted d d₁ n m₁ sector other taken₁)
    (h₂ : Granted d₁ d₂ m₁ m₂ sector length taken₂)
    (hway : n.length.toNat ≤ other ∨ length ≤ other) {i : Nat} {s : UInt32}
    (hs : (m₂.forest d₂.content).block? i = some s) :
    d₂.content s = ((n.forest d.content).block? i).elim Sector.zero d.content := by
  rw [h₂.content_of_block hs]
  rcases Nat.lt_or_ge i (dataBlocks other) with hi | hi
  · have hspan : i < (m₁.forest d₁.content).span := by
      rw [span_forest]
      exact Nat.lt_of_lt_of_le hi (dataBlocks_le_maxBlocks_iff.2 h₁.length_le)
    obtain ⟨t, ht⟩ :=
      Option.isSome_iff_exists.1 ((Forest.isSome_block?_of_fits h₁.refit.fits hspan).2 hi)
    rw [ht, Option.elim_some, h₁.content_of_block ht]
  · have hgrow : n.length.toNat ≤ other := by
      refine hway.resolve_right fun hle => ?_
      rw [Forest.block?_of_fits h₂.refit.fits (Nat.le_trans (dataBlocks_mono hle) hi)] at hs
      exact absurd hs (by simp)
    -- behind both the file and the length on the way
    rw [Forest.block?_of_fits h₁.refit.fits hi,
      Forest.block?_of_fits h₁.trim_before.fits (Nat.le_trans (dataBlocks_mono hgrow) hi),
      Option.elim_none, Option.elim_none]

/-- A file that comes to a length by way of another one is as the file that is brought there at
once, if it has the same trees and the same bits. -/
theorem alike (h : Granted d d' n m sector length taken)
    (h₁ : Granted d d₁ n m₁ sector other taken₁) (h₂ : Granted d₁ d₂ m₁ m₂ sector length taken₂)
    (hway : n.length.toNat ≤ other ∨ length ≤ other)
    (hforest : m₂.forest d₂.content = m.forest d'.content)
    (hbitmap : d₂.map.bitmap = d'.map.bitmap) : m₂ = m ∧ Alike d' d₂ m sector := by
  obtain ⟨hroots, hnodes⟩ := forest_inj hforest
  obtain ⟨hdirect, hsingle, hdouble⟩ := eq_of_roots_eq hroots
  obtain rfl : m₂ = m := by
    rw [h₂.same_record, h₁.same_record, h.same_record, hdirect, hsingle, hdouble]
  refine ⟨rfl, hforest, ?_, ?_, ?_, hbitmap⟩
  · intro s hs
    rw [← hforest] at hs
    exact hnodes s hs
  · intro i s hs
    rw [h.content_of_block hs]
    rw [← hforest] at hs
    exact h₁.content_of_block_twice h₂ hway hs
  · rw [h₂.stored, h.stored]

/-- Two steps of growth are one. -/
theorem alike_of_grown (h : Granted d d' n m sector length (taken₁ ++ taken₂))
    (h₁ : Granted d d₁ n m₁ sector other taken₁) (h₂ : Granted d₁ d₂ m₁ m₂ sector length taken₂)
    (hgrow : n.length.toNat ≤ other) (hle : other ≤ length) : m₂ = m ∧ Alike d' d₂ m sector := by
  have hlength : m₁.length.toNat = other := h₁.length_eq h₁.length_le
  have hboth := h₁.refit.trans h₂.refit h₁.trim_before.fits (dataBlocks_mono hgrow)
    (dataBlocks_mono hle)
  refine h.alike h₁ h₂ (Or.inl hgrow) (hboth.unique h.refit) ?_
  rw [h₂.map_of_grown h₁.trim (by omega), h₁.map_of_grown h₁.trim_before hgrow,
    h.map_of_grown h.trim_before (Nat.le_trans hgrow hle), FreeMap.grantAll_append]

/-- The sectors in use after two steps. What the first took and the second gave back is free, as
it was before. -/
theorem used_iff_twice (h₁ : Granted d d₁ n m₁ sector other taken₁)
    (h₂ : Granted d₁ d₂ m₁ m₂ sector length taken₂) (s : UInt32) :
    d₂.map.bitmap.used? s.toNat = some true ↔
      (d.map.bitmap.used? s.toNat = some true ∧ s ∉ n.blocks d.content) ∨
        s ∈ m₂.blocks d₂.content := by
  rw [h₂.used_iff, h₁.used_iff]
  constructor
  · rintro (⟨hold | hblock, hnot⟩ | hnew)
    · exact Or.inl hold
    · exact absurd hblock hnot
    · exact Or.inr hnew
  · rintro (⟨hused, hold⟩ | hnew)
    · refine Or.inl ⟨Or.inl ⟨hused, hold⟩, fun hblock => ?_⟩
      have hfree := (h₁.mem_old_or_free hblock).resolve_left hold
      rw [hused] at hfree
      exact absurd hfree (by simp)
    · exact Or.inr hnew

theorem capacity_eq (h : Granted d d' n m sector length taken) :
    d'.map.bitmap.capacity = d.map.bitmap.capacity := by
  rw [h.map, FreeMap.capacity_takeBackAll, FreeMap.capacity_grantAll]

/-- A growth and a cut behind it are what the shorter length makes of the file. -/
theorem alike_of_cut (h : Granted d d' n m sector length taken)
    (h₁ : Granted d d₁ n m₁ sector other taken₁) (h₂ : Granted d₁ d₂ m₁ m₂ sector length taken₂)
    (hle : length ≤ other)
    (hcut : (n.forest d.content).Refit (dataBlocks length) (m₂.forest d₂.content) taken) :
    m₂ = m ∧ Alike d' d₂ m sector := by
  have hforest := hcut.unique h.refit
  have hblocks : m₂.blocks d₂.content = m.blocks d'.content := congrArg Forest.sectors hforest
  refine h.alike h₁ h₂ (Or.inr hle) hforest ?_
  have hwithin : d₂.map.bitmap.Within d'.size := by
    rw [h.size, ← h₁.size, ← h₂.size]
    exact h₂.trim.ready.within
  refine hwithin.eq_of_used h.trim.ready.within ?_ fun s => ?_
  · rw [h₂.capacity_eq, h₁.capacity_eq, h.capacity_eq]
  · rw [h₁.used_iff_twice h₂, h.used_iff, hblocks]

end Granted

namespace Trim

variable {e e' : Engine RamDisk} {n m : Inode} {sector : UInt32} {length shorter longer : Nat}

theorem exists_run (htrim : n.Trim sector e.medium) (hcoherent : e.store.Coherent)
    (hmax : length ≤ maxLength) {taken rest : List UInt32}
    (hsupply : e.medium.map.supply = taken ++ rest)
    (htaken : taken.length = (n.forest e.medium.content).lacking (dataBlocks length)) :
    ∃ m e', Engine.run (n.resize sector length) e = .ok (.ok m) e' ∧ e'.store.Coherent ∧
      Granted e.medium e'.medium n m sector length taken := by
  obtain ⟨m, d', heval, hresized⟩ := eval_resize_of_supply htrim.toPlaced hmax hsupply htaken
  obtain ⟨e', hrun, hcoherent', rfl⟩ := Engine.run_of_eval_ok hcoherent heval
  exact ⟨m, e', hrun, hcoherent', hresized, htrim, ⟨rest, hsupply⟩, hmax⟩

/-- What a resize that succeeded has done. -/
theorem granted_of_run (htrim : n.Trim sector e.medium) (hcoherent : e.store.Coherent)
    (hrun : Engine.run (n.resize sector length) e = .ok (.ok m) e') :
    e'.store.Coherent ∧ ∃ taken, Granted e.medium e'.medium n m sector length taken := by
  have hno :
      ∀ {refusal d'}, (n.resize sector length).eval e.medium ≠ .ok (.error refusal, d') := by
    intro refusal d' heval
    obtain ⟨e'', hrun', -⟩ := Engine.run_of_eval_ok hcoherent heval
    rw [hrun] at hrun'
    simp at hrun'
  by_cases hmax : length ≤ maxLength
  · rcases Nat.lt_or_ge e.medium.map.supply.length
      ((n.forest e.medium.content).lacking (dataBlocks length)) with hfew | henough
    · obtain ⟨d', heval, -⟩ := eval_resize_of_lacking htrim.toPlaced hmax hfew
      exact absurd heval hno
    · obtain ⟨m', e'', hrun', hcoherent', hgranted⟩ := htrim.exists_run hcoherent hmax
        (List.take_append_drop _ _).symm (List.length_take_of_le henough)
      rw [hrun] at hrun'
      obtain ⟨rfl, rfl⟩ : m = m' ∧ e' = e'' := by simpa using hrun'
      exact ⟨hcoherent', _, hgranted⟩
  · exact absurd (eval_resize_of_tooLarge (Nat.lt_of_not_le hmax)) hno

/-- A growth that succeeds also succeeds with a stop at a length on its way. -/
theorem grow_twice (htrim : n.Trim sector e.medium) (hcoherent : e.store.Coherent)
    (hrun : Engine.run (n.resize sector longer) e = .ok (.ok m) e')
    (hgrow : n.length.toNat ≤ shorter)
    (hle : shorter ≤ longer) :
    ∃ m₁ e₁ e₂, Engine.run (n.resize sector shorter) e = .ok (.ok m₁) e₁ ∧
      m₁.length.toNat = shorter ∧ Engine.run (m₁.resize sector longer) e₁ = .ok (.ok m) e₂ ∧
      Alike e'.medium e₂.medium m sector := by
  obtain ⟨-, taken, hgranted⟩ := htrim.granted_of_run hcoherent hrun
  obtain ⟨rest, hsupply⟩ := hgranted.supply
  have hmax := hgranted.length_le
  have hmax₁ := Nat.le_trans hle hmax
  have htaken := hgranted.refit.length_taken
  have hmono := totalBlocks_mono hle
  have hlacking := lacking_eq_sub htrim.fits htrim.length_le hmax₁
  rw [lacking_eq_sub htrim.fits htrim.length_le hmax] at htaken
  -- the sectors that the shorter length lacks are the first of those that the longer one took
  obtain ⟨taken₁, taken₂, rfl, htaken₁⟩ : ∃ taken₁ taken₂, taken = taken₁ ++ taken₂ ∧
      taken₁.length = totalBlocks shorter - totalBlocks n.length.toNat :=
    ⟨_, _, (List.take_append_drop _ taken).symm, List.length_take_of_le (by omega)⟩
  rw [List.append_assoc] at hsupply
  obtain ⟨m₁, e₁, hrun₁, hcoherent₁, hgranted₁⟩ :=
    htrim.exists_run hcoherent hmax₁ hsupply (htaken₁.trans hlacking.symm)
  have hlength₁ : m₁.length.toNat = shorter := hgranted₁.length_eq hmax₁
  have hsupply₁ : e₁.medium.map.supply = taken₂ ++ rest := by
    rw [hgranted₁.map_of_grown htrim hgrow]
    exact FreeMap.supply_grantAll htrim.ready.within hsupply
  have htaken₂ : taken₂.length =
      (m₁.forest e₁.medium.content).lacking (dataBlocks longer) := by
    have hmono₀ := totalBlocks_mono hgrow
    rw [List.length_append] at htaken
    rw [lacking_eq_sub hgranted₁.trim.fits hgranted₁.trim.length_le hmax, hlength₁]
    omega
  obtain ⟨m₂, e₂, hrun₂, -, hgranted₂⟩ :=
    hgranted₁.trim.exists_run hcoherent₁ hmax hsupply₁ htaken₂
  obtain ⟨rfl, halike⟩ := hgranted.alike_of_grown hgranted₁ hgranted₂ hgrow hle
  exact ⟨m₁, e₁, e₂, hrun₁, hlength₁, hrun₂, halike⟩

/-- A file that was resized is cut back to what the shorter length alone makes of it. -/
theorem cut_back (htrim : n.Trim sector e.medium) (hcoherent : e.store.Coherent)
    (hrun : Engine.run (n.resize sector longer) e = .ok (.ok m) e') (hle : shorter ≤ longer) :
    ∃ m₁ e₁ e₂, Engine.run (n.resize sector shorter) e = .ok (.ok m₁) e₁ ∧
      m₁.length.toNat = shorter ∧ Engine.run (m.resize sector shorter) e' = .ok (.ok m₁) e₂ ∧
      Alike e₁.medium e₂.medium m₁ sector := by
  obtain ⟨hcoherent', taken, hgranted⟩ := htrim.granted_of_run hcoherent hrun
  obtain ⟨rest, hsupply⟩ := hgranted.supply
  have hmax₁ := Nat.le_trans hle hgranted.length_le
  have hnone := Forest.lacking_of_fits_of_le hgranted.refit.fits (dataBlocks_mono hle)
  obtain ⟨m₂, e₂, hrun₂, -, hgranted₂⟩ := hgranted.trim.exists_run hcoherent' hmax₁
    (List.nil_append _).symm hnone.symm
  obtain ⟨first, later, rfl, hcut⟩ := hgranted.refit.cut hgranted₂.refit (dataBlocks_mono hle)
  rw [List.append_assoc] at hsupply
  obtain ⟨m₁, e₁, hrun₁, -, hgranted₁⟩ :=
    htrim.exists_run hcoherent hmax₁ hsupply hcut.length_taken
  obtain ⟨rfl, halike⟩ := hgranted₁.alike_of_cut hgranted hgranted₂ hle hcut
  exact ⟨m₂, e₁, e₂, hrun₁, hgranted₂.length_eq hmax₁, hrun₂, halike⟩

end Trim

/-- A file that is resized has the length asked for, and keeps no trace of those it had on the
way. Where a resize to the longer of two lengths succeeds, a file that is not longer than the
shorter one grows to the same inode, the same index blocks and the same bitmap in two steps. A
file that was resized to the longer length first is, cut to the shorter one, the file that was
resized to the shorter one alone. -/
theorem resize_keeps_no_trace {e e' : Engine RamDisk} {n m : Inode} {sector : UInt32}
    (hcoherent : e.store.Coherent) (htrim : n.Trim sector e.medium) {shorter longer : Nat}
    (hle : shorter ≤ longer) (hrun : Engine.run (n.resize sector longer) e = .ok (.ok m) e') :
    m.length.toNat = longer ∧
    (n.length.toNat ≤ shorter → ∃ m₁ e₁ e₂,
      Engine.run (n.resize sector shorter) e = .ok (.ok m₁) e₁ ∧ m₁.length.toNat = shorter ∧
      Engine.run (m₁.resize sector longer) e₁ = .ok (.ok m) e₂ ∧
      Alike e'.medium e₂.medium m sector) ∧
    ∃ m₁ e₁ e₂, Engine.run (n.resize sector shorter) e = .ok (.ok m₁) e₁ ∧
      m₁.length.toNat = shorter ∧ Engine.run (m.resize sector shorter) e' = .ok (.ok m₁) e₂ ∧
      Alike e₁.medium e₂.medium m₁ sector := by
  obtain ⟨-, taken, hgranted⟩ := htrim.granted_of_run hcoherent hrun
  exact ⟨hgranted.length_eq hgranted.length_le,
    fun hgrow => htrim.grow_twice hcoherent hrun hgrow hle, htrim.cut_back hcoherent hrun hle⟩

/-- Four blocks at once, two and then four, and four cut back to two. -/
theorem resize_blank_keeps_no_trace : ∃ m e',
    Engine.run ((blank false).resize 1 2000) Engine.small = .ok (.ok m) e' ∧
    m.length.toNat = 2000 ∧
    (∃ m₁ e₁ e₂, Engine.run ((blank false).resize 1 600) Engine.small = .ok (.ok m₁) e₁ ∧
      m₁.length.toNat = 600 ∧ Engine.run (m₁.resize 1 2000) e₁ = .ok (.ok m) e₂ ∧
      Alike e'.medium e₂.medium m 1) ∧
    ∃ m₁ e₁ e₂, Engine.run ((blank false).resize 1 600) Engine.small = .ok (.ok m₁) e₁ ∧
      m₁.length.toNat = 600 ∧ Engine.run (m.resize 1 600) e' = .ok (.ok m₁) e₂ ∧
      Alike e₁.medium e₂.medium m₁ 1 := by
  have hspace : Engine.small.medium.map.supply.length = 6 := by
    rw [FreeMap.length_supply]
    decide +kernel
  have hlacking :
      ((blank false).forest Engine.small.medium.content).lacking (dataBlocks 2000) = 4 := by
    rw [lacking_eq_sub trim_blank_small.fits (Nat.zero_le _) (by decide)]
    decide
  have htaken : (Engine.small.medium.map.supply.take 4).length =
      ((blank false).forest Engine.small.medium.content).lacking (dataBlocks 2000) := by
    rw [List.length_take, hspace, hlacking]
    rfl
  obtain ⟨m, e', hrun, -⟩ := trim_blank_small.exists_run Engine.coherent_small (by decide)
    (List.take_append_drop 4 _).symm htaken
  obtain ⟨hlength, hgrown, hcut⟩ :=
    resize_keeps_no_trace Engine.coherent_small trim_blank_small (by decide : 600 ≤ 2000) hrun
  exact ⟨m, e', hrun, hlength, hgrown (Nat.zero_le _), hcut⟩

end Inode

end SectorVolume
