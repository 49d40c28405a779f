import SectorVolume.Proofs.Cache.Devices
import SectorVolume.Proofs.Script.Medium

/-!
Writes beyond the end of the disk. A cache takes such a write and fails only when it has to pass
it on, so until then it holds a sector that the disk does not have. A run that a plain medium
would have refused leaves such a sector behind, and no later success takes it away.
-/

namespace SectorVolume

theorem Metered.lt_of_read_ok {d d' : Metered RamDisk} {i : Nat} {s : Sector}
    (h : Metered.read i d = .ok s d') :
    i < d.device.sectors.size ∧ d'.device = d.device := by
  by_cases hi : i < d.device.sectors.size
  · rw [read_of_lt hi, EStateM.Result.ok.injEq] at h
    exact ⟨hi, by rw [← h.2]⟩
  · simp [read, BlockDevice.readSector, RamDisk.sector, hi] at h

theorem Metered.lt_of_write_ok {d d' : Metered RamDisk} {i : Nat} {s : Sector}
    (h : Metered.write i s d = .ok () d') :
    i < d.device.sectors.size ∧ d'.device.sectors.size = d.device.sectors.size := by
  by_cases hi : i < d.device.sectors.size
  · rw [write_of_lt hi, EStateM.Result.ok.injEq] at h
    exact ⟨hi, by rw [← h.2, Array.size_setIfInBounds]⟩
  · simp [write, BlockDevice.writeSector, RamDisk.setSector, hi] at h

namespace Cached

variable {α : Type} {c d : Cached RamDisk}

/-- A slot was filled with sector `s`. What it held and the disk lacked has been written. -/
structure Filled (c d : Cached RamDisk) (i : Nat) (s : UInt32) (changed : Bool) : Prop where
  size : d.size = c.size
  slot : ∃ x p, d.cache.held? i = some (s, x, p) ∧ (changed = true → p = true)
  other : ∀ j, j ≠ i → d.cache.held? j = c.cache.held? j
  evicted : ∀ k y, c.cache.held? i = some (k, y, true) →
    k.toNat < c.size ∨ k = s ∧ ∃ x, d.cache.held? i = some (s, x, true)

theorem vacate_ok {slot : Slot} (h : vacate slot c = .ok () d) :
    d.cache.slots = c.cache.slots ∧ d.cache.hand = c.cache.hand ∧ d.size = c.size ∧
      ∀ line, slot = some line → line.dirty = true → line.sector.toNat < c.size := by
  cases slot with
  | none =>
    cases h
    exact ⟨rfl, rfl, rfl, fun line hline => absurd hline (by simp)⟩
  | some line =>
    obtain ⟨_, c₁, hcount, hrest⟩ := exists_of_bind_ok h
    cases hcount
    cases hdirty : line.dirty with
    | false =>
      simp only [hdirty] at hrest
      cases hrest
      refine ⟨rfl, rfl, rfl, fun line' hline hdirty' => ?_⟩
      cases hline
      rw [hdirty] at hdirty'
      exact absurd hdirty' (by decide)
    | true =>
      simp only [hdirty] at hrest
      obtain ⟨_, c₂, hwrite, hback⟩ := exists_of_bind_ok hrest
      obtain ⟨hdisk, hcache⟩ := onDisk_eq_ok hwrite
      obtain ⟨hlt, hsize⟩ := Metered.lt_of_write_ok hdisk
      cases hback
      refine ⟨?_, ?_, hsize, fun line' hline _ => ?_⟩
      · change c₂.cache.slots = _
        rw [hcache]
        rfl
      · change c₂.cache.hand = _
        rw [hcache]
        rfl
      · cases hline
        exact hlt

/-- A sector that is brought in takes the place of one that is written back if it has to be. -/
theorem bringIn_ok {s : UInt32} {needsData : Bool} {i : Nat} {line : Line}
    (h : bringIn s needsData c = .ok (i, line) d) :
    i < d.cache.slots.size ∧ line.sector = s ∧ d.size = c.size ∧
      (∀ j, j ≠ i → d.cache.held? j = c.cache.held? j) ∧
      (∀ k y, c.cache.held? i = some (k, y, true) → k.toNat < c.size) ∧
      (needsData = true → s.toNat < c.size) := by
  obtain ⟨_, _, hsweep, h⟩ := exists_of_bind_ok h
  cases hsweep
  obtain ⟨_, _, hget, h⟩ := exists_of_bind_ok h
  cases hget
  obtain ⟨_, c₁, hvacate, h⟩ := exists_of_bind_ok h
  obtain ⟨_, _, hset, h⟩ := exists_of_bind_ok h
  cases hset
  obtain ⟨hslots, hhand, hsize, hwritten⟩ := vacate_ok hvacate
  have hlt : c.cache.countMiss.sweep.hand < c₁.cache.slots.size := by
    rw [hslots]
    exact c.cache.countMiss.sweep.hand_lt
  have hother : ∀ line j, j ≠ c.cache.countMiss.sweep.hand →
      (c₁.cache.setCurrent line).held? j = c.cache.held? j := by
    intro line j hj
    rw [Cache.setCurrent, Cache.held?_setSlot _ _ _ _ c₁.cache.hand_lt, hhand, if_neg hj,
      Cache.held?, hslots]
    change c.cache.countMiss.sweep.held? j = _
    rw [Cache.held?_sweep, Cache.held?_countMiss]
  have hevicted : ∀ k y, c.cache.held? c.cache.countMiss.sweep.hand = some (k, y, true) →
      k.toNat < c.size := by
    intro k y he
    rw [← Cache.held?_countMiss, ← Cache.held?_sweep, Cache.held?_hand,
      Option.map_eq_some_iff] at he
    obtain ⟨out, hout, heq⟩ := he
    obtain rfl : out.sector = k := congrArg Prod.fst heq
    exact hwritten out hout (congrArg (fun e => e.2.2) heq)
  have hsize' : ∀ line, c.cache.countMiss.sweep.hand < (c₁.cache.setCurrent line).slots.size := by
    intro line
    rw [Cache.setCurrent, Cache.setSlot, Array.size_setIfInBounds]
    exact hlt
  cases needsData with
  | false =>
    cases h
    exact ⟨hsize' _, rfl, hsize, hother _, hevicted, fun hneeds => absurd hneeds (by decide)⟩
  | true =>
    obtain ⟨data, c₂, hread, h⟩ := exists_of_bind_ok h
    obtain ⟨hdisk, hcache⟩ := onDisk_eq_ok hread
    obtain ⟨hs, hdevice⟩ := Metered.lt_of_read_ok hdisk
    cases h
    refine ⟨?_, rfl, ?_, ?_, hevicted, fun _ => hsize ▸ hs⟩
    · rw [hcache]
      exact hsize' _
    · rw [size, hdevice]
      exact hsize
    · rw [hcache]
      exact hother _

/-- What an access that succeeds leaves, whatever the cache held before. -/
theorem perform_ok {s : UInt32} {a : Access α} {r : α} (h : perform s a c = .ok r d) :
    ∃ i, Filled c d i s a.writes := by
  cases hfind : c.cache.find? s with
  | some found =>
    obtain ⟨i, line⟩ := found
    obtain ⟨hslot, rfl⟩ := Cache.find?_eq_some hfind
    have hi : i < c.cache.slots.size := (Array.getElem?_eq_some_iff.1 hslot).1
    rw [perform_of_find?_eq_some hfind] at h
    obtain ⟨t, rfl⟩ := touch_ok h
    have hheld := Cache.held?_setSlot c.cache.countHit i
    refine ⟨i, rfl, ⟨t, line.dirty || a.writes, ?_, ?_⟩, ?_, ?_⟩
    · rw [hheld _ _ hi, if_pos rfl]
      rfl
    · intro hwrites
      rw [hwrites, Bool.or_true]
    · intro j hj
      rw [hheld _ _ hi, if_neg hj, Cache.held?_countHit]
    · intro k y he
      rw [Cache.held?_of_slot hslot, Option.some.injEq, Line.entry, Prod.mk.injEq,
        Prod.mk.injEq] at he
      obtain ⟨rfl, -, hdirty⟩ := he
      refine Or.inr ⟨rfl, t, ?_⟩
      rw [hheld _ _ hi, if_pos rfl, hdirty]
      rfl
  | none =>
    rw [perform_of_find?_eq_none hfind] at h
    obtain ⟨⟨i, line⟩, c₁, hbring, htouch⟩ := exists_of_bind_ok h
    obtain ⟨hi, rfl, hsize, hother, hevicted, -⟩ := bringIn_ok hbring
    obtain ⟨t, rfl⟩ := touch_ok htouch
    have hheld := Cache.held?_setSlot c₁.cache i
    refine ⟨i, hsize, ⟨t, line.dirty || a.writes, ?_, ?_⟩, ?_,
      fun k y he => Or.inl (hevicted k y he)⟩
    · rw [hheld _ _ hi, if_pos rfl]
      rfl
    · intro hwrites
      rw [hwrites, Bool.or_true]
    · intro j hj
      rw [hheld _ _ hi, if_neg hj, hother j hj]

/-- A sector whose bytes are needed is there, or is cached. -/
theorem perform_ok_of_needsData {s : UInt32} {a : Access α} {r : α} (h : perform s a c = .ok r d)
    (hneeds : a.needsData = true) (hfind : c.cache.find? s = none) : s.toNat < c.size := by
  rw [perform_of_find?_eq_none hfind] at h
  obtain ⟨⟨i, line⟩, c₁, hbring, -⟩ := exists_of_bind_ok h
  exact (bringIn_ok hbring).2.2.2.2.2 hneeds

/-- The cache holds a changed sector that the disk does not have. -/
def Stray (c : Cached RamDisk) : Prop :=
  ∃ i s x, c.cache.held? i = some (s, x, true) ∧ c.size ≤ s.toNat

theorem Coherent.not_stray (hc : c.Coherent) : ¬c.Stray := by
  rintro ⟨i, s, x, he, hs⟩
  exact Nat.not_lt.2 hs (hc.onDisk he)

/-- From `c` to `d` the disk has kept its size, and what was written beyond its end is still
there. -/
structure Confined (c d : Cached RamDisk) : Prop where
  size : d.size = c.size
  stray : c.Stray → d.Stray

theorem Confined.refl (c : Cached RamDisk) : Confined c c := ⟨rfl, id⟩

theorem Confined.trans {e : Cached RamDisk} (h : Confined c d) (h' : Confined d e) :
    Confined c e :=
  ⟨h'.size.trans h.size, h'.stray ∘ h.stray⟩

theorem confined_perform {s : UInt32} {a : Access α} {r : α} (h : perform s a c = .ok r d) :
    Confined c d := by
  obtain ⟨i, hfilled⟩ := perform_ok h
  refine ⟨hfilled.size, ?_⟩
  rintro ⟨j, k, y, he, hk⟩
  by_cases hj : j = i
  · rw [hj] at he
    rcases hfilled.evicted k y he with hlt | ⟨rfl, x, hx⟩
    · exact absurd hlt (Nat.not_lt.2 hk)
    · exact ⟨i, k, x, hx, hfilled.size ▸ hk⟩
  · exact ⟨j, k, y, by rw [hfilled.other j hj, he], hfilled.size ▸ hk⟩

/-- An access to a sector that the disk does not have succeeds only as a write that stays in the
cache. -/
theorem Coherent.stray_of_perform {s : UInt32} {a : Access α} {r : α} (hc : c.Coherent)
    (hs : c.size ≤ s.toNat) (hneeds : a.needsData = true ∨ a.writes = true)
    (h : perform s a c = .ok r d) : d.Stray := by
  have hfind : c.cache.find? s = none := by
    rw [Cache.find?_eq_none_iff_entry]
    exact fun i x p he => Nat.not_lt.2 hs (hc.onDisk he)
  rcases hneeds with hneeds | hwrites
  · exact absurd (perform_ok_of_needsData h hneeds hfind) (Nat.not_lt.2 hs)
  · obtain ⟨i, hfilled⟩ := perform_ok h
    obtain ⟨x, p, hx, hp⟩ := hfilled.slot
    rw [hp hwrites] at hx
    exact ⟨i, s, x, hx, hfilled.size ▸ hs⟩

theorem confined_flushSlot {i : Nat} (h : flushSlot i c = .ok () d) : Confined c d := by
  obtain ⟨_, _, hget, h⟩ := exists_of_bind_ok h
  cases hget
  rcases hslot : c.cache.slots[i]? with _ | _ | line
  · rw [hslot] at h
    cases h
    exact .refl _
  · rw [hslot] at h
    cases h
    exact .refl _
  · rw [hslot] at h
    cases hdirty : line.dirty with
    | false =>
      simp only [hdirty] at h
      cases h
      exact .refl _
    | true =>
      simp only [hdirty] at h
      obtain ⟨_, c₁, hwrite, h⟩ := exists_of_bind_ok h
      cases h
      obtain ⟨hdisk, hcache⟩ := onDisk_eq_ok hwrite
      obtain ⟨hlt, hsize⟩ := Metered.lt_of_write_ok hdisk
      refine ⟨hsize, ?_⟩
      rintro ⟨j, k, y, he, hk⟩
      have hi : i < c.cache.slots.size := (Array.getElem?_eq_some_iff.1 hslot).1
      have hj : j ≠ i := by
        rintro rfl
        rw [Cache.held?_of_slot hslot, Option.some.injEq] at he
        obtain rfl : line.sector = k := congrArg Prod.fst he
        exact Nat.not_lt.2 hk hlt
      refine ⟨j, k, y, ?_, Nat.le_trans (Nat.le_of_eq hsize) hk⟩
      rw [hcache, Cache.held?_countWriteBack, Cache.held?_setSlot _ _ _ _ hi, if_neg hj, he]

theorem confined_flushSlots (slots : List Nat) (h : slots.forM flushSlot c = .ok () d) :
    Confined c d := by
  induction slots generalizing c with
  | nil =>
    cases h
    exact .refl _
  | cons i rest ih =>
    obtain ⟨_, c₁, hslot, hrest⟩ := exists_of_bind_ok h
    exact (confined_flushSlot hslot).trans (ih hrest)

theorem confined_flush (h : flush c = .ok () d) : Confined c d :=
  confined_flushSlots (List.range c.cache.capacity) h

end Cached

namespace Engine

variable {α : Type}

theorem onStore_eq_ok {m : EStateM Fault (Cached RamDisk) α} {e e' : Engine RamDisk} {a : α}
    (h : onStore m e = .ok a e') : m e.store = .ok a e'.store ∧ e'.map = e.map := by
  cases hm : m e.store with
  | ok b c =>
    simp only [onStore, hm, EStateM.Result.ok.injEq] at h
    obtain ⟨rfl, rfl⟩ := h
    exact ⟨rfl, rfl⟩
  | error f c => simp [onStore, hm] at h

theorem onMap_eq_ok {m : EStateM Fault FreeMap α} {e e' : Engine RamDisk} {a : α}
    (h : onMap m e = .ok a e') : m e.map = .ok a e'.map ∧ e'.store = e.store := by
  cases hm : m e.map with
  | ok b map =>
    simp only [onMap, hm, EStateM.Result.ok.injEq] at h
    obtain ⟨rfl, rfl⟩ := h
    exact ⟨rfl, rfl⟩
  | error f map => simp [onMap, hm] at h

theorem release_eq_ok {s : UInt32} {count : Nat} {e e' : Engine RamDisk}
    (h : release s count e = .ok () e') :
    e.map.release s count = .ok e'.map ∧ e'.store = e.store := by
  cases hm : e.map.release s count with
  | ok map =>
    simp only [release, hm, EStateM.Result.ok.injEq] at h
    obtain ⟨-, rfl⟩ := h
    exact ⟨rfl, rfl⟩
  | error f => simp [release, hm] at h

theorem confined_run {p : Script α} {e e' : Engine RamDisk} {a : α} (h : run p e = .ok a e') :
    Cached.Confined e.store e'.store := by
  induction p generalizing e with
  | done b =>
    cases h
    exact .refl _
  | fail f => cases h
  | fetch s next ih =>
    obtain ⟨d, e₁, hperform, hrest⟩ := exists_of_bind_ok h
    exact (Cached.confined_perform (onStore_eq_ok hperform).1).trans (ih d hrest)
  | put s data next ih =>
    obtain ⟨_, e₁, hperform, hrest⟩ := exists_of_bind_ok h
    exact (Cached.confined_perform (onStore_eq_ok hperform).1).trans (ih hrest)
  | update s f next ih =>
    obtain ⟨_, e₁, hperform, hrest⟩ := exists_of_bind_ok h
    exact (Cached.confined_perform (onStore_eq_ok hperform).1).trans (ih hrest)
  | alloc next ih => exact ih _ (e := ⟨e.store, (e.map.alloc 1).2⟩) h
  | release s next ih =>
    obtain ⟨_, e₁, hrelease, hrest⟩ := exists_of_bind_ok h
    rw [← (release_eq_ok hrelease).2]
    exact ih hrest

theorem medium_of_perform {β : Type} {s : UInt32} {a : Access β} {r r' : β} {t : Sector}
    {e e' : Engine RamDisk} (hc : e.store.Coherent) (hs : s.toNat < e.store.size) (ha : a.Honest)
    (hbody : a.body (e.store.content s) = .ok (r, t))
    (h : onStore (Cached.perform s a) e = .ok r' e') :
    r' = r ∧ e'.store.Coherent ∧ e'.medium = e.medium.put s t := by
  obtain ⟨c, hrun, hc', hsize, hcontent⟩ := Cached.perform_of_body_ok hc hs ha hbody
  rw [onStore_of_ok hrun, EStateM.Result.ok.injEq] at h
  obtain ⟨rfl, rfl⟩ := h
  exact ⟨rfl, hc', medium_of_content hsize hcontent⟩

/-- A sector that the disk does not have is left behind to the end of the run. -/
theorem stray_of_missing {β : Type} {p : Script α} {s : UInt32} {a : Access β} {r : β} {b : α}
    {e e₁ e' : Engine RamDisk} (hc : e.store.Coherent) (hs : ¬s.toNat < e.medium.size)
    (ha : a.needsData = true ∨ a.writes = true)
    (hperform : onStore (Cached.perform s a) e = .ok r e₁)
    (hrest : run p e₁ = .ok b e') : e'.store.Stray :=
  (confined_run hrest).stray
    (hc.stray_of_perform (Nat.not_lt.1 hs) ha (onStore_eq_ok hperform).1)

/-- Where a script succeeds but would have failed on the medium, it has written beyond the end. -/
theorem stray_of_eval_error {p : Script α} {e e' : Engine RamDisk} {a : α} {f : Fault}
    (hc : e.store.Coherent) (heval : p.eval e.medium = .error f) (h : run p e = .ok a e') :
    e'.store.Stray := by
  induction p generalizing e with
  | done b => cases heval
  | fail g => cases h
  | fetch s next ih =>
    obtain ⟨d, e₁, hperform, hrest⟩ := exists_of_bind_ok h
    by_cases hs : s.toNat < e.medium.size
    · obtain ⟨rfl, hc₁, hmedium⟩ := medium_of_perform hc hs Access.honest_fetch rfl hperform
      have hsame : e.medium.put s (e.store.content s) = e.medium :=
        congrArg (fun content => Medium.mk e.store.size content e.map)
          (Function.update_eq_self ..)
      rw [Script.eval, if_pos hs] at heval
      exact ih _ hc₁ (by rw [hmedium, hsame]; exact heval) hrest
    · exact stray_of_missing hc hs (Or.inl rfl) hperform hrest
  | put s data next ih =>
    obtain ⟨_, e₁, hperform, hrest⟩ := exists_of_bind_ok h
    by_cases hs : s.toNat < e.medium.size
    · obtain ⟨-, hc₁, hmedium⟩ := medium_of_perform hc hs (Access.honest_put data) rfl hperform
      rw [Script.eval, if_pos hs] at heval
      exact ih hc₁ (by rw [hmedium]; exact heval) hrest
    · exact stray_of_missing hc hs (Or.inr rfl) hperform hrest
  | update s g next ih =>
    obtain ⟨_, e₁, hperform, hrest⟩ := exists_of_bind_ok h
    by_cases hs : s.toNat < e.medium.size
    · rw [Script.eval, if_pos hs] at heval
      cases hg : g (e.store.content s) with
      | ok data =>
        obtain ⟨-, hc₁, hmedium⟩ := medium_of_perform hc hs (Access.honest_update g)
          (Access.body_update_of_ok hg) hperform
        rw [show g (e.medium.content s) = .ok data from hg] at heval
        exact ih hc₁ (by rw [hmedium]; exact heval) hrest
      | error k =>
        obtain ⟨c, hfail, -⟩ := Cached.perform_of_body_error hc hs (Access.honest_update g)
          (Access.body_update_of_error hg)
        rw [onStore_of_error hfail] at hperform
        cases hperform
    · exact stray_of_missing hc hs (Or.inl rfl) hperform hrest
  | alloc next ih => exact ih _ (e := ⟨e.store, (e.map.alloc 1).2⟩) hc heval h
  | release s next ih =>
    obtain ⟨_, e₁, hrelease, hrest⟩ := exists_of_bind_ok h
    obtain ⟨hmap, hstore⟩ := release_eq_ok hrelease
    rw [Script.eval, show e.medium.map.release s 1 = .ok e₁.map from hmap] at heval
    have hmedium : e₁.medium = { e.medium with map := e₁.map } := by
      simp only [medium, hstore]
    exact ih (hstore ▸ hc) (by rw [hmedium]; exact heval) hrest

/-- A script that succeeds has done what the medium says, or has written beyond the end. -/
theorem eval_or_stray {p : Script α} {e e' : Engine RamDisk} {a : α} (hc : e.store.Coherent)
    (h : run p e = .ok a e') :
    p.eval e.medium = .ok (a, e'.medium) ∧ e'.store.Coherent ∨ e'.store.Stray := by
  cases heval : p.eval e.medium with
  | error f => exact Or.inr (stray_of_eval_error hc heval h)
  | ok result =>
    obtain ⟨b, m⟩ := result
    obtain ⟨e₁, hrun, hc₁, rfl⟩ := run_of_eval_ok hc heval
    rw [hrun, EStateM.Result.ok.injEq] at h
    obtain ⟨rfl, rfl⟩ := h
    exact Or.inl ⟨rfl, hc₁⟩

end Engine

end SectorVolume
