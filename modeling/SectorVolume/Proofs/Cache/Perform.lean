import SectorVolume.Proofs.Cache.Content

/-!
Accesses through the cache. An access to an existing sector does its work on the content of the
sector, wherever the sector is kept, and what it leaves is again coherent. A flush leaves the
content as it is and makes the disk agree with it.
-/

namespace SectorVolume

/-- An access that keeps its word: it does not look at bytes it did not ask for, and changes none
unless it says so. -/
structure Access.Honest {α : Type} (a : Access α) : Prop where
  blind : a.needsData = false → ∃ r t, ∀ s, a.body s = .ok (r, t)
  quiet : a.writes = false → ∀ s r t, a.body s = .ok (r, t) → t = s

theorem Access.honest_fetch : Access.fetch.Honest where
  blind h := absurd h (by decide)
  quiet _ s r t h := by
    simp only [fetch, Except.ok.injEq, Prod.mk.injEq] at h
    exact h.2.symm

theorem Access.honest_put (data : Sector) : (Access.put data).Honest where
  blind _ := ⟨(), data, fun _ => rfl⟩
  quiet h := absurd h (by simp [put])

theorem Access.honest_update (f : Sector → Except Fault Sector) : (Access.update f).Honest where
  blind h := absurd h (by simp [update])
  quiet h := absurd h (by simp [update])

theorem Access.body_update_of_ok {f : Sector → Except Fault Sector} {s t : Sector}
    (h : f s = .ok t) : (update f).body s = .ok ((), t) := by
  change (f s).map _ = _
  rw [h]
  rfl

theorem Access.body_update_of_error {f : Sector → Except Fault Sector} {s : Sector} {e : Fault}
    (h : f s = .error e) : (update f).body s = .error e := by
  change (f s).map _ = _
  rw [h]
  rfl

theorem Metered.read_of_lt {d : Metered RamDisk} {i : Nat} (h : i < d.device.sectors.size) :
    Metered.read i d = .ok d.device.sectors[i] { d with reads := d.reads + 1 } := by
  simp [Metered.read, BlockDevice.readSector, RamDisk.sector, h]

theorem Metered.write_of_lt {d : Metered RamDisk} {i : Nat} {s : Sector}
    (h : i < d.device.sectors.size) :
    Metered.write i s d =
      .ok () ⟨⟨d.device.sectors.setIfInBounds i s⟩, d.reads, d.writes + 1⟩ := by
  simp [Metered.write, BlockDevice.writeSector, RamDisk.setSector, h]

namespace Cached

variable {α : Type}

theorem onDisk_of_ok {m : EStateM Fault (Metered RamDisk) α} {c : Cached RamDisk} {a : α}
    {disk : Metered RamDisk} (h : m c.disk = .ok a disk) :
    onDisk m c = .ok a ⟨c.cache, disk⟩ := by
  simp only [onDisk, h]

theorem entry_inj {line : Line} {k : UInt32} {y : Sector} {p : Bool}
    (h : some line.entry = some (k, y, p)) :
    line.sector = k ∧ line.data = y ∧ line.dirty = p := by
  simpa [Line.entry] using h

section Vacate

variable {c : Cached RamDisk} (hc : c.Coherent) {s : UInt32}
  (habsent : ∀ j x p, c.cache.held? j ≠ some (s, x, p)) {line : Line}
  (hentry : c.cache.held? c.cache.hand = some line.entry)

include hc habsent hentry

/-- What an unchanged line held is on the disk. -/
theorem freed_of_clean (hdirty : line.dirty = false) :
    Freed c ⟨c.cache.countEviction, c.disk⟩ c.cache.hand s := by
  refine ⟨rfl, fun _ _ => rfl, fun j x p _ => habsent j x p, ?_, fun _ _ => rfl⟩
  intro k y p he _
  rw [hentry] at he
  obtain ⟨rfl, rfl, rfl⟩ := entry_inj he
  apply hc.clean (i := c.cache.hand)
  rw [hentry, Line.entry, hdirty]

theorem freed_of_written : Freed c ⟨c.cache.countEviction.countWriteBack,
    ⟨⟨c.disk.device.sectors.setIfInBounds line.sector.toNat line.data⟩, c.disk.reads,
      c.disk.writes + 1⟩⟩ c.cache.hand s := by
  refine ⟨Array.size_setIfInBounds, fun _ _ => rfl, fun j x p _ => habsent j x p, ?_, ?_⟩
  · intro k y p he _
    rw [hentry] at he
    obtain ⟨rfl, rfl, rfl⟩ := entry_inj he
    exact Array.getElem?_setIfInBounds_self_of_lt (hc.onDisk hentry)
  · intro k hno
    have hne : line.sector.toNat ≠ k.toNat := by
      intro he
      obtain rfl : line.sector = k := UInt32.toNat_inj.1 he
      exact hno _ _ hentry
    exact Array.getElem?_setIfInBounds_ne hne

end Vacate

/-- A slot is written back before it is reused, so that a sector that is not cached may take
it. -/
theorem exists_vacate {c : Cached RamDisk} (hc : c.Coherent) {s : UInt32}
    (habsent : ∀ j x p, c.cache.held? j ≠ some (s, x, p)) :
    ∃ d : Cached RamDisk, vacate c.cache.current c = .ok () d ∧
      d.cache.slots = c.cache.slots ∧ d.cache.hand = c.cache.hand ∧
      Freed c d c.cache.hand s := by
  have hentry := c.cache.held?_hand
  cases hslot : c.cache.current with
  | none =>
    rw [hslot] at hentry
    refine ⟨c, rfl, rfl, rfl, rfl, fun _ _ => rfl, fun j x p _ => habsent j x p, ?_,
      fun _ _ => rfl⟩
    intro k y p he
    rw [hentry] at he
    exact absurd he (by simp)
  | some line =>
    rw [hslot, Option.map_some] at hentry
    cases hdirty : line.dirty with
    | false =>
      have hfreed := freed_of_clean hc habsent hentry hdirty
      refine ⟨⟨c.cache.countEviction, c.disk⟩, ?_, rfl, rfl, hfreed⟩
      simp only [vacate, hdirty]
      rfl
    | true =>
      have hwrite := onDisk_of_ok (c := ⟨c.cache.countEviction, c.disk⟩)
        (Metered.write_of_lt (s := line.data) (hc.onDisk hentry))
      have hfreed := freed_of_written hc habsent hentry
      refine ⟨⟨c.cache.countEviction.countWriteBack, _⟩, ?_, rfl, rfl, hfreed⟩
      simp only [vacate, hdirty]
      change (modifyCache Cache.countEviction >>= fun _ =>
        (onDisk (Metered.write line.sector.toNat line.data) >>= fun _ =>
          modifyCache Cache.countWriteBack)) c = _
      rw [bind_of_ok (show modifyCache Cache.countEviction c = .ok () _ from rfl),
        bind_of_ok hwrite]
      rfl

/-- A slot that is free for a sector stays so when a line is put into it. -/
theorem Freed.fill {c d e : Cached RamDisk} {i : Nat} {s : UInt32} (h : Freed c d i s)
    (hi : i < d.cache.slots.size) {line : Line}
    (hslots : e.cache.slots = (d.cache.setSlot i (some line)).slots)
    (hdisk : e.disk.device = d.disk.device) : Freed c e i s := by
  refine ⟨?_, ?_, h.absent, ?_, ?_⟩
  · exact (congrArg (fun disk => disk.sectors.size) hdisk).trans h.size
  · intro j hj
    rw [Cache.held?, hslots]
    change (d.cache.setSlot i (some line)).held? j = _
    rw [Cache.held?_setSlot _ _ _ _ hi, if_neg hj]
    exact h.other j hj
  · rw [hdisk]
    exact h.evicted
  · rw [hdisk]
    exact h.kept

/-- Only what the slots hold matters to which slot is free. -/
theorem Freed.congr {c c' d : Cached RamDisk} {i : Nat} {s : UInt32} (h : Freed c d i s)
    (hslots : ∀ j, c'.cache.held? j = c.cache.held? j) (hdisk : c'.disk = c.disk) :
    Freed c' d i s where
  size := h.size.trans (congrArg (fun disk => disk.device.sectors.size) hdisk.symm)
  other j hj := by rw [h.other j hj, hslots]
  absent j x p hj := by
    rw [hslots]
    exact h.absent j x p hj
  evicted k y p he := h.evicted k y p (by rwa [hslots] at he)
  kept k hno := by
    rw [hdisk]
    exact h.kept k fun y p => by
      rw [← hslots]
      exact hno y p

/-- A sector that is not cached is brought into a slot that is free for it, with the bytes it has
on the disk where they are needed. -/
theorem exists_bringIn {c : Cached RamDisk} (hc : c.Coherent) {s : UInt32} (hs : s.toNat < c.size)
    (habsent : ∀ j x p, c.cache.held? j ≠ some (s, x, p)) (needsData : Bool) :
    ∃ (i : Nat) (line : Line) (d : Cached RamDisk), bringIn s needsData c = .ok (i, line) d ∧
      i < d.cache.slots.size ∧ line.sector = s ∧ line.dirty = false ∧
      (needsData = true → line.data = c.content s) ∧
      d.disk.device.sectors[s.toNat]? = some (c.content s) ∧ Freed c d i s := by
  -- the state when the sweep has found a slot to reuse
  let c₁ : Cached RamDisk := ⟨c.cache.countMiss.sweep, c.disk⟩
  have hentry : ∀ j, c₁.cache.held? j = c.cache.held? j := by
    intro j
    rw [Cache.held?_sweep, Cache.held?_countMiss]
  have hc₁ : c₁.Coherent :=
    ⟨fun hi hj => hc.unique (hentry _ ▸ hi) (hentry _ ▸ hj), fun hi => hc.onDisk (hentry _ ▸ hi),
      fun hi => hc.clean (hentry _ ▸ hi)⟩
  obtain ⟨d, hvacate, hslots, hhand, hfreed₁⟩ :=
    exists_vacate hc₁ (s := s) fun j x p => by rw [hentry]; exact habsent j x p
  have hfreed : Freed c d d.cache.hand s := by
    rw [hhand]
    exact hfreed₁.congr (fun j => (hentry j).symm) rfl
  let stale : Line := ⟨s, (c₁.cache.current.map Line.data).getD Sector.zero, false, false⟩
  let e : Cached RamDisk := ⟨d.cache.setCurrent (some stale), d.disk⟩
  have hdata : d.disk.device.sectors[s.toNat]? = some (c.content s) := by
    rw [hfreed.kept s fun y p => habsent _ y p, content_of_uncached habsent]
    rw [Array.getElem?_eq_getElem hs, Option.getD_some]
  have hrun : bringIn s needsData c =
      (if needsData then do
        let data ← onDisk (Metered.read s.toNat)
        return (d.cache.hand, { stale with data })
      else return (d.cache.hand, stale) : EStateM Fault (Cached RamDisk) (Nat × Line)) e := by
    rw [bringIn, hhand]
    change (vacate c₁.cache.current >>= fun _ => _) c₁ = _
    rw [bind_of_ok hvacate]
    rfl
  have hsize : d.cache.hand < e.cache.slots.size := by
    simpa [e, Cache.setCurrent, Cache.setSlot] using d.cache.hand_lt
  cases needsData with
  | false =>
    exact ⟨_, stale, e, hrun, hsize, rfl, rfl, fun h => absurd h (by decide), hdata,
      hfreed.fill d.cache.hand_lt rfl rfl⟩
  | true =>
    have hlt : s.toNat < d.disk.device.sectors.size := by
      rw [← size, hfreed.size]
      exact hs
    have hread := onDisk_of_ok (c := e) (Metered.read_of_lt hlt)
    let f : Cached RamDisk := ⟨e.cache, { e.disk with reads := e.disk.reads + 1 }⟩
    refine ⟨_, { stale with data := d.disk.device.sectors[s.toNat] }, f, ?_, hsize, rfl, rfl, ?_,
      hdata, hfreed.fill d.cache.hand_lt rfl rfl⟩
    · rw [hrun]
      change (onDisk (Metered.read s.toNat) >>= fun _ => _) e = _
      rw [bind_of_ok hread]
      rfl
    · intro _
      rw [Array.getElem?_eq_getElem hlt] at hdata
      exact Option.some.inj hdata

/-- A line of sector `s` in a slot that is free for it. -/
theorem refill_of_slots {c d e : Cached RamDisk} {i : Nat} {s : UInt32} (hfreed : Freed c d i s)
    (hi : i < d.cache.slots.size) (line : Line) (hline : line.sector = s)
    (hslots : e.cache.slots = (d.cache.setSlot i (some line)).slots) (hdisk : e.disk = d.disk)
    (hclean : line.dirty = false → d.disk.device.sectors[s.toNat]? = some line.data) :
    Refill c e i s line.data line.dirty := by
  refine ⟨hfreed.fill hi hslots (by rw [hdisk]), ?_, ?_⟩
  · rw [Cache.held?, hslots]
    change (d.cache.setSlot i (some line)).held? i = _
    rw [Cache.held?_setSlot _ _ _ _ hi, if_pos rfl, ← hline]
    rfl
  · rw [hdisk]
    exact hclean

/-- Every access to an existing sector ends with work on a line of it, in a slot that is free for
it. -/
theorem exists_touch {c : Cached RamDisk} (hc : c.Coherent) {s : UInt32} (hs : s.toNat < c.size)
    (a : Access α) :
    ∃ (i : Nat) (line : Line) (d : Cached RamDisk), perform s a c = touch i line a d ∧
      i < d.cache.slots.size ∧ line.sector = s ∧
      (a.needsData = true → line.data = c.content s) ∧
      (line.dirty = false → d.disk.device.sectors[s.toNat]? = some (c.content s)) ∧
      Freed c d i s := by
  cases hfind : c.cache.find? s with
  | some found =>
    obtain ⟨i, line⟩ := found
    obtain ⟨hslot, rfl⟩ := Cache.find?_eq_some hfind
    have hentry := Cache.held?_of_slot hslot
    have hi : i < c.cache.slots.size := (Array.getElem?_eq_some_iff.1 hslot).1
    refine ⟨i, line, ⟨c.cache.countHit, c.disk⟩, perform_of_find?_eq_some hfind, hi, rfl,
      fun _ => (content_of_entry hc hentry).symm, ?_, rfl, fun _ _ => rfl, ?_, ?_, fun _ _ => rfl⟩
    · intro hclean
      rw [content_of_entry hc hentry]
      apply hc.clean (i := i)
      rw [hentry, Line.entry, hclean]
    · intro j x p hj he
      exact hj (hc.unique he hentry)
    · intro k y p he hk
      rw [hentry] at he
      exact absurd (congrArg Prod.fst (Option.some.inj he)).symm hk
  | none =>
    obtain ⟨i, line, d, hbring, hi, hline, _, hdata, hdisk, hfreed⟩ :=
      exists_bringIn hc hs (Cache.find?_eq_none_iff_entry.1 hfind) a.needsData
    refine ⟨i, line, d, ?_, hi, hline, hdata, fun _ => hdisk, hfreed⟩
    rw [perform_of_find?_eq_none hfind, bind_of_ok hbring]

/-- An access that succeeds answers from the content of its sector and changes just that
content. -/
theorem perform_of_body_ok {c : Cached RamDisk} (hc : c.Coherent) {s : UInt32}
    (hs : s.toNat < c.size) {a : Access α} (ha : a.Honest) {r : α} {t : Sector}
    (hbody : a.body (c.content s) = .ok (r, t)) :
    ∃ d, perform s a c = .ok r d ∧ d.Coherent ∧ d.size = c.size ∧
      d.content = Function.update c.content s t := by
  obtain ⟨i, line, d, htouch, hi, hline, hdata, hclean, hfreed⟩ := exists_touch hc hs a
  have hbody' : a.body line.data = .ok (r, t) := by
    cases hneeds : a.needsData with
    | true => rw [hdata hneeds, hbody]
    | false =>
      obtain ⟨r', t', hall⟩ := ha.blind hneeds
      rw [hall, ← hall (c.content s), hbody]
  let worked : Line := ⟨line.sector, t, line.dirty || a.writes, true⟩
  let e : Cached RamDisk := ⟨d.cache.setSlot i (some worked), d.disk⟩
  have hrefill := refill_of_slots (e := e) hfreed hi worked hline rfl rfl (by
    intro hdirty
    obtain ⟨hline', hquiet⟩ := Bool.or_eq_false_iff.1 hdirty
    rw [hclean hline']
    exact congrArg some (ha.quiet hquiet _ _ _ hbody).symm)
  refine ⟨e, ?_, hrefill.coherent hc hs, hrefill.size, hrefill.content_eq hc hs⟩
  rw [htouch, touch]
  simp only [hbody']
  rfl

/-- An access that fails changes no content. -/
theorem perform_of_body_error {c : Cached RamDisk} (hc : c.Coherent) {s : UInt32}
    (hs : s.toNat < c.size) {a : Access α} (ha : a.Honest) {f : Fault}
    (hbody : a.body (c.content s) = .error f) :
    ∃ d, perform s a c = .error f d ∧ d.Coherent ∧ d.size = c.size ∧ d.content = c.content := by
  obtain ⟨i, line, d, htouch, hi, hline, hdata, hclean, hfreed⟩ := exists_touch hc hs a
  have hneeds : a.needsData = true := by
    rw [← Bool.not_eq_false]
    intro hblind
    obtain ⟨r, t, hall⟩ := ha.blind hblind
    rw [hall] at hbody
    exact absurd hbody (by simp)
  have hbody' : a.body line.data = .error f := by rw [hdata hneeds, hbody]
  let marked : Line := ⟨line.sector, line.data, line.dirty || a.writes, true⟩
  let e : Cached RamDisk := ⟨d.cache.setSlot i (some marked), d.disk⟩
  have hrefill := refill_of_slots (e := e) hfreed hi marked hline rfl rfl (by
    intro hdirty
    rw [hclean (Bool.or_eq_false_iff.1 hdirty).1]
    exact congrArg some (hdata hneeds).symm)
  have hcontent := hrefill.content_eq hc hs
  rw [show marked.data = c.content s from hdata hneeds, Function.update_eq_self] at hcontent
  refine ⟨e, ?_, hrefill.coherent hc hs, hrefill.size, hcontent⟩
  rw [htouch, touch]
  simp only [hbody']
  rfl

section Flush

/-- The disk has what is in a slot. -/
def CleanAt (c : Cached RamDisk) (i : Nat) : Prop :=
  ∀ s x p, c.cache.held? i = some (s, x, p) → p = false

/-- A slot has been written back. The content and the other slots are as they were. -/
structure WroteBack (c d : Cached RamDisk) (i : Nat) : Prop where
  coherent : d.Coherent
  size : d.size = c.size
  content : d.content = c.content
  slots : d.cache.slots.size = c.cache.slots.size
  clean : d.CleanAt i
  other : ∀ j, j ≠ i → d.cache.held? j = c.cache.held? j

variable {c : Cached RamDisk} {i : Nat}

theorem WroteBack.refl (hc : c.Coherent) (hclean : c.CleanAt i) : WroteBack c c i :=
  ⟨hc, rfl, rfl, rfl, hclean, fun _ _ => rfl⟩

theorem exists_flushSlot_of_dirty (hc : c.Coherent) {line : Line}
    (hslot : c.cache.slots[i]? = some (some line)) (hdirty : line.dirty = true) :
    ∃ d, flushSlot i c = .ok () d ∧ WroteBack c d i := by
  have hget : (get : EStateM Fault (Cached RamDisk) (Cached RamDisk)) c = .ok c c := rfl
  have hentry := Cache.held?_of_slot hslot
  have hlt : line.sector.toNat < c.size := hc.onDisk hentry
  have hi : i < c.cache.slots.size := (Array.getElem?_eq_some_iff.1 hslot).1
  have hwrite := onDisk_of_ok (c := c) (Metered.write_of_lt (s := line.data) hlt)
  let cleaned : Line := { line with dirty := false }
  let disk : Metered RamDisk :=
    ⟨⟨c.disk.device.sectors.setIfInBounds line.sector.toNat line.data⟩, c.disk.reads,
      c.disk.writes + 1⟩
  have hat : disk.device.sectors[line.sector.toNat]? = some line.data :=
    Array.getElem?_setIfInBounds_self_of_lt hlt
  have hfreed : Freed c ⟨c.cache, disk⟩ i line.sector := by
    refine ⟨Array.size_setIfInBounds, fun _ _ => rfl, ?_, ?_, ?_⟩
    · intro j x p hj he
      exact hj (hc.unique he hentry)
    · intro k y p he hk
      rw [hentry] at he
      exact absurd (congrArg Prod.fst (Option.some.inj he)).symm hk
    · intro k hno
      have hne : line.sector.toNat ≠ k.toNat := by
        intro he
        obtain rfl : line.sector = k := UInt32.toNat_inj.1 he
        exact hno _ _ hentry
      exact Array.getElem?_setIfInBounds_ne hne
  let d : Cached RamDisk := ⟨(c.cache.setSlot i (some cleaned)).countWriteBack, disk⟩
  have hrefill := refill_of_slots (e := d) hfreed hi cleaned rfl rfl rfl fun _ => hat
  have hcontent := hrefill.content_eq hc hlt
  rw [show cleaned.data = c.content line.sector from (content_of_entry hc hentry).symm,
    Function.update_eq_self] at hcontent
  refine ⟨d, ?_, hrefill.coherent hc hlt, hrefill.size, hcontent, Array.size_setIfInBounds, ?_,
    hrefill.other⟩
  · rw [flushSlot, bind_of_ok hget, hslot]
    simp only [hdirty]
    change (onDisk _ >>= fun _ => _) c = _
    rw [bind_of_ok hwrite]
    rfl
  · intro s x p he
    rw [hrefill.slot] at he
    exact (congrArg (fun e => e.2.2) (Option.some.inj he)).symm

/-- An empty slot, or one that is clean, is left alone. -/
theorem exists_flushSlot (hc : c.Coherent) (i : Nat) :
    ∃ d, flushSlot i c = .ok () d ∧ WroteBack c d i := by
  have hget : (get : EStateM Fault (Cached RamDisk) (Cached RamDisk)) c = .ok c c := rfl
  cases hslot : c.cache.slots[i]? with
  | none =>
    refine ⟨c, ?_, WroteBack.refl hc fun s x p he => ?_⟩
    · rw [flushSlot, bind_of_ok hget, hslot]
      rfl
    · simp [Cache.held?, hslot] at he
  | some slot =>
    cases slot with
    | none =>
      refine ⟨c, ?_, WroteBack.refl hc fun s x p he => ?_⟩
      · rw [flushSlot, bind_of_ok hget, hslot]
        rfl
      · simp [Cache.held?, hslot] at he
    | some line =>
      cases hdirty : line.dirty with
      | false =>
        refine ⟨c, ?_, WroteBack.refl hc fun s x p he => ?_⟩
        · rw [flushSlot, bind_of_ok hget, hslot]
          simp only [hdirty]
          rfl
        · rw [Cache.held?_of_slot hslot, Line.entry, hdirty] at he
          simp only [Option.some.injEq, Prod.mk.injEq] at he
          exact he.2.2.symm
      | true => exact exists_flushSlot_of_dirty hc hslot hdirty

/-- Slots are written back one after the other. Those that were clean before stay so. -/
theorem exists_flushSlots (rest : List Nat) {cleaned : List Nat} (hc : c.Coherent)
    (hcleaned : ∀ i ∈ cleaned, c.CleanAt i) :
    ∃ d, rest.forM flushSlot c = .ok () d ∧ d.Coherent ∧ d.size = c.size ∧
      d.content = c.content ∧ d.cache.slots.size = c.cache.slots.size ∧
      ∀ i, i ∈ cleaned ∨ i ∈ rest → d.CleanAt i := by
  induction rest generalizing c cleaned with
  | nil => exact ⟨c, rfl, hc, rfl, rfl, rfl, fun i hi => hcleaned i (by simpa using hi)⟩
  | cons i rest ih =>
    obtain ⟨d, hrun, hd⟩ := exists_flushSlot hc i
    have hstep : ∀ j ∈ i :: cleaned, d.CleanAt j := by
      intro j hj
      by_cases hji : j = i
      · rw [hji]
        exact hd.clean
      · rw [CleanAt, hd.other j hji]
        exact hcleaned j ((List.mem_cons.1 hj).resolve_left hji)
    obtain ⟨e, hrun', he, hsize, hcontent, hslots, hclean⟩ := ih hd.coherent hstep
    refine ⟨e, ?_, he, hsize.trans hd.size, hcontent.trans hd.content, hslots.trans hd.slots, ?_⟩
    · change (flushSlot i >>= fun _ => rest.forM flushSlot) c = _
      rw [bind_of_ok hrun, hrun']
    · intro j hj
      apply hclean j
      rcases hj with hj | hj
      · exact Or.inl (List.mem_cons_of_mem _ hj)
      · rcases List.mem_cons.1 hj with rfl | hj
        · exact Or.inl List.mem_cons_self
        · exact Or.inr hj

/-- After a flush the disk has what the cache shows. -/
theorem exists_flush (hc : c.Coherent) :
    ∃ d, flush c = .ok () d ∧ d.Coherent ∧ d.size = c.size ∧ d.content = c.content ∧
      ∀ s : UInt32, s.toNat < d.size → d.disk.device.sectors[s.toNat]? = some (d.content s) := by
  obtain ⟨d, hrun, hd, hsize, hcontent, hslots, hclean⟩ :=
    exists_flushSlots (List.range c.cache.capacity) hc fun _ hmem => absurd hmem List.not_mem_nil
  refine ⟨d, hrun, hd, hsize, hcontent, ?_⟩
  intro s hs
  rcases Classical.em (∃ i x p, d.cache.held? i = some (s, x, p)) with hcached | hcached
  · obtain ⟨i, x, p, he⟩ := hcached
    obtain ⟨line, hslot, _⟩ := Cache.held?_eq_some_iff.1 he
    have hi : i ∈ List.range c.cache.capacity := by
      rw [List.mem_range, Cache.capacity, ← hslots]
      exact (Array.getElem?_eq_some_iff.1 hslot).1
    obtain rfl := hclean i (Or.inr hi) s x p he
    rw [content_of_entry hd he]
    exact hd.clean he
  · rw [content_of_uncached fun i x p he => hcached ⟨i, x, p, he⟩]
    rw [size] at hs
    rw [Array.getElem?_eq_getElem hs, Option.getD_some]

end Flush

/-- An empty cache is coherent, and shows what is on the disk. -/
theorem coherent_empty (capacity : Nat) (h : 0 < capacity) (disk : Metered RamDisk) :
    Coherent ⟨Cache.empty capacity h, disk⟩ where
  unique hi := absurd hi (by simp)
  onDisk hi := absurd hi (by simp)
  clean hi := absurd hi (by simp)

theorem content_empty (capacity : Nat) (h : 0 < capacity) (disk : Metered RamDisk) (s : UInt32) :
    content ⟨Cache.empty capacity h, disk⟩ s =
      disk.device.sectors[s.toNat]?.getD Sector.zero :=
  content_of_uncached (by simp)

/-- A disk that is up to date shows the same behind an empty cache. -/
theorem content_remounted {c : Cached RamDisk} (hc : c.Coherent)
    (hdisk : ∀ s : UInt32, s.toNat < c.size →
      c.disk.device.sectors[s.toNat]? = some (c.content s)) (capacity : Nat) (h : 0 < capacity) :
    content ⟨Cache.empty capacity h, c.disk⟩ = c.content := by
  funext s
  rw [content_empty]
  rcases Nat.lt_or_ge s.toNat c.size with hin | hout
  · rw [hdisk s hin, Option.getD_some]
  · rw [content_of_uncached fun i x p he => Nat.not_lt.2 hout (hc.onDisk he)]

end Cached

end SectorVolume
