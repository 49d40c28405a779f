import SectorVolume.Proofs.Cache.Clock
import SectorVolume.Proofs.Cache.Counters

/-!
Second chance. An access that misses gives up the first slot ahead of the hand that has not been
used since the hand came by, and the slots before it lose their marks. If the slot holds a changed
sector, the disk has it before the new one is put there; nothing else is written. This is so for
every access to an existing sector, also for one that fails on the bytes it finds, and for one
that replaces all of the bytes it does not matter whether the sector exists.
-/

namespace SectorVolume

theorem stateAfter_congr {σ α : Type} {m n : EStateM Fault σ α} {s t : σ} (h : m s = n t) :
    stateAfter m s = stateAfter n t := by
  unfold stateAfter
  rw [h]

/-- The device when what is due, if anything, has been written to it. -/
def Settles {D : Type} [BlockDevice D] (due : Option (Nat × Sector)) (d e : D) : Prop :=
  match due with
  | none => e = d
  | some w => BlockDevice.writeSector w.1 w.2 d = .ok () e

section Disks

variable {d : RamDisk} {due : Option (Nat × Sector)}

theorem RamDisk.size_laid (writes : List (Nat × Sector)) (d : RamDisk) :
    (laid writes d).sectors.size = d.sectors.size := by
  induction writes generalizing d with
  | nil => rfl
  | cons w writes ih => exact (ih _).trans Array.size_setIfInBounds

theorem RamDisk.exists_sector_laid (writes : List (Nat × Sector)) {i : Nat}
    (h : i < d.sectors.size) :
    ∃ data, (laid writes d).sector i = .ok data := by
  have hlt : i < (laid writes d).sectors.size := by rwa [size_laid]
  unfold sector
  rw [Array.getElem?_eq_getElem hlt]
  exact ⟨_, rfl⟩

theorem RamDisk.settles_laid (h : ∀ w, due = some w → w.1 < d.sectors.size) :
    Settles due d (laid due.toList d) := by
  cases due with
  | none => rfl
  | some w => exact setSector_eq_ok_iff.2 ⟨h w rfl, rfl⟩

theorem RecordingDisk.settles_laid (h : ∀ w, due = some w → w.1 < d.sectors.size) :
    Settles due (⟨d, []⟩ : RecordingDisk) ⟨RamDisk.laid due.toList d, due.toList⟩ := by
  cases due with
  | none => rfl
  | some w =>
    have hwrite : RamDisk.setSector w.1 w.2 d = .ok () (RamDisk.laid [w] d) :=
      RamDisk.settles_laid h
    simp only [Settles, BlockDevice.writeSector, hwrite]
    rfl

end Disks

/-- A mark does not matter to what has to be written back. -/
theorem Slot.unwritten?_spared (slot : Slot) : slot.spared.unwritten? = slot.unwritten? := by
  cases slot <;> rfl

/-- The slots in a sweep are as before, but for marks. -/
theorem Cache.Swept.slot_or {c d : Cache} {k : Nat} (h : c.Swept d k) (i : Nat) :
    d.slots[i]? = c.slots[i]? ∨ d.slots[i]? = c.slots[i]?.map Slot.spared := by
  by_cases hpassed : ∃ j, 0 < j ∧ j < k ∧ i = c.ahead j
  · obtain ⟨j, hj, hlt, rfl⟩ := hpassed
    exact Or.inr (h.passed j hj hlt)
  · exact Or.inl (h.kept i fun j hj hlt heq => hpassed ⟨j, hj, hlt, heq⟩)

/-- What has to be written back when the hand stops after `k` steps. -/
def Cache.due (c : Cache) (k : Nat) : Option (Nat × Sector) :=
  c.slots[c.ahead k]?.bind Slot.unwritten?

theorem Cache.Swept.unwritten?_current {c d : Cache} {k : Nat} (h : c.Swept d k) :
    d.current.unwritten? = c.due k := by
  have hcurrent : d.slots[c.ahead k]? = some d.current := by
    rw [← h.hand]
    exact Array.getElem?_eq_getElem d.hand_lt
  unfold due
  rcases h.slot_or (c.ahead k) with hsame | hspared
  · rw [← hsame, hcurrent, Option.bind_some]
  · rw [hspared] at hcurrent
    obtain ⟨slot, hslot, hcurrent⟩ := Option.map_eq_some_iff.1 hcurrent
    rw [hslot, ← hcurrent, Option.bind_some, Slot.unwritten?_spared]

section Missed

variable {c : Cache} {k : Nat} (h : c.Chosen k)
include h

/-- Counting the miss makes no difference to the sweep. -/
theorem Cache.Chosen.stops_countMiss : c.countMiss.Stops k c.countMiss.sweep :=
  Cache.Chosen.stops_sweep ⟨h.pos, h.le, h.marked, h.unmarked⟩

theorem Cache.Chosen.swept_countMiss : c.Swept c.countMiss.sweep k := by
  obtain ⟨hhand, hpassed, hkept⟩ := h.stops_countMiss.swept h.le
  exact ⟨hhand, hpassed, hkept⟩

end Missed

theorem Cache.getElem?_setCurrent_hand (c : Cache) (slot : Slot) :
    (c.setCurrent slot).slots[c.hand]? = some slot :=
    Array.getElem?_setIfInBounds_self_of_lt c.hand_lt

theorem Cache.getElem?_setCurrent_of_ne (c : Cache) (slot : Slot) {i : Nat} (h : i ≠ c.hand) :
    (c.setCurrent slot).slots[i]? = c.slots[i]? := Array.getElem?_setIfInBounds_ne (Ne.symm h)

namespace Cached

variable {D α : Type}

/-- Whatever comes of the work on a line, its slot is marked. -/
theorem stateAfter_touch (i : Nat) (line : Line) (a : Access α) (c : Cached D) :
    ∃ t, stateAfter (touch i line a) c =
      ⟨c.cache.setSlot i (some ⟨line.sector, t, line.dirty || a.writes, true⟩), c.disk⟩ := by
  cases hbody : a.body line.data with
  | error f =>
    refine ⟨line.data, stateAfter_of_error (f := f) ?_⟩
    simp only [touch, hbody]
  | ok result =>
    obtain ⟨r, t⟩ := result
    refine ⟨t, stateAfter_of_ok (a := r) ?_⟩
    simp only [touch, hbody]

variable [BlockDevice D]

/-- What is left of a miss when the slot under the hand has been vacated. -/
def fill (sector : UInt32) (a : Access α) : EStateM Fault (Cached D) α := do
  let cache := (← get).cache
  let line : Line :=
    { sector, data := (cache.current.map Line.data).getD Sector.zero, dirty := false,
      accessed := false }
  modifyCache fun c => c.setCurrent (some line)
  if a.needsData then
    let data ← onDisk (Metered.read sector.toNat)
    touch cache.hand { line with data } a
  else
    touch cache.hand line a

/-- A miss is a sweep, a write-back where one is due, and the rest. -/
theorem perform_eq_fill {c mid : Cached D} {s : UInt32} {a : Access α}
    (hmiss : c.cache.find? s = none)
    (h : vacate c.cache.countMiss.sweep.current ⟨c.cache.countMiss.sweep, c.disk⟩ = .ok () mid) :
    perform s a c = fill s a mid := by
  obtain ⟨cache, disk⟩ := mid
  obtain ⟨rfl, -, -⟩ := vacate_eq_ok h
  rw [perform_of_find?_eq_none hmiss]
  unfold bringIn
  change ((vacate c.cache.countMiss.sweep.current >>= fun _ => _) >>= fun _ => _)
    (⟨c.cache.countMiss.sweep, c.disk⟩ : Cached D) = _
  rw [bind_assoc, bind_of_ok h]
  cases hneeds : a.needsData with
  | false =>
    unfold fill
    rw [hneeds]
    rfl
  | true =>
    unfold fill
    simp only [hneeds, if_true, bind_assoc, pure_bind]
    rfl

/-- The work on a sector that was brought in changes its slot and nothing on the device. -/
theorem exists_stateAfter_fill {c : Cached D} {s : UInt32} {a : Access α}
    (hread : a.needsData = true → ∃ x, BlockDevice.readSector c.disk.device s.toNat = .ok x) :
    ∃ t disk, stateAfter (fill s a) c =
        ⟨c.cache.setCurrent (some ⟨s, t, a.writes, true⟩), disk⟩ ∧
      disk.device = c.disk.device := by
  let old := (c.cache.current.map Line.data).getD Sector.zero
  let e : Metered D → Cached D := fun disk =>
    ⟨c.cache.setCurrent (some ⟨s, old, false, false⟩), disk⟩
  obtain ⟨data, disk, hfill, hdevice⟩ : ∃ data disk,
      fill s a c = touch c.cache.hand ⟨s, data, false, false⟩ a (e disk) ∧
      disk.device = c.disk.device := by
    cases hneeds : a.needsData with
    | false =>
      refine ⟨old, c.disk, ?_, rfl⟩
      unfold fill
      rw [hneeds]
      rfl
    | true =>
      obtain ⟨x, hx⟩ := hread hneeds
      refine ⟨x, { c.disk with reads := c.disk.reads + 1 }, ?_, rfl⟩
      have hdisk : onDisk (Metered.read s.toNat) (e c.disk) =
          .ok x (e { c.disk with reads := c.disk.reads + 1 }) := by
        simp only [onDisk, Metered.read, e, hx]
      unfold fill
      rw [hneeds]
      exact bind_of_ok hdisk
  obtain ⟨t, ht⟩ := stateAfter_touch c.cache.hand ⟨s, data, false, false⟩ a (e disk)
  refine ⟨t, disk, ?_, hdevice⟩
  rw [stateAfter_congr hfill, ht]
  simp [e, Cache.setCurrent, Cache.setSlot]

/-- A slot is vacated if the device takes what has to be written back, and just that is
written. -/
theorem exists_vacate_of_settles (c : Cached D) {slot : Slot} {e : D}
    (h : Settles slot.unwritten? c.disk.device e) :
    ∃ d, vacate slot c = .ok () d ∧ d.disk.device = e := by
  cases slot with
  | none => exact ⟨c, rfl, h.symm⟩
  | some line =>
    cases hdirty : line.dirty with
    | false =>
      have hnone : Slot.unwritten? (some line) = none := by simp [Slot.unwritten?, hdirty]
      rw [hnone] at h
      refine ⟨⟨c.cache.countEviction, c.disk⟩, ?_, h.symm⟩
      unfold vacate
      simp only [hdirty]
      rfl
    | true =>
      have hsome : Slot.unwritten? (some line) = some (line.sector.toNat, line.data) := by
        simp [Slot.unwritten?, hdirty]
      rw [hsome] at h
      have hwrite :
          BlockDevice.writeSector line.sector.toNat line.data c.disk.device = .ok () e := h
      have hdisk : onDisk (Metered.write line.sector.toNat line.data)
          ⟨c.cache.countEviction, c.disk⟩ =
            .ok () ⟨c.cache.countEviction, ⟨e, c.disk.reads, c.disk.writes + 1⟩⟩ := by
        simp only [onDisk, Metered.write, hwrite]
      refine ⟨⟨c.cache.countEviction.countWriteBack, ⟨e, c.disk.reads, c.disk.writes + 1⟩⟩, ?_,
        rfl⟩
      unfold vacate
      simp only [hdirty]
      exact bind_of_ok (m := onDisk (Metered.write line.sector.toNat line.data)) hdisk

/-- An access that misses comes down to filling the slot under the hand. -/
theorem exists_perform_eq_fill {c : Cached D} {k : Nat} {s : UInt32} {e : D}
    (hmiss : c.cache.find? s = none) (hk : c.cache.Chosen k)
    (hdue : Settles (c.cache.due k) c.disk.device e) (a : Access α) :
    ∃ mid : Cached D, perform s a c = fill s a mid ∧
      mid.cache.slots = c.cache.countMiss.sweep.slots ∧ mid.cache.hand = c.cache.ahead k ∧
      mid.disk.device = e := by
  rw [← hk.swept_countMiss.unwritten?_current] at hdue
  obtain ⟨⟨cache, disk⟩, hvacate, hdevice⟩ :=
    exists_vacate_of_settles ⟨c.cache.countMiss.sweep, c.disk⟩ hdue
  have hfill := perform_eq_fill (a := a) hmiss hvacate
  obtain ⟨rfl, -, -⟩ := vacate_eq_ok hvacate
  exact ⟨_, hfill, rfl, hk.swept_countMiss.hand, hdevice⟩

theorem written_eq (m : EStateM Fault (Cached RecordingDisk) α) (c : Cached RamDisk) :
    written m c = (stateAfter m c.recording).disk.device.record := by
  unfold written stateAfter
  cases m c.recording <;> rfl

/-- What an access to sector `s` does where it misses and the hand stops after `k` steps. -/
structure SecondChance (c d : Cached RamDisk) (k : Nat) (s : UInt32) (a : Access α) : Prop where
  stops : c.cache.countMiss.Stops k c.cache.countMiss.sweep
  hand : d.cache.hand = c.cache.ahead k
  passed : ∀ j, 0 < j → j < k → c.cache.ahead j ≠ c.cache.ahead k →
    d.cache.slots[c.cache.ahead j]? = c.cache.slots[c.cache.ahead j]?.map Slot.spared
  kept : ∀ i, i ≠ c.cache.ahead k → (∀ j, 0 < j → j < k → i ≠ c.cache.ahead j) →
    d.cache.slots[i]? = c.cache.slots[i]?
  victim : ∃ t, d.cache.slots[c.cache.ahead k]? = some (some ⟨s, t, a.writes, true⟩)
  alone : ∀ (i : Nat) (line : Line), d.cache.slots[i]? = some (some line) → line.sector = s →
    i = c.cache.ahead k
  /-- What the slot held is written back if it was changed, and nothing else is written. -/
  written : written (perform s a) c = (c.cache.due k).toList
  /-- When it has been written back the slots are still those of the sweep, and what follows
  writes nothing. -/
  before : ∃ mid : Cached RamDisk, mid.cache.slots = c.cache.countMiss.sweep.slots ∧
    mid.disk.device = RamDisk.laid (Cached.written (perform s a) c) c.disk.device ∧
    perform s a c = fill s a mid ∧ d.disk.device = mid.disk.device

namespace Coherent

variable {c : Cached RamDisk} {k : Nat} {s : UInt32} {a : Access α}

/-- In a coherent cache a changed sector can be written back. -/
theorem lt_of_due (hc : c.Coherent) {w : Nat × Sector} (h : c.cache.due k = some w) :
    w.1 < c.size := by
  obtain ⟨slot, hslot, hw⟩ := Option.bind_eq_some_iff.1 h
  cases slot with
  | none => cases hw
  | some line =>
    cases hdirty : line.dirty with
    | false => simp [Slot.unwritten?, hdirty] at hw
    | true =>
      simp only [Slot.unwritten?, Option.bind_some, hdirty, if_true, Option.some.injEq] at hw
      rw [← hw]
      exact hc.onDisk (Cache.held?_of_slot hslot)

theorem written_of_miss (hc : c.Coherent) (hs : a.needsData = true → s.toNat < c.size)
    (hmiss : c.cache.find? s = none) (hk : c.cache.Chosen k) :
    written (perform s a) c = (c.cache.due k).toList := by
  obtain ⟨mid, hfill, -, -, hdevice⟩ := exists_perform_eq_fill (c := c.recording) hmiss hk
    (RecordingDisk.settles_laid fun w => hc.lt_of_due) a
  have hread : a.needsData = true →
      ∃ x, BlockDevice.readSector mid.disk.device s.toNat = .ok x := by
    intro hneeds
    rw [hdevice]
    exact RamDisk.exists_sector_laid _ (hs hneeds)
  obtain ⟨t, disk, hstate, hkept⟩ := exists_stateAfter_fill hread
  rw [written_eq, stateAfter_congr hfill, hstate, hkept, hdevice]
  rfl

/-- Every access that misses, if it finds the bytes that it needs, goes by second chance. -/
theorem secondChance (hc : c.Coherent) (hs : a.needsData = true → s.toNat < c.size)
    (hmiss : c.cache.find? s = none) (hk : c.cache.Chosen k) :
    SecondChance c (stateAfter (perform s a) c) k s a := by
  have hwritten := hc.written_of_miss hs hmiss hk
  obtain ⟨mid, hfill, hslots, hhand, hdevice⟩ := exists_perform_eq_fill hmiss hk
    (RamDisk.settles_laid fun w => hc.lt_of_due) a
  have hread : a.needsData = true →
      ∃ x, BlockDevice.readSector mid.disk.device s.toNat = .ok x := by
    intro hneeds
    rw [hdevice]
    exact RamDisk.exists_sector_laid _ (hs hneeds)
  obtain ⟨t, disk, hstate, hkept⟩ := exists_stateAfter_fill hread
  have hswept := hk.swept_countMiss
  have hother : ∀ i, i ≠ c.cache.ahead k →
      (mid.cache.setCurrent (some ⟨s, t, a.writes, true⟩)).slots[i]? =
        c.cache.countMiss.sweep.slots[i]? := by
    intro i hi
    rw [← hhand] at hi
    rw [Cache.getElem?_setCurrent_of_ne _ _ hi, hslots]
  rw [stateAfter_congr hfill, hstate]
  refine {
    stops := hk.stops_countMiss
    hand := hhand
    passed := fun j hj hlt hne => (hother _ hne).trans (hswept.passed j hj hlt)
    kept := fun i hi hnot => (hother i hi).trans (hswept.kept i hnot)
    victim := ⟨t, ?_⟩
    alone := fun i line hi hline => ?_
    written := hwritten
    before := ⟨mid, hslots, by rw [hdevice, hwritten], hfill, hkept⟩
  }
  · rw [← hhand]
    exact Cache.getElem?_setCurrent_hand _ _
  · -- the sector is in no other slot, or the access would not have missed
    by_contra hne
    have hheld := Cache.held?_of_slot ((hother i hne).symm.trans hi)
    rw [Cache.held?_sweep, Cache.held?_countMiss] at hheld
    rw [Line.entry, hline] at hheld
    exact Cache.find?_eq_none_iff_entry.1 hmiss i _ _ hheld

end Coherent

end Cached

theorem Bench.store_stateAfter_onStore {α : Type} (m : EStateM Fault (Cached RamDisk) α)
    (b : Bench) :
    (stateAfter (onStore m) b).store = stateAfter m b.store := by
  cases hm : m b.store <;> simp only [stateAfter, onStore, hm]

namespace CacheCall

/-- In every state that a cache of any capacity gets into, an access that misses, and does not
need the bytes of a sector that is not there, takes the slot that second chance tells, after one
step of the hand more than there are slots at most: the slots that are passed lose their marks,
those that are not passed keep everything, and the changed sector of the slot that is taken, and
no other, is written before it is replaced. -/
theorem misses_give_second_chances (capacity : Nat) (hcapacity : 0 < capacity) (start : Disks)
    (calls : List CacheCall) (hcalls : ∀ call ∈ calls, call.Valid start.size) :
    ∃ b, runAll onBench calls ⟨⟨Cache.empty capacity hcapacity, start.managed⟩, start.foreign⟩ =
        .ok () b ∧ b.store.cache.capacity = capacity ∧
      ∀ {α : Type} (s : UInt32) (a : Access α),
        (a.needsData = true → s.toNat < start.size .managed) → b.store.cache.find? s = none →
        ∃ k, b.store.cache.Chosen k ∧ (∀ m, b.store.cache.Chosen m → m = k) ∧
          b.store.SecondChance (stateAfter (Bench.perform .managed s a) b).store k s a := by
  obtain ⟨b, hrun, h⟩ := (tallied_empty capacity hcapacity start).exists_runAll calls hcalls
  obtain ⟨d, hrepresents, hsize⟩ := h.represents
  refine ⟨b, hrun, h.capacity, fun s a hs hmiss => ?_⟩
  obtain ⟨k, hk⟩ := b.store.cache.exists_chosen
  have hs' : a.needsData = true → s.toNat < b.store.size := by
    intro hneeds
    have hlt := hs hneeds
    rw [← hsize] at hlt
    exact Nat.lt_of_lt_of_eq hlt hrepresents.store.size
  refine ⟨k, hk, fun m hm => hm.unique hk, ?_⟩
  unfold Bench.perform
  rw [Bench.store_stateAfter_onStore]
  exact hrepresents.store.coherent.secondChance hs' hmiss hk

/-- One slot, in use and changed: the hand goes round to it twice, and sector 0 is written back
before sector 1 is read. -/
theorem the_only_slot_is_given_up :
    ∃ b t, runAll onBench [ask .managed 0 (.write (Sector.filled 7).toArray)]
        ⟨⟨Cache.empty 1 (by decide), twoDisks.managed⟩, twoDisks.foreign⟩ = .ok () b ∧
      b.store.cache.slots[0]? = some (some ⟨0, t, true, true⟩) ∧
      b.store.SecondChance (stateAfter (Bench.perform .managed 1 Access.fetch) b).store 2 1
        Access.fetch ∧
      Cached.written (Cached.perform 1 Access.fetch) b.store = [(0, t)] := by
  let b₀ : Bench := ⟨⟨Cache.empty 1 (by decide), twoDisks.managed⟩, twoDisks.foreign⟩
  let call : CacheCall := ask .managed 0 (.write (Sector.filled 7).toArray)
  have hvalid : ∀ c ∈ [call], c.Valid twoDisks.size := by
    intro c hc
    rw [List.mem_singleton.1 hc]
    exact valid_turns _ List.mem_cons_self
  obtain ⟨a, haccess, -⟩ := Request.exists_access (hvalid call List.mem_cons_self).1
  have hwrites := (Request.flags_of_access haccess (hvalid call List.mem_cons_self).1).1
  -- the first access finds an empty slot
  obtain ⟨b, hstart, -, hempty⟩ := misses_give_second_chances 1 (by decide) twoDisks [] (by simp)
  obtain rfl : b₀ = b := (EStateM.Result.ok.inj hstart).2
  have hfree : b₀.store.cache.find? 0 = none :=
    Cache.find?_eq_none_iff_entry.2 fun i x p => by simp [b₀]
  obtain ⟨k, -, -, hfirst⟩ := hempty 0 a (fun _ => by decide) hfree
  obtain ⟨t, hslot⟩ := hfirst.victim
  -- the second one finds it in use
  obtain ⟨b, hrun, hcapacity, hnext⟩ :=
    misses_give_second_chances 1 (by decide) twoDisks [call] hvalid
  obtain ⟨reply, b', hcall, -⟩ :=
    (tallied_empty 1 (by decide) twoDisks).exists_step call (hvalid call List.mem_cons_self)
  obtain rfl : b' = b := (EStateM.Result.ok.inj ((runAll_cons_of_ok hcall).symm.trans hrun)).2
  have hafter : stateAfter (Bench.perform .managed 0 a) b₀ = b' :=
    stateAfter_of_ok ((onBench_ask haccess b₀).symm.trans hcall)
  have honly : ∀ i, b₀.store.cache.ahead i = 0 := fun i => Nat.mod_one _
  have honly' : ∀ i, b'.store.cache.ahead i = 0 := by
    intro i
    have hlt := b'.store.cache.ahead_lt i
    omega
  rw [hafter, honly, hwrites] at hslot
  have hmiss : b'.store.cache.find? 1 = none := by
    rw [Cache.find?_eq_none_iff]
    intro i line hi
    have hlt := (Array.getElem?_eq_some_iff.1 hi).1
    obtain rfl : i = 0 := by
      have hone : b'.store.cache.slots.size = 1 := hcapacity
      omega
    rw [hslot] at hi
    cases hi
    change (0 : UInt32) ≠ 1
    decide
  obtain ⟨k, hk, -, hsecond⟩ := hnext 1 Access.fetch (fun _ => by decide) hmiss
  obtain rfl : k = 2 := by
    have hpos := hk.pos
    have hle := hk.le
    by_contra hne
    have hclear := hk.unmarked (by omega)
    rw [honly', Cache.marked, hslot] at hclear
    cases hclear
  refine ⟨b', t, hrun, hslot, hsecond, ?_⟩
  rw [hsecond.written, Cache.due, honly', hslot]
  rfl

end CacheCall

end SectorVolume
