import SectorVolume.Proofs.Cache.Devices
import SectorVolume.Proofs.Cache.Transparent

/-!
What an access and a flush do to the slots, the hand and the counters, whatever the device behind.
A hit changes the slot of its sector; a miss gives up the slot that the sweep stops at and puts
the sector there. For the counters it is enough to know of every slot which sector it holds and
whether that is changed.
-/

namespace SectorVolume

theorem exists_split_of_set {α : Type} {l : List α} {i : Nat} {x : α} (h : l[i]? = some x) :
    ∃ pre post, l = pre ++ x :: post ∧ ∀ y, l.set i y = pre ++ y :: post := by
  obtain ⟨hi, rfl⟩ := List.getElem?_eq_some_iff.1 h
  refine ⟨l.take i, l.drop (i + 1), ?_, fun y => ?_⟩
  · rw [List.getElem_cons_drop, List.take_append_drop]
  · rw [List.set_eq_take_append_cons_drop, if_pos hi]

namespace Cache

/-- The sector that each slot holds, with whether it is changed. -/
def outline (c : Cache) : List (Option (UInt32 × Bool)) :=
  c.slots.toList.map fun slot => slot.map fun line => (line.sector, line.dirty)

/-- How many slots hold a changed sector. -/
def changed (c : Cache) : Nat := c.outline.countP fun entry => entry.any Prod.snd

theorem length_outline (c : Cache) : c.outline.length = c.capacity := by
  simp [outline, capacity]

theorem getElem?_outline (c : Cache) (i : Nat) : c.outline[i]? =
    c.slots[i]?.map fun slot => slot.map fun line => (line.sector, line.dirty) := by
  rw [outline, List.getElem?_map, Array.getElem?_toList]

theorem outline_congr {c d : Cache} (h : d.slots = c.slots) : d.outline = c.outline := by
  rw [outline, h, outline]

theorem outline_setSlot (c : Cache) (i : Nat) (slot : Slot) : (c.setSlot i slot).outline =
    c.outline.set i (slot.map fun line => (line.sector, line.dirty)) := by
  rw [outline, setSlot, Array.toList_setIfInBounds, List.map_set, outline]

theorem outline_hand (c : Cache) :
    c.outline[c.hand]? = some (c.current.map fun line => (line.sector, line.dirty)) := by
  rw [getElem?_outline, Array.getElem?_eq_getElem c.hand_lt, Option.map_some, current]

@[simp] theorem outline_spare (c : Cache) : c.spare.outline = c.outline := by
  have hsame : (c.current.map fun line => { line with accessed := false }).map
      (fun line => (line.sector, line.dirty)) =
        c.current.map fun line => (line.sector, line.dirty) := by
    rw [Option.map_map]
    rfl
  obtain ⟨hi, hhand⟩ := List.getElem?_eq_some_iff.1 c.outline_hand
  rw [spare, setCurrent, outline_setSlot, hsame, ← hhand, List.set_getElem_self]

@[simp] theorem outline_sweepFor (steps : Nat) (c : Cache) :
    (sweepFor steps c).outline = c.outline := by
  induction steps generalizing c with
  | zero => rfl
  | succ steps ih =>
    simp only [sweepFor]
    split
    · rw [ih, outline_spare]
      rfl
    · rfl

@[simp] theorem outline_sweep (c : Cache) : c.sweep.outline = c.outline := outline_sweepFor _ c

@[simp] theorem stats_sweepFor (steps : Nat) (c : Cache) :
    (sweepFor steps c).stats = c.stats := by
  induction steps generalizing c with
  | zero => rfl
  | succ steps ih =>
    simp only [sweepFor]
    split
    · rw [ih]
      rfl
    · rfl

@[simp] theorem stats_sweep (c : Cache) : c.sweep.stats = c.stats := stats_sweepFor _ c

/-- An empty slot ahead of the hand is where the sweep stops. -/
theorem hand_sweep_of_free {c : Cache}
    (h : c.outline[(c.hand + 1) % c.capacity]? = some none) :
    c.sweep.hand = (c.hand + 1) % c.capacity := by
  have hnone : c.advance.current = none := by
    have hhand := c.advance.outline_hand
    rw [show c.advance.outline[c.advance.hand]? = some none from h, Option.some.injEq] at hhand
    exact Option.map_eq_none_iff.1 hhand.symm
  rw [sweep, sweepFor, if_neg (by simp [hnone, Slot.accessed])]
  rfl

theorem sectors_eq (c : Cache) : c.sectors = c.outline.filterMap (Option.map Prod.fst) := by
  rw [sectors, outline, List.filterMap_map]
  congr 1
  funext slot
  cases slot <;> rfl

theorem length_sectors (c : Cache) : c.sectors.length = c.outline.countP Option.isSome := by
  rw [sectors_eq, List.length_filterMap_eq_countP]
  congr 1
  funext entry
  cases entry <;> rfl

theorem mem_sectors {c : Cache} {s : UInt32} :
    s ∈ c.sectors ↔ ∃ p, some (s, p) ∈ c.outline := by
  rw [sectors_eq, List.mem_filterMap]
  constructor
  · rintro ⟨entry, hentry, hs⟩
    obtain ⟨⟨_, p⟩, rfl, rfl⟩ := Option.map_eq_some_iff.1 hs
    exact ⟨p, hentry⟩
  · rintro ⟨p, hentry⟩
    exact ⟨_, hentry, rfl⟩

/-- A sector is found exactly if it is listed. -/
theorem find?_eq_none_iff_sectors {c : Cache} {s : UInt32} :
    c.find? s = none ↔ s ∉ c.sectors := by
  rw [find?_eq_none_iff, sectors, List.mem_filterMap]
  constructor
  · rintro h ⟨slot, hslot, hs⟩
    obtain ⟨line, rfl, rfl⟩ := Option.map_eq_some_iff.1 hs
    obtain ⟨i, hi⟩ := List.mem_iff_getElem?.1 hslot
    rw [Array.getElem?_toList] at hi
    exact h i line hi rfl
  · rintro h i line hi rfl
    exact h ⟨some line, List.mem_of_getElem? (by rwa [Array.getElem?_toList]), rfl⟩

theorem contains_iff {c : Cache} {s : UInt32} : c.contains s = true ↔ s ∈ c.sectors := by
  rw [contains, Array.any_eq_true, sectors, List.mem_filterMap]
  constructor
  · rintro ⟨i, hi, hholds⟩
    rw [Slot.holds, Option.any_eq_true] at hholds
    obtain ⟨line, hline, hs⟩ := hholds
    refine ⟨some line, ?_, congrArg some (by simpa using hs)⟩
    rw [← hline]
    exact Array.getElem_mem_toList hi
  · rintro ⟨slot, hslot, hs⟩
    obtain ⟨line, rfl, rfl⟩ := Option.map_eq_some_iff.1 hs
    obtain ⟨i, hi, hget⟩ := List.mem_iff_getElem.1 hslot
    refine ⟨i, by simpa using hi, ?_⟩
    rw [Array.getElem_toList] at hget
    simp [Slot.holds, hget]

/-- The counters when a slot is given up. -/
def Stats.giveUp (st : Stats) (slot : Slot) : Stats :=
  { st with
    evictions := st.evictions + slot.isSome.toNat
    writeBacks := st.writeBacks + (slot.any Line.dirty).toNat }

end Cache

/-- A slot after it has been written back. -/
def Slot.cleaned (slot : Slot) : Slot := slot.map fun line => { line with dirty := false }

/-- What has to be written back of a slot. -/
def Slot.unwritten? (slot : Slot) : Option (Nat × Sector) :=
  slot.bind fun line => if line.dirty then some (line.sector.toNat, line.data) else none

theorem Slot.cleaned_eq_self {slot : Slot} (h : slot.unwritten? = none) :
    slot.cleaned = slot := by
  cases slot with
  | none => rfl
  | some line =>
    cases hdirty : line.dirty with
    | true => simp [unwritten?, hdirty] at h
    | false => rw [cleaned, Option.map_some, ← hdirty]

namespace Cache

/-- The changed sectors with their bytes, in the order of the slots. -/
def unwritten (c : Cache) : List (Nat × Sector) := c.slots.toList.filterMap Slot.unwritten?

/-- The same for some slots, by their numbers. -/
def unwrittenIn (c : Cache) (is : List Nat) : List (Nat × Sector) :=
  (is.map fun i => c.slots[i]?).filterMap fun slot => slot.bind Slot.unwritten?

theorem unwrittenIn_range (c : Cache) : c.unwrittenIn (List.range c.capacity) = c.unwritten := by
  have hslots : (List.range c.capacity).map (fun i => c.slots[i]?) = c.slots.toList.map some := by
    apply List.ext_getElem
    · simp [capacity]
    · intro i hi _
      have hlt : i < c.slots.size := by simpa [capacity] using hi
      simp [hlt]
  rw [unwrittenIn, hslots, List.filterMap_map]
  rfl

theorem length_unwritten (c : Cache) : c.unwritten.length = c.changed := by
  rw [unwritten, List.length_filterMap_eq_countP, changed, outline, List.countP_map]
  congr 1
  funext slot
  cases slot with
  | none => rfl
  | some line => cases hdirty : line.dirty <;> simp [Slot.unwritten?, hdirty]

end Cache

/-- What a flush does to outline, hand and counters of a cache. -/
structure Cache.Flushed (c d : Cache) : Prop where
  outline : d.outline = c.outline.map (Option.map fun entry => (entry.1, false))
  hand : d.hand = c.hand
  stats : d.stats = { c.stats with writeBacks := c.stats.writeBacks + c.changed }

/-- A hit: the sector is in slot `i`, which is changed if the access writes. -/
structure Cache.Used (c d : Cache) (s : UInt32) (writes : Bool) (i : Nat) (p : Bool) : Prop where
  found : c.outline[i]? = some (some (s, p))
  outline : d.outline = c.outline.set i (some (s, p || writes))
  hand : d.hand = c.hand
  stats : d.stats = { c.stats with hits := c.stats.hits + 1 }

/-- A miss: the sector goes into the slot under the hand. -/
structure Cache.Replaced (c d : Cache) (s : UInt32) (writes : Bool) (slot : Slot) : Prop where
  absent : s ∉ c.sectors
  victim : c.outline[d.hand]? = some (slot.map fun line => (line.sector, line.dirty))
  outline : d.outline = c.outline.set d.hand (some (s, writes))
  /-- An empty slot ahead of the hand is not passed over. -/
  free : c.outline[(c.hand + 1) % c.capacity]? = some none → d.hand = (c.hand + 1) % c.capacity
  stats : d.stats = Stats.giveUp { c.stats with misses := c.stats.misses + 1 } slot

/-- What an access does to outline, hand and counters of a cache. -/
inductive Cache.Moved (c d : Cache) (s : UInt32) (writes : Bool) : Prop
  | hit (i : Nat) (p : Bool) (h : c.Used d s writes i p)
  | miss (slot : Slot) (h : c.Replaced d s writes slot)

namespace Metered

variable {D : Type} [BlockDevice D] {d d' : Metered D} {i : Nat} {s : Sector}

theorem counts_of_read (h : read i d = .ok s d') :
    d'.reads = d.reads + 1 ∧ d'.writes = d.writes := by
  cases hread : BlockDevice.readSector d.device i with
  | error f => simp [read, hread] at h
  | ok t =>
    simp only [read, hread, EStateM.Result.ok.injEq] at h
    rw [← h.2]
    exact ⟨rfl, rfl⟩

theorem of_write_ok (h : write i s d = .ok () d') :
    BlockDevice.writeSector i s d.device = .ok () d'.device ∧
      d'.reads = d.reads ∧ d'.writes = d.writes + 1 := by
  cases hwrite : BlockDevice.writeSector i s d.device with
  | error f e => simp [write, hwrite] at h
  | ok _ e =>
    simp only [write, hwrite, EStateM.Result.ok.injEq] at h
    rw [← h.2]
    exact ⟨rfl, rfl, rfl⟩

end Metered

namespace Cached

variable {D α : Type} {c d : Cached D}

/-- The cache and the transfers after an access that missed. -/
structure Missed (c d : Cached D) (s : UInt32) (a : Access α) : Prop where
  absent : c.cache.find? s = none
  slots : ∃ t, d.cache.slots = c.cache.countMiss.sweep.slots.setIfInBounds
    c.cache.countMiss.sweep.hand (some ⟨s, t, a.writes, true⟩)
  hand : d.cache.hand = c.cache.countMiss.sweep.hand
  stats : d.cache.stats =
    c.cache.countMiss.stats.giveUp c.cache.countMiss.sweep.current
  reads : d.disk.reads = c.disk.reads + a.needsData.toNat
  writes : d.disk.writes =
    c.disk.writes + (c.cache.countMiss.sweep.current.any Line.dirty).toNat

theorem Missed.replaced {s : UInt32} {a : Access α} (h : Missed c d s a) :
    c.cache.Replaced d.cache s a.writes c.cache.countMiss.sweep.current := by
  obtain ⟨t, hslots⟩ := h.slots
  have hhand := c.cache.countMiss.sweep.outline_hand
  rw [Cache.outline_sweep, ← h.hand] at hhand
  have hset := c.cache.countMiss.sweep.outline_setSlot c.cache.countMiss.sweep.hand
    (some ⟨s, t, a.writes, true⟩)
  rw [Cache.outline_sweep, ← h.hand] at hset
  refine ⟨Cache.find?_eq_none_iff_sectors.1 h.absent, hhand, ?_, fun hfree => ?_, h.stats⟩
  · rw [Cache.outline_congr (c := c.cache.countMiss.sweep.setSlot c.cache.countMiss.sweep.hand
      (some ⟨s, t, a.writes, true⟩)) hslots, ← h.hand, hset]
    rfl
  · rw [h.hand]
    exact Cache.hand_sweep_of_free (c := c.cache.countMiss) hfree

variable [BlockDevice D]

/-- A slot that is given up counts, and it is written back if it is changed. -/
theorem vacate_eq_ok {slot : Slot} (h : vacate slot c = .ok () d) :
    d.cache = { c.cache with stats := c.cache.stats.giveUp slot } ∧
      d.disk.reads = c.disk.reads ∧
      d.disk.writes = c.disk.writes + (slot.any Line.dirty).toNat := by
  cases slot with
  | none =>
    cases h
    exact ⟨rfl, rfl, rfl⟩
  | some line =>
    obtain ⟨_, c₁, hcount, hrest⟩ := exists_of_bind_ok h
    cases hcount
    cases hdirty : line.dirty with
    | false =>
      simp only [hdirty] at hrest
      cases hrest
      simp [Cache.Stats.giveUp, Cache.countEviction, hdirty]
    | true =>
      simp only [hdirty] at hrest
      obtain ⟨_, c₂, hwrite, hback⟩ := exists_of_bind_ok hrest
      obtain ⟨hdisk, hcache⟩ := onDisk_eq_ok hwrite
      obtain ⟨-, hreads, hwrites⟩ := Metered.of_write_ok hdisk
      cases hback
      refine ⟨?_, hreads, by simp [hwrites, hdirty]⟩
      change c₂.cache.countWriteBack = _
      rw [hcache]
      simp [Cache.Stats.giveUp, Cache.countEviction, Cache.countWriteBack, hdirty]

theorem missed_of_perform {s : UInt32} {a : Access α} {r : α} (hfind : c.cache.find? s = none)
    (h : perform s a c = .ok r d) : Missed c d s a := by
  rw [perform_of_find?_eq_none hfind] at h
  obtain ⟨⟨i, line⟩, c₄, hbring, htouch⟩ := exists_of_bind_ok h
  obtain ⟨_, _, hsweep, hbring⟩ := exists_of_bind_ok hbring
  cases hsweep
  obtain ⟨_, _, hget, hbring⟩ := exists_of_bind_ok hbring
  cases hget
  obtain ⟨_, c₁, hvacate, hbring⟩ := exists_of_bind_ok hbring
  obtain ⟨_, _, hset, hbring⟩ := exists_of_bind_ok hbring
  cases hset
  obtain ⟨cache₁, disk₁⟩ := c₁
  obtain ⟨rfl, hreads, hwrites⟩ := vacate_eq_ok hvacate
  have hstats : c.cache.countMiss.sweep.stats = c.cache.countMiss.stats := Cache.stats_sweep _
  cases hneeds : a.needsData with
  | false =>
    simp only [hneeds] at hbring
    cases hbring
    obtain ⟨t, rfl⟩ := touch_ok htouch
    refine ⟨hfind, ⟨t, ?_⟩, rfl, congrArg (Cache.Stats.giveUp · _) hstats, ?_, hwrites⟩
    · exact Array.setIfInBounds_setIfInBounds _
    · simpa [hneeds] using hreads
  | true =>
    simp only [hneeds] at hbring
    obtain ⟨data, ⟨cache₃, disk₃⟩, hread, hbring⟩ := exists_of_bind_ok hbring
    obtain ⟨hdisk, rfl⟩ := onDisk_eq_ok hread
    obtain ⟨hreads', hwrites'⟩ := Metered.counts_of_read hdisk
    cases hbring
    obtain ⟨t, rfl⟩ := touch_ok htouch
    refine ⟨hfind, ⟨t, ?_⟩, rfl, congrArg (Cache.Stats.giveUp · _) hstats, ?_, ?_⟩
    · exact Array.setIfInBounds_setIfInBounds _
    · exact hreads'.trans (by rw [hneeds]; exact congrArg (· + 1) hreads)
    · exact hwrites'.trans hwrites

/-- An access hits, and leaves the device alone, or misses. -/
theorem hit_or_missed {s : UInt32} {a : Access α} {r : α} (h : perform s a c = .ok r d) :
    (∃ i line t, c.cache.find? s = some (i, line) ∧
      d = ⟨c.cache.countHit.setSlot i (some ⟨s, t, line.dirty || a.writes, true⟩), c.disk⟩) ∨
    Missed c d s a := by
  cases hfind : c.cache.find? s with
  | none => exact Or.inr (missed_of_perform hfind h)
  | some found =>
    obtain ⟨i, line⟩ := found
    rw [perform_of_find?_eq_some hfind] at h
    obtain ⟨t, rfl⟩ := touch_ok h
    obtain ⟨-, rfl⟩ := Cache.find?_eq_some hfind
    exact Or.inl ⟨i, line, t, rfl, rfl⟩

/-- What an access that succeeds does to the counters and to the slots. -/
theorem moved_of_perform {s : UInt32} {a : Access α} {r : α} (h : perform s a c = .ok r d) :
    c.cache.Moved d.cache s a.writes := by
  obtain ⟨i, line, t, hfind, rfl⟩ | hmissed := hit_or_missed h
  · obtain ⟨hslot, rfl⟩ := Cache.find?_eq_some hfind
    refine .hit i line.dirty ⟨?_, Cache.outline_setSlot _ _ _, rfl, rfl⟩
    rw [Cache.getElem?_outline, hslot]
    rfl
  · exact .miss _ hmissed.replaced

section Flush

/-- A device keeps a record of what is written to it. -/
def Logs (log : D → List (Nat × Sector)) : Prop :=
  ∀ {i x e e'}, BlockDevice.writeSector i x e = .ok () e' → log e' = log e ++ [(i, x)]

/-- Some slots have been written back, in this order, and nothing else has been done. -/
structure WroteSlots (c d : Cached D) (is : List Nat) : Prop where
  slots : ∀ j, d.cache.slots[j]? =
    if j ∈ is then c.cache.slots[j]?.map Slot.cleaned else c.cache.slots[j]?
  hand : d.cache.hand = c.cache.hand
  stats : d.cache.stats = { c.cache.stats with
    writeBacks := c.cache.stats.writeBacks + (c.cache.unwrittenIn is).length }
  reads : d.disk.reads = c.disk.reads
  writes : d.disk.writes = c.disk.writes + (c.cache.unwrittenIn is).length
  log : ∀ log : D → List (Nat × Sector), Logs log →
    log d.disk.device = log c.disk.device ++ c.cache.unwrittenIn is

theorem wroteSlots_nil (c : Cached D) : WroteSlots c c [] := by
  constructor <;> simp [Cache.unwrittenIn]

theorem WroteSlots.cons {e : Cached D} {i : Nat} {is : List Nat} (h : WroteSlots c d [i])
    (hrest : WroteSlots d e is) (hi : i ∉ is) : WroteSlots c e (i :: is) := by
  have hsame : d.cache.unwrittenIn is = c.cache.unwrittenIn is := by
    rw [Cache.unwrittenIn, Cache.unwrittenIn]
    congr 1
    apply List.map_congr_left
    intro j hj
    have hji : j ≠ i := fun e => hi (e ▸ hj)
    rw [h.slots, if_neg (by simpa using hji)]
  have hlist : c.cache.unwrittenIn (i :: is) =
      c.cache.unwrittenIn [i] ++ c.cache.unwrittenIn is := by
    simp only [Cache.unwrittenIn, ← List.filterMap_append]
    rfl
  refine {
    slots := fun j => ?_
    hand := hrest.hand.trans h.hand
    stats := ?_
    reads := hrest.reads.trans h.reads
    writes := ?_
    log := fun log hlog => ?_
  }
  · rw [hrest.slots, h.slots]
    by_cases hj : j ∈ is
    · have hji : j ≠ i := fun e => hi (e ▸ hj)
      simp [hj, hji]
    · by_cases hji : j = i
      · subst hji
        simp [hj]
      · simp [hj, hji]
  · rw [hrest.stats, h.stats, hsame, hlist, List.length_append, Nat.add_assoc]
  · rw [hrest.writes, h.writes, hsame, hlist, List.length_append, Nat.add_assoc]
  · rw [hrest.log log hlog, h.log log hlog, hsame, hlist, List.append_assoc]

theorem wroteSlots_of_idle {i : Nat} (h : c.cache.slots[i]?.bind Slot.unwritten? = none) :
    WroteSlots c c [i] := by
  have hlist : c.cache.unwrittenIn [i] = [] := by simp [Cache.unwrittenIn, h]
  refine ⟨fun j => ?_, rfl, by rw [hlist]; rfl, rfl, by rw [hlist]; rfl,
    fun log _ => by rw [hlist, List.append_nil]⟩
  by_cases hj : j = i
  · rw [hj, if_pos List.mem_cons_self]
    cases hslot : c.cache.slots[i]? with
    | none => rfl
    | some slot =>
      rw [hslot] at h
      rw [Option.map_some, Slot.cleaned_eq_self h]
  · rw [if_neg (by simpa using hj)]

theorem wroteSlots_of_flushSlot {i : Nat} (h : flushSlot i c = .ok () d) :
    WroteSlots c d [i] := by
  rw [flushSlot,
    bind_of_ok (show (get : EStateM Fault (Cached D) (Cached D)) c = .ok c c from rfl)] at h
  rcases hslot : c.cache.slots[i]? with _ | _ | line
  · simp only [hslot] at h
    cases h
    exact wroteSlots_of_idle (by rw [hslot]; rfl)
  · simp only [hslot] at h
    cases h
    exact wroteSlots_of_idle (by rw [hslot]; rfl)
  · cases hdirty : line.dirty with
    | false =>
      simp only [hslot, hdirty] at h
      cases h
      exact wroteSlots_of_idle (by simp [hslot, Slot.unwritten?, hdirty])
    | true =>
      simp only [hslot, hdirty] at h
      obtain ⟨_, ⟨cache₁, disk₁⟩, hwrite, hclean⟩ := exists_of_bind_ok h
      obtain ⟨hdisk, rfl⟩ := onDisk_eq_ok hwrite
      obtain ⟨hdevice, hreads, hwrites⟩ := Metered.of_write_ok hdisk
      cases hclean
      have hlist : c.cache.unwrittenIn [i] = [(line.sector.toNat, line.data)] := by
        simp [Cache.unwrittenIn, hslot, Slot.unwritten?, hdirty]
      obtain ⟨hi, hget⟩ := Array.getElem?_eq_some_iff.1 hslot
      refine ⟨fun j => ?_, rfl, by rw [hlist]; rfl, hreads, by rw [hlist]; exact hwrites,
        fun log hlog => by rw [hlist]; exact hlog hdevice⟩
      by_cases hj : j = i
      · simp [hj, hi, hget, Cache.countWriteBack, Cache.setSlot, Slot.cleaned]
      · simp [hj, Ne.symm hj, Cache.countWriteBack, Cache.setSlot]

theorem wroteSlots_of_forM {is : List Nat} (hnodup : is.Nodup)
    (h : is.forM flushSlot c = .ok () d) : WroteSlots c d is := by
  induction is generalizing c with
  | nil =>
    cases h
    exact wroteSlots_nil _
  | cons i is ih =>
    obtain ⟨hi, hnodup⟩ := List.nodup_cons.1 hnodup
    obtain ⟨_, c₁, hslot, hrest⟩ := exists_of_bind_ok h
    exact (wroteSlots_of_flushSlot hslot).cons (ih hnodup hrest) hi

/-- A flush writes back every changed slot once, in the order of the slots. -/
theorem wroteSlots_of_flush (h : flush c = .ok () d) :
    WroteSlots c d (List.range c.cache.capacity) :=
  wroteSlots_of_forM List.nodup_range h

theorem flushed_of_flush (h : flush c = .ok () d) : c.cache.Flushed d.cache ∧
    d.disk.reads = c.disk.reads ∧ d.disk.writes = c.disk.writes + c.cache.changed := by
  have hwrote := wroteSlots_of_flush h
  have hcount : (c.cache.unwrittenIn (List.range c.cache.capacity)).length = c.cache.changed := by
    rw [Cache.unwrittenIn_range, Cache.length_unwritten]
  refine ⟨⟨?_, hwrote.hand, ?_⟩, hwrote.reads, ?_⟩
  · apply List.ext_getElem?
    intro j
    rw [List.getElem?_map, Cache.getElem?_outline, Cache.getElem?_outline, hwrote.slots,
      Cache.capacity]
    by_cases hj : j < c.cache.slots.size
    · rw [if_pos (List.mem_range.2 hj), Array.getElem?_eq_getElem hj]
      cases c.cache.slots[j] <;> rfl
    · rw [if_neg (fun hmem => hj (List.mem_range.1 hmem)),
        Array.getElem?_eq_none (Nat.le_of_not_lt hj)]
      rfl
  · rw [hwrote.stats, hcount]
  · rw [hwrote.writes, hcount]

end Flush

theorem logs_record : Logs RecordingDisk.record := by
  intro i x e e' hwrite
  cases hset : RamDisk.setSector i x e.disk with
  | error f disk => simp [BlockDevice.writeSector, hset] at hwrite
  | ok _ disk =>
    simp only [BlockDevice.writeSector, hset, EStateM.Result.ok.injEq, true_and] at hwrite
    rw [← hwrite]

/-- A flush writes just the changed sectors. -/
theorem written_flush_eq {c d : Cached RamDisk} (h : flush c = .ok () d) :
    written flush c = c.cache.unwritten := by
  obtain ⟨e, hrun, -⟩ := matches_flush (RecordingDisk.mirrors _ c.Pending)
    (c.alike_recording c.Pending) (fun i k _ he => ⟨i, k, rfl, he⟩) () d h
  have hlog := (wroteSlots_of_flush hrun).log _ logs_record
  rw [written, hrun]
  exact hlog.trans c.cache.unwrittenIn_range

end Cached

end SectorVolume
