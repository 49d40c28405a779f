import SectorVolume.Proofs.Cache.Requests

/-!
A cache cannot be told from the disk behind it, except by its counters. The plain disk that a
cache stands for has what the slots hold, and elsewhere what the disk behind has. Every request is
answered from it, and what is written back, at whatever moment, is what it has there.
-/

namespace SectorVolume

namespace RamDisk

/-- A disk after some sectors were written, one after the other. -/
def laid (writes : List (Nat × Sector)) (d : RamDisk) : RamDisk :=
  writes.foldl (fun d w => ⟨d.sectors.setIfInBounds w.1 w.2⟩) d

theorem laid_append (ws vs : List (Nat × Sector)) (d : RamDisk) :
    laid (ws ++ vs) d = laid vs (laid ws d) := List.foldl_append

theorem getElem?_laid_of_ne {k : Nat} (ws : List (Nat × Sector)) (d : RamDisk)
    (h : ∀ w ∈ ws, w.1 ≠ k) : (laid ws d).sectors[k]? = d.sectors[k]? := by
  induction ws generalizing d with
  | nil => rfl
  | cons w ws ih =>
    rw [laid, List.foldl_cons, ← laid, ih _ fun v hv => h v (List.mem_cons_of_mem _ hv)]
    exact Array.getElem?_setIfInBounds_ne (h w List.mem_cons_self)

end RamDisk

/-- A disk that keeps a record of what is written to it. -/
structure RecordingDisk where
  disk : RamDisk
  record : List (Nat × Sector)

namespace RecordingDisk

instance : BlockDevice RecordingDisk where
  readSector d i := d.disk.sector i
  writeSector i s d :=
    match RamDisk.setSector i s d.disk with
    | .ok () disk => .ok () ⟨disk, d.record ++ [(i, s)]⟩
    | .error f disk => .error f ⟨disk, d.record⟩

/-- The record is of what was written to `start`, and everything in it is as foreseen. -/
structure Tracks (start : RamDisk) (foreseen : Nat → Sector → Prop) (d : RecordingDisk)
    (e : RamDisk) : Prop where
  disk : d.disk = e
  laid : e = RamDisk.laid d.record start
  foreseen : ∀ w ∈ d.record, foreseen w.1 w.2

theorem mirrors (start : RamDisk) (foreseen : Nat → Sector → Prop) :
    Mirrors (Tracks start foreseen) foreseen where
  read h hread := by
    rw [← h.disk] at hread
    exact hread
  write := by
    intro d e i s h hi u e' hwrite
    obtain ⟨disk, record⟩ := d
    obtain rfl : disk = e := h.disk
    change RamDisk.setSector i s disk = .ok u e' at hwrite
    refine ⟨⟨e', record ++ [(i, s)]⟩, ?_, rfl, ?_, ?_⟩
    · simp only [BlockDevice.writeSector, hwrite]
    · rw [RamDisk.laid_append, ← h.laid]
      exact (RamDisk.setSector_eq_ok_iff.1 hwrite).2
    · intro w hw
      rcases List.mem_append.1 hw with hw | hw
      · exact h.foreseen w hw
      · obtain rfl := List.mem_singleton.1 hw
        exact hi

end RecordingDisk

namespace Cached

variable {α : Type}

/-- The same cache over a disk that records what is written from now on. -/
def recording (c : Cached RamDisk) : Cached RecordingDisk where
  cache := c.cache
  disk := ⟨⟨c.disk.device, []⟩, c.disk.reads, c.disk.writes⟩

/-- What a computation writes to the disk, in order. -/
def written (m : EStateM Fault (Cached RecordingDisk) α) (c : Cached RamDisk) :
    List (Nat × Sector) :=
  match m c.recording with
  | .ok _ d => d.disk.device.record
  | .error _ d => d.disk.device.record

/-- The changed slots, as they may be written back. -/
def Pending (c : Cached RamDisk) (i : Nat) (s : Sector) : Prop :=
  ∃ j, ∃ k : UInt32, i = k.toNat ∧ c.cache.held? j = some (k, s, true)

theorem alike_recording (c : Cached RamDisk) (foreseen : Nat → Sector → Prop) :
    Alike (RecordingDisk.Tracks c.disk.device foreseen) c.recording c :=
  ⟨rfl, ⟨⟨rfl, rfl, fun _ hw => absurd hw List.not_mem_nil⟩, rfl, rfl⟩⟩

theorem written_of_matches {m : EStateM Fault (Cached RecordingDisk) α}
    {n : EStateM Fault (Cached RamDisk) α} {c c' : Cached RamDisk} {a : α}
    {foreseen : Nat → Sector → Prop}
    (h : Matches (Alike (RecordingDisk.Tracks c.disk.device foreseen)) m n c.recording c)
    (hn : n c = .ok a c') :
    c'.disk.device = RamDisk.laid (written m c) c.disk.device ∧
      ∀ w ∈ written m c, foreseen w.1 w.2 := by
  obtain ⟨d, hm, hd⟩ := h a c' hn
  rw [written, hm]
  exact ⟨hd.disk.device.laid, hd.disk.device.foreseen⟩

/-- An access writes at most what a changed slot holds of another sector. -/
theorem written_perform {c c' : Cached RamDisk} {s : UInt32} {a : Access α} {r : α}
    (h : perform s a c = .ok r c') :
    c'.disk.device = RamDisk.laid (written (perform s a) c) c.disk.device ∧
      ∀ w ∈ written (perform s a) c, c.cache.find? s = none ∧ c.Pending w.1 w.2 := by
  let foreseen : Nat → Sector → Prop := fun i x => c.cache.find? s = none ∧ c.Pending i x
  have hpermits : c.cache.find? s = none → Permits foreseen c.cache :=
    fun hfind i k _ he => ⟨hfind, i, k, rfl, he⟩
  exact written_of_matches (matches_perform (RecordingDisk.mirrors _ foreseen)
    (c.alike_recording foreseen) hpermits a) h

/-- A flush writes what the changed slots hold. -/
theorem written_flush {c c' : Cached RamDisk} (h : flush c = .ok () c') :
    c'.disk.device = RamDisk.laid (written flush c) c.disk.device ∧
      ∀ w ∈ written flush c, c.Pending w.1 w.2 :=
  written_of_matches (matches_flush (RecordingDisk.mirrors _ c.Pending)
    (c.alike_recording c.Pending) fun i k _ he => ⟨i, k, rfl, he⟩) h

/-- Sectors with a number of more than 32 bits cannot be written through a cache. -/
theorem getElem?_of_written {c c' : Cached RamDisk} {ws : List (Nat × Sector)} {k : Nat}
    (hlaid : c'.disk.device = RamDisk.laid ws c.disk.device)
    (hws : ∀ w ∈ ws, c.Pending w.1 w.2) (hk : UInt32.size ≤ k) :
    c'.disk.device.sectors[k]? = c.disk.device.sectors[k]? := by
  rw [hlaid, RamDisk.getElem?_laid_of_ne]
  intro w hw
  obtain ⟨j, s, hs, -⟩ := hws w hw
  have hlt := s.toNat_lt
  simp only [UInt32.size] at hk
  omega

/-- The plain disk that a cached disk stands for: it has what the slots hold, and elsewhere what
the disk behind the cache has. -/
structure Represents (c : Cached RamDisk) (disk : PlainDisk) : Prop where
  unique : ∀ {i j : Nat} {line line' : Line}, c.cache.slots[i]? = some (some line) →
    c.cache.slots[j]? = some (some line') → line.sector = line'.sector → i = j
  clean : ∀ {i : Nat} {line : Line}, c.cache.slots[i]? = some (some line) → line.dirty = false →
    c.disk.device.sectors[line.sector.toNat]? = some line.data
  cached : ∀ {i : Nat} {line : Line}, c.cache.slots[i]? = some (some line) →
    disk[line.sector.toNat]? = some line.data.toList
  uncached : ∀ {k : Nat},
    (∀ (i : Nat) (line : Line), c.cache.slots[i]? = some (some line) → line.sector.toNat ≠ k) →
    disk[k]? = c.disk.device.bytes[k]?
  size : disk.length = c.size

theorem Represents.of_coherent {c : Cached RamDisk} {disk : PlainDisk} (hc : c.Coherent)
    (hsize : disk.length = c.size)
    (hcontent : ∀ s : UInt32, s.toNat < c.size → disk[s.toNat]? = some (c.content s).toList)
    (hbeyond : ∀ k, UInt32.size ≤ k → disk[k]? = c.disk.device.bytes[k]?) :
    c.Represents disk where
  unique := by
    intro i j line line' hi hj hs
    have hj' := Cache.held?_of_slot hj
    rw [Line.entry, ← hs] at hj'
    exact hc.unique (Cache.held?_of_slot hi) hj'
  clean := by
    intro i line hi hdirty
    have hi' := Cache.held?_of_slot hi
    rw [Line.entry, hdirty] at hi'
    exact hc.clean hi'
  cached := by
    intro i line hi
    have hi' := Cache.held?_of_slot hi
    rw [hcontent _ (hc.onDisk hi'), content_of_entry hc hi']
  uncached := by
    intro k hk
    rcases Nat.lt_or_ge k UInt32.size with hlt | hge
    · obtain ⟨s, rfl⟩ : ∃ s : UInt32, s.toNat = k := ⟨UInt32.ofNat k, by simpa using hlt⟩
      rcases Nat.lt_or_ge s.toNat c.size with hin | hout
      · have habsent : ∀ i x p, c.cache.held? i ≠ some (s, x, p) := by
          intro i x p he
          obtain ⟨line, hi, hline⟩ := Cache.held?_eq_some_iff.1 he
          exact hk i line hi (congrArg (fun e => e.1.toNat) hline)
        rw [hcontent s hin, content_of_uncached habsent, RamDisk.getElem?_bytes_of_lt _ hin]
      · have hout' : c.disk.device.bytes.length ≤ s.toNat := by
          rw [RamDisk.length_bytes]
          exact hout
        rw [List.getElem?_eq_none (hsize ▸ hout), List.getElem?_eq_none hout']
    · exact hbeyond k hge
  size := hsize

namespace Represents

variable {c : Cached RamDisk} {disk : PlainDisk} (h : c.Represents disk)
include h

theorem coherent : c.Coherent where
  unique := by
    intro i j s x y p q hx hy
    obtain ⟨line, hi, he⟩ := Cache.held?_eq_some_iff.1 hx
    obtain ⟨line', hj, he'⟩ := Cache.held?_eq_some_iff.1 hy
    exact h.unique hi hj ((congrArg Prod.fst he).trans (congrArg Prod.fst he').symm)
  onDisk := by
    intro i s x p hx
    obtain ⟨line, hi, he⟩ := Cache.held?_eq_some_iff.1 hx
    obtain rfl : line.sector = s := congrArg Prod.fst he
    rw [← h.size]
    exact (List.getElem?_eq_some_iff.1 (h.cached hi)).1
  clean := by
    intro i s x hx
    obtain ⟨line, hi, he⟩ := Cache.held?_eq_some_iff.1 hx
    obtain ⟨rfl, rfl, hdirty⟩ : line.sector = s ∧ line.data = x ∧ line.dirty = false := by
      simpa [Line.entry] using he
    exact h.clean hi hdirty

theorem getElem?_eq_content {s : UInt32} (hs : s.toNat < c.size) :
    disk[s.toNat]? = some (c.content s).toList := by
  by_cases hcached : ∃ (i : Nat) (line : Line),
      c.cache.slots[i]? = some (some line) ∧ line.sector = s
  · obtain ⟨i, line, hi, rfl⟩ := hcached
    rw [h.cached hi, content_of_entry h.coherent (Cache.held?_of_slot hi)]
  · have habsent : ∀ (i : Nat) (line : Line), c.cache.slots[i]? = some (some line) →
        line.sector.toNat ≠ s.toNat :=
      fun i line hi he => hcached ⟨i, line, hi, UInt32.toNat_inj.1 he⟩
    rw [h.uncached habsent, content_of_uncached, RamDisk.getElem?_bytes_of_lt _ hs]
    intro i x p he
    obtain ⟨line, hi, hline⟩ := Cache.held?_eq_some_iff.1 he
    exact habsent i line hi (congrArg (fun e => e.1.toNat) hline)

theorem beyond {k : Nat} (hk : UInt32.size ≤ k) : disk[k]? = c.disk.device.bytes[k]? := by
  refine h.uncached fun i line _ => ?_
  have hlt := line.sector.toNat_lt
  simp only [UInt32.size] at hk
  omega

theorem pending {i : Nat} {s : Sector} (hp : c.Pending i s) : disk[i]? = some s.toList := by
  obtain ⟨j, k, rfl, he⟩ := hp
  obtain ⟨line, hj, hline⟩ := Cache.held?_eq_some_iff.1 he
  obtain ⟨rfl, rfl, -⟩ : line.sector = k ∧ line.data = s ∧ line.dirty = true := by
    simpa [Line.entry] using hline
  exact h.cached hj

end Represents

end Cached

/-- An access to an existing sector of a plain disk. -/
theorem Metered.perform_of_body_ok {α : Type} {d : Metered RamDisk} {i : Nat}
    (hi : i < d.device.sectors.size) {a : Access α} (ha : a.Honest) {r : α} {t : Sector}
    (hbody : a.body d.device.sectors[i] = .ok (r, t)) :
    ∃ d', Metered.perform i a d = .ok r d' ∧
      d'.device.sectors = d.device.sectors.setIfInBounds i t := by
  obtain ⟨d₁, hdevice, hrest⟩ : ∃ d₁, d₁.device = d.device ∧ perform i a d =
      (if a.writes then write i t >>= fun _ => pure r else pure r :
        EStateM Fault (Metered RamDisk) α) d₁ := by
    rw [perform]
    cases hneeds : a.needsData with
    | true =>
      refine ⟨{ d with reads := d.reads + 1 }, rfl, (bind_of_ok (read_of_lt hi)).trans ?_⟩
      simp only [hbody]
    | false =>
      obtain ⟨r', t', hall⟩ := ha.blind hneeds
      have hzero : a.body Sector.zero = .ok (r, t) := by
        rw [hall, ← hall d.device.sectors[i], hbody]
      refine ⟨d, rfl, ?_⟩
      simp only [Bool.false_eq_true, if_false, pure_bind, hzero]
  rw [hrest]
  cases hwrites : a.writes with
  | true =>
    refine ⟨_, bind_of_ok (write_of_lt (hdevice ▸ hi)), ?_⟩
    rw [hdevice]
  | false =>
    refine ⟨d₁, rfl, ?_⟩
    rw [ha.quiet hwrites _ _ _ hbody, hdevice, Array.setIfInBounds_def, dif_pos hi,
      Array.set_getElem_self]

namespace Cached.Represents

variable {α : Type} {c : Cached RamDisk} {disk : PlainDisk}

/-- An access is answered as the plain disk answers it. What is written back meanwhile is what the
plain disk has, before the access and after. -/
theorem exists_perform (h : c.Represents disk) {s : UInt32} (hs : s.toNat < c.size)
    {request : Request α} {a : Access α} (ha : request.Told a) :
    ∃ r c' disk', Cached.perform s a c = .ok r c' ∧
      PlainDisk.ask request s.toNat disk = .ok r disk' ∧
      c'.Represents disk' ∧ c'.size = c.size ∧
      ∀ w ∈ written (perform s a) c, disk[w.1]? = some w.2.toList ∧
        disk'[w.1]? = some w.2.toList := by
  have hc := h.coherent
  obtain ⟨t, hbody, ht⟩ := ha.body (c.content s)
  obtain ⟨c', hrun, hc', hsize, hcontent⟩ := perform_of_body_ok hc hs ha.toHonest hbody
  obtain ⟨hlaid, hwritten⟩ := written_perform hrun
  have hlt : s.toNat < disk.length := h.size ▸ hs
  have helse : ∀ k, k ≠ s.toNat → (disk.set s.toNat t.toList)[k]? = disk[k]? :=
    fun k hk => List.getElem?_set_ne hk.symm
  refine ⟨_, c', disk.set s.toNat t.toList, hrun, ?_, of_coherent hc' ?_ ?_ ?_, hsize, ?_⟩
  · rw [PlainDisk.ask_of_getElem? request (h.getElem?_eq_content hs), ht]
  · rw [List.length_set, h.size, hsize]
  · intro k hk
    rw [hcontent]
    by_cases hks : k = s
    · rw [hks, Function.update_self, List.getElem?_set_self hlt]
    · have hne : k.toNat ≠ s.toNat := fun he => hks (UInt32.toNat_inj.1 he)
      rw [Function.update_of_ne hks, helse _ hne, h.getElem?_eq_content (hsize ▸ hk)]
  · intro k hk
    have hlt := s.toNat_lt
    have hne : k ≠ s.toNat := by
      simp only [UInt32.size] at hk
      omega
    rw [helse k hne, h.beyond hk, RamDisk.getElem?_bytes, RamDisk.getElem?_bytes,
      getElem?_of_written hlaid (fun w hw => (hwritten w hw).2) hk]
  · intro w hw
    obtain ⟨hfind, hpending⟩ := hwritten w hw
    have hnow := h.pending hpending
    obtain ⟨j, x, hx, he⟩ := hpending
    have hne : w.1 ≠ s.toNat := by
      intro heq
      obtain rfl : x = s := UInt32.toNat_inj.1 (hx.symm.trans heq)
      exact Cache.find?_eq_none_iff_entry.1 hfind j w.2 true he
    exact ⟨hnow, by rw [helse _ hne, hnow]⟩

/-- After a flush the disk behind the cache is the plain disk. -/
theorem exists_flush (h : c.Represents disk) :
    ∃ c', Cached.flush c = .ok () c' ∧ c'.Represents disk ∧ c'.size = c.size ∧
      c'.disk.device.bytes = disk ∧ ∀ w ∈ written flush c, disk[w.1]? = some w.2.toList := by
  obtain ⟨c', hrun, hc', hsize, hcontent, hdisk⟩ := Cached.exists_flush h.coherent
  obtain ⟨hlaid, hwritten⟩ := written_flush hrun
  have hbeyond : ∀ k, UInt32.size ≤ k → disk[k]? = c'.disk.device.bytes[k]? := by
    intro k hk
    rw [h.beyond hk, RamDisk.getElem?_bytes, RamDisk.getElem?_bytes,
      getElem?_of_written hlaid hwritten hk]
  have hbelow :
      ∀ s : UInt32, s.toNat < c'.size → disk[s.toNat]? = some (c'.content s).toList := by
    intro s hs
    rw [hcontent, h.getElem?_eq_content (hsize ▸ hs)]
  have hr := of_coherent hc' (h.size.trans hsize.symm) hbelow hbeyond
  refine ⟨c', hrun, hr, hsize, List.ext_getElem? fun k => ?_,
    fun w hw => h.pending (hwritten w hw)⟩
  rcases Nat.lt_or_ge k UInt32.size with hlt | hge
  · obtain ⟨s, rfl⟩ : ∃ s : UInt32, s.toNat = k := ⟨UInt32.ofNat k, by simpa using hlt⟩
    rcases Nat.lt_or_ge s.toNat c'.size with hin | hout
    · rw [RamDisk.getElem?_bytes, hdisk s hin, hbelow s hin, Option.map_some]
    · have hout' : c'.disk.device.bytes.length ≤ s.toNat := by
        rw [RamDisk.length_bytes]
        exact hout
      rw [List.getElem?_eq_none hout', List.getElem?_eq_none (hr.size.symm ▸ hout)]
  · exact (hbeyond k hge).symm

end Cached.Represents

theorem Cached.represents_empty (capacity : Nat) (h : 0 < capacity) (disk : Metered RamDisk) :
    Represents ⟨Cache.empty capacity h, disk⟩ disk.device.bytes := by
  refine Represents.of_coherent (coherent_empty capacity h disk) (RamDisk.length_bytes _) ?_
    fun _ _ => rfl
  intro s hs
  rw [content_empty, RamDisk.getElem?_bytes_of_lt _ hs]

/-- A bench stands for two plain disks. Of the second one it keeps nothing. -/
structure Bench.Represents (b : Bench) (d : PlainDisks) : Prop where
  store : b.store.Represents d.managed
  foreign : b.foreign.device.bytes = d.foreign

namespace CacheCall

/-- What a call writes to the managed disk, in order. -/
def written (b : Bench) : CacheCall → List (Nat × Sector)
  | ask .managed sector request =>
    match request.access with
    | .ok a => Cached.written (Cached.perform sector a) b.store
    | .error _ => []
  | ask .foreign _ _ => []
  | flush => Cached.written Cached.flush b.store

/-- A call leads from a bench that stands for `d` to one that stands for `d'`. -/
structure Faithful (call : CacheCall) (b b' : Bench) (d d' : PlainDisks) : Prop where
  represents : b'.Represents d'
  /-- The managed disk has had the calls of its record, and no others. -/
  written : b'.store.disk.device = RamDisk.laid (call.written b) b.store.disk.device
  /-- Everything written is what the sector holds, before the call and after. -/
  current : ∀ w ∈ call.written b,
    d.managed[w.1]? = some w.2.toList ∧ d'.managed[w.1]? = some w.2.toList
  /-- A call for the second disk touches neither the slots nor the managed disk. -/
  foreign : call.target? = some .foreign → b'.store = b.store
  /-- Any other call leaves the second disk alone. -/
  aside : call.target? ≠ some .foreign → b'.foreign = b.foreign
  flushed : call = flush → b'.store.disk.device.bytes = d'.managed

variable {b : Bench} {d : PlainDisks}

theorem exists_faithful_flush (h : b.Represents d) :
    ∃ b', onBench flush b = .ok () b' ∧ flush.Faithful b b' d d := by
  obtain ⟨c', hrun, hr, _, hdisk, hwritten⟩ := h.store.exists_flush
  refine ⟨⟨c', b.foreign⟩, ?_, {
    represents := ⟨hr, h.foreign⟩
    written := (Cached.written_flush hrun).1
    current := fun w hw => ⟨hwritten w hw, hwritten w hw⟩
    foreign := fun htarget => absurd htarget (by simp [target?])
    aside := fun _ => rfl
    flushed := fun _ => hdisk }⟩
  simp only [onBench, Bench.onStore, hrun]

theorem exists_faithful_managed {α : Type} (h : b.Represents d) {s : UInt32} {request : Request α}
    (hrange : request.InRange) (hs : s.toNat < d.size .managed) :
    ∃ r b' d', onBench (ask .managed s request) b = .ok r b' ∧
      onPlain (ask .managed s request) d = .ok r d' ∧ d'.size = d.size ∧
      (ask .managed s request).Faithful b b' d d' := by
  obtain ⟨a, haccess, ha⟩ := Request.exists_access hrange
  have hs' : s.toNat < b.store.size := Nat.lt_of_lt_of_eq hs h.store.size
  obtain ⟨r, c', disk', hrun, hplain, hr, hsize, hwritten⟩ := h.store.exists_perform hs' ha
  have hrecord : written b (ask .managed s request) =
      Cached.written (Cached.perform s a) b.store := by
    simp only [written, haccess]
  refine ⟨r, ⟨c', b.foreign⟩, ⟨disk', d.foreign⟩,
    (onBench_ask haccess b).trans (Bench.perform_managed_of_ok hrun),
    PlainDisks.ask_managed_of_ok hplain, ?_, {
    represents := ⟨hr, h.foreign⟩
    written := by
      rw [hrecord]
      exact (Cached.written_perform hrun).1
    current := by
      rw [hrecord]
      exact hwritten
    foreign := fun htarget => absurd htarget (by simp [target?])
    aside := fun _ => rfl
    flushed := fun hflush => absurd hflush (by simp) }⟩
  funext target
  cases target with
  | managed => exact (hr.size.trans hsize).trans h.store.size.symm
  | foreign => rfl

theorem exists_faithful_foreign {α : Type} (h : b.Represents d) {s : UInt32} {request : Request α}
    (hrange : request.InRange) (hs : s.toNat < d.size .foreign) :
    ∃ r b' d', onBench (ask .foreign s request) b = .ok r b' ∧
      onPlain (ask .foreign s request) d = .ok r d' ∧ d'.size = d.size ∧
      (ask .foreign s request).Faithful b b' d d' := by
  obtain ⟨a, haccess, ha⟩ := Request.exists_access hrange
  have hs' : s.toNat < b.foreign.device.sectors.size := by
    rw [← RamDisk.length_bytes, h.foreign]
    exact hs
  obtain ⟨t, hbody, ht⟩ := ha.body b.foreign.device.sectors[s.toNat]
  obtain ⟨disk', hrun, hdisk'⟩ := Metered.perform_of_body_ok hs' ha.toHonest hbody
  have hbytes : d.foreign[s.toNat]? = some b.foreign.device.sectors[s.toNat].toList := by
    rw [← h.foreign, RamDisk.getElem?_bytes, Array.getElem?_eq_getElem hs', Option.map_some]
  have hlaid : disk'.device.bytes = d.foreign.set s.toNat t.toList := by
    rw [← h.foreign, ← RamDisk.bytes_setIfInBounds, ← hdisk']
  have hplain := PlainDisk.ask_of_getElem? request hbytes
  rw [← ht] at hplain
  refine ⟨_, ⟨b.store, disk'⟩, ⟨d.managed, d.foreign.set s.toNat t.toList⟩,
    (onBench_ask haccess b).trans (Bench.perform_foreign_of_ok hrun),
    PlainDisks.ask_foreign_of_ok hplain, ?_, {
    represents := ⟨h.store, hlaid⟩
    written := rfl
    current := fun w hw => absurd hw List.not_mem_nil
    foreign := fun _ => rfl
    aside := fun htarget => absurd rfl htarget
    flushed := fun hflush => absurd hflush (by simp) }⟩
  funext target
  cases target with
  | managed => rfl
  | foreign => exact List.length_set

/-- Every call that is valid is answered as the plain disks answer it. -/
theorem exists_faithful (h : b.Represents d) (call : CacheCall) (hcall : call.Valid d.size) :
    ∃ reply b' d', call.onBench b = .ok reply b' ∧ call.onPlain d = .ok reply d' ∧
      d'.size = d.size ∧ call.Faithful b b' d d' := by
  cases call with
  | flush =>
    obtain ⟨b', hrun, hfaithful⟩ := exists_faithful_flush h
    exact ⟨(), b', d, hrun, rfl, rfl, hfaithful⟩
  | ask target s request =>
    cases target with
    | managed => exact exists_faithful_managed h hcall.1 hcall.2
    | foreign => exact exists_faithful_foreign h hcall.1 hcall.2

/-- Runs calls in order. -/
def runAll {σ : Type} (run : (call : CacheCall) → EStateM Fault σ call.Reply)
    (calls : List CacheCall) : EStateM Fault σ Unit :=
  calls.forM fun call => discard (run call)

theorem runAll_cons_of_ok {σ : Type} {run : (call : CacheCall) → EStateM Fault σ call.Reply}
    {call : CacheCall} {calls : List CacheCall} {s t : σ} {reply : call.Reply}
    (h : run call s = .ok reply t) : runAll run (call :: calls) s = runAll run calls t := by
  have hdiscard : discard (run call) s = .ok () t := by
    change EStateM.map _ (run call) s = _
    rw [EStateM.map, h]
  exact bind_of_ok hdiscard

theorem exists_runAll (h : b.Represents d) (calls : List CacheCall)
    (hcalls : ∀ call ∈ calls, call.Valid d.size) :
    ∃ b' d', runAll onBench calls b = .ok () b' ∧ runAll onPlain calls d = .ok () d' ∧
      d'.size = d.size ∧ b'.Represents d' := by
  induction calls generalizing b d with
  | nil => exact ⟨b, d, rfl, rfl, rfl, h⟩
  | cons call calls ih =>
    obtain ⟨reply, b₁, d₁, hbench, hplain, hsize, hfaithful⟩ :=
      exists_faithful h call (hcalls call List.mem_cons_self)
    obtain ⟨b', d', hbench', hplain', hsize', h'⟩ := ih hfaithful.represents fun call hcall =>
      hsize ▸ hcalls call (List.mem_cons_of_mem _ hcall)
    exact ⟨b', d', (runAll_cons_of_ok hbench).trans hbench',
      (runAll_cons_of_ok hplain).trans hplain', hsize'.trans hsize, h'⟩

/-- A new cache in front of any disk stands for its bytes. -/
theorem represents_start (capacity : Nat) (hcapacity : 0 < capacity) (start : Disks) :
    Bench.Represents ⟨⟨Cache.empty capacity hcapacity, start.managed⟩, start.foreign⟩
      start.plain :=
  ⟨Cached.represents_empty capacity hcapacity start.managed, rfl⟩

/-- A cache of any capacity in front of any disk cannot be told from the disk. After any calls,
the next one is answered with the bytes that the plain disk has there, and the slots and the disk
behind them together are the plain disk. -/
theorem cached_calls_answer_as_plain (capacity : Nat) (hcapacity : 0 < capacity) (start : Disks)
    (calls : List CacheCall) (hcalls : ∀ call ∈ calls, call.Valid start.size) :
    ∃ b d, runAll onBench calls ⟨⟨Cache.empty capacity hcapacity, start.managed⟩, start.foreign⟩ =
        .ok () b ∧
      runAll onPlain calls start.plain = .ok () d ∧ b.Represents d ∧
      ∀ call : CacheCall, call.Valid start.size → ∃ reply b' d',
        call.onBench b = .ok reply b' ∧ call.onPlain d = .ok reply d' ∧
          call.Faithful b b' d d' := by
  rw [← start.size_plain] at hcalls ⊢
  obtain ⟨b, d, hbench, hplain, hsize, h⟩ :=
    exists_runAll (represents_start capacity hcapacity start) calls hcalls
  refine ⟨b, d, hbench, hplain, h, fun call hcall => ?_⟩
  obtain ⟨reply, b', d', hb, hd, _, hfaithful⟩ := exists_faithful h call (hsize.symm ▸ hcall)
  exact ⟨reply, b', d', hb, hd, hfaithful⟩

def twoDisks : Disks := ⟨.ofDevice (RamDisk.blank 2), .ofDevice (RamDisk.blank 1)⟩

/-- Two sectors take turns in one slot. -/
def turns : List CacheCall :=
  [ask .managed 0 (.write (Sector.filled 7).toArray), ask .managed 1 (.writeAt 510 #[1, 2]),
    ask .foreign 0 (.store 4 (#v[5, 6] : Vector UInt32 2)), flush,
    ask .managed 0 (.map 0 fun v : Vector UInt8 4 => v[3])]

theorem valid_turns : ∀ call ∈ turns, call.Valid twoDisks.size := by
  simp [turns, Valid, Request.InRange, Plain.Fits, Plain.size, Plain.align, Disks.size, twoDisks,
    Metered.ofDevice, RamDisk.blank, sectorSize]

/-- The two bytes at the end of sector 1 are read again, with a zero in front. -/
theorem turns_answer_as_plain :
    ∃ b d b' d',
      runAll onBench turns ⟨⟨Cache.empty 1 (by decide), twoDisks.managed⟩, twoDisks.foreign⟩ =
        .ok () b ∧ runAll onPlain turns twoDisks.plain = .ok () d ∧ b.Represents d ∧
      onBench (ask .managed 1 (.readAt 509 3)) b = .ok #[0, 1, 2] b' ∧
      onPlain (ask .managed 1 (.readAt 509 3)) d = .ok #[0, 1, 2] d' ∧
      (ask .managed 1 (.readAt 509 3)).Faithful b b' d d' := by
  obtain ⟨b, d, hbench, hplain, h, hnext⟩ :=
    cached_calls_answer_as_plain 1 (by decide) twoDisks turns valid_turns
  obtain ⟨reply, b', d', hb, hd, hfaithful⟩ := hnext (ask .managed 1 (.readAt 509 3))
    (by simp [Valid, Request.InRange, Disks.size, twoDisks, Metered.ofDevice, RamDisk.blank])
  have hall : (match runAll onPlain turns twoDisks.plain with
      | .ok _ d =>
        match PlainDisks.ask (.readAt 509 3) .managed 1 d with
        | .ok reply _ => decide (reply = #[0, 1, 2])
        | .error _ _ => false
      | .error _ _ => false) = true := by
    decide +kernel
  have hreply : reply = #[0, 1, 2] := by
    have hd' : PlainDisks.ask (.readAt 509 3) .managed 1 d = .ok reply d' := hd
    rw [hplain] at hall
    simp only [hd', decide_eq_true_eq] at hall
    exact hall
  subst hreply
  exact ⟨b, d, b', d', hbench, hplain, h, hb, hd, hfaithful⟩

end CacheCall

end SectorVolume
