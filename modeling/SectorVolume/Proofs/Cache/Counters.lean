import SectorVolume.Proofs.Cache.Filling

/-!
The counters over a run of calls, told from the calls. What is changed and not yet written back is
a credit: an access that writes raises it by at most one, and a write-back lowers it by one.
-/

namespace SectorVolume

namespace Request

variable {α : Type}

/-- The request may change the sector. -/
def writes {α : Type} : Request α → Bool
  | read _ => false
  | readAt _ _ => false
  | write _ => true
  | writeAt _ _ => true
  | map _ _ => false
  | mapMut _ _ => true
  | load _ _ => false
  | store _ _ => true

/-- The request is to write or to store a whole sector. -/
def whole {α : Type} : Request α → Bool
  | read _ => false
  | readAt _ _ => false
  | write _ => true
  | writeAt _ data => data.size == sectorSize
  | map _ _ => false
  | mapMut _ _ => false
  | load _ _ => false
  | @store α _ _ _ => Plain.size α == sectorSize

theorem flags_of_readAt {offset len : Nat} {a : Access (Array UInt8)}
    (h : Access.readAt offset len = .ok a) : a.writes = false ∧ a.needsData = true := by
  cases hrange : Access.checkRange offset len with
  | error f => simp [Access.readAt, hrange, bind, Except.bind] at h
  | ok _ =>
    simp only [Access.readAt, hrange] at h
    cases h
    exact ⟨rfl, rfl⟩

theorem flags_of_writeAt {offset : Nat} {data : Array UInt8} {a : Access Unit}
    (h : Access.writeAt offset data = .ok a) :
    a.writes = true ∧ a.needsData = !(data.size == sectorSize) := by
  cases hrange : Access.checkRange offset data.size with
  | error f => simp [Access.writeAt, hrange, bind, Except.bind] at h
  | ok _ =>
    simp only [Access.writeAt, hrange] at h
    cases h
    exact ⟨rfl, rfl⟩

/-- Only a request that replaces all of the sector can do without its bytes. -/
theorem flags_of_access {request : Request α} {a : Access α} (h : request.access = .ok a)
    (hrange : request.InRange) : a.writes = request.writes ∧ a.needsData = !request.whole := by
  cases request with
  | read len =>
    have hlen : len = sectorSize := hrange
    rw [access, Access.read, if_pos hlen] at h
    exact flags_of_readAt h
  | readAt offset len => exact flags_of_readAt h
  | write data =>
    have hsize : data.size = sectorSize := hrange
    rw [access, Access.write, if_pos hsize] at h
    have hflags := flags_of_writeAt h
    rw [hsize] at hflags
    exact hflags
  | writeAt offset data => exact flags_of_writeAt h
  | map offset f =>
    cases h
    exact ⟨rfl, rfl⟩
  | mapMut offset f =>
    cases h
    exact ⟨rfl, rfl⟩
  | load α offset =>
    cases h
    exact ⟨rfl, rfl⟩
  | @store β _ offset b =>
    cases h
    refine ⟨rfl, ?_⟩
    -- a value as long as a sector fits at its start only
    have hfits : Plain.size β + offset ≤ sectorSize := hrange.1
    by_cases hwhole : Plain.size β = sectorSize
    · obtain rfl : offset = 0 := by omega
      simp [Access.store, whole]
    · simp [Access.store, whole, hwhole]

end Request

/-- What an access transfers: a write for each write-back, and a read for a miss that needs the
bytes. -/
theorem Cached.transfers_of_perform {D α : Type} [BlockDevice D] {c d : Cached D} {s : UInt32}
    {a : Access α} {r : α} (h : perform s a c = .ok r d) :
    d.disk.reads = c.disk.reads + (!c.cache.contains s && a.needsData).toNat ∧
      d.disk.writes + c.cache.stats.writeBacks = c.disk.writes + d.cache.stats.writeBacks := by
  obtain ⟨i, line, t, hfind, rfl⟩ | hmissed := hit_or_missed h
  · have hin : c.cache.contains s = true := by
      rw [Cache.contains_iff]
      by_contra habsent
      rw [Cache.find?_eq_none_iff_sectors.2 habsent] at hfind
      exact absurd hfind (by simp)
    rw [hin]
    exact ⟨rfl, rfl⟩
  · have hout : c.cache.contains s = false := by
      rw [← Bool.not_eq_true, Cache.contains_iff]
      exact Cache.find?_eq_none_iff_sectors.1 hmissed.absent
    rw [hout, hmissed.reads, hmissed.writes, hmissed.stats]
    refine ⟨rfl, ?_⟩
    simp only [Cache.Stats.giveUp, Cache.countMiss]
    omega

theorem Bench.of_onStore_ok {α : Type} {m : EStateM Fault (Cached RamDisk) α} {b b' : Bench}
    {r : α}
    (h : onStore m b = .ok r b') : m b.store = .ok r b'.store := by
  cases hm : m b.store with
  | error f c => simp [onStore, hm] at h
  | ok _ c =>
    simp only [onStore, hm, EStateM.Result.ok.injEq] at h
    rw [← h.1, ← h.2]

namespace CacheCall

/-- The sector of the managed disk that a call is for. -/
def managed? : CacheCall → Option UInt32
  | ask .managed s _ => some s
  | ask .foreign _ _ => none
  | flush => none

/-- An access to the managed disk that may change it. -/
def changes : CacheCall → Bool
  | ask .managed _ request => request.writes
  | ask .foreign _ _ => false
  | flush => false

/-- A write or a store of a whole sector. -/
def whole : CacheCall → Bool
  | ask _ _ request => request.whole
  | flush => false

def isFlush : CacheCall → Bool
  | ask _ _ _ => false
  | flush => true

/-- The calls after the last flush, the last one first. -/
def sinceFlush (calls : List CacheCall) : List CacheCall :=
  calls.reverse.takeWhile fun call => !call.isFlush

/-- The call is for a sector of the managed disk that is not cached. -/
def missing (b : Bench) (call : CacheCall) : Bool :=
  call.managed?.any fun s => !b.store.cache.contains s

/-- The bench after a call. -/
def after (call : CacheCall) (b : Bench) : Bench := stateAfter call.onBench b

/-- The calls of a run that found their sector missing. -/
def misses (b : Bench) : List CacheCall → List CacheCall
  | [] => []
  | call :: calls => (if call.missing b then [call] else []) ++ misses (call.after b) calls

theorem after_of_ok {call : CacheCall} {b b' : Bench} {reply : call.Reply}
    (h : call.onBench b = .ok reply b') : call.after b = b' := stateAfter_of_ok h

section SinceFlush

variable {calls : List CacheCall} {call : CacheCall}

theorem sinceFlush_concat (h : call.isFlush = false) :
    sinceFlush (calls ++ [call]) = call :: sinceFlush calls := by
  simp [sinceFlush, h]

end SinceFlush

/-- What a call for the managed disk does to the cache and to the transfers. -/
theorem exists_moved {b : Bench} {d : PlainDisks} (h : b.Represents d) {α : Type} {s : UInt32}
    {request : Request α} (hvalid : (ask .managed s request).Valid d.size) :
    ∃ reply b' d', (ask .managed s request).onBench b = .ok reply b' ∧ b'.Represents d' ∧
      d'.size = d.size ∧ b.store.cache.Moved b'.store.cache s request.writes ∧
      b'.store.disk.reads =
        b.store.disk.reads + (!b.store.cache.contains s && !request.whole).toNat ∧
      b'.store.disk.writes + b.store.cache.stats.writeBacks =
        b.store.disk.writes + b'.store.cache.stats.writeBacks := by
  obtain ⟨hrange, hs⟩ := hvalid
  obtain ⟨reply, b', d', hrun, -, hsize, hfaithful⟩ := exists_faithful_managed h hrange hs
  obtain ⟨a, haccess, -⟩ := Request.exists_access hrange
  obtain ⟨hwrites, hneeds⟩ := Request.flags_of_access haccess hrange
  have hperform : Cached.perform s a b.store = .ok reply b'.store :=
    Bench.of_onStore_ok ((onBench_ask haccess b).symm.trans hrun)
  have hmoved := Cached.moved_of_perform hperform
  have htransfers := Cached.transfers_of_perform hperform
  rw [hwrites] at hmoved
  rw [hneeds] at htransfers
  exact ⟨reply, b', d', hrun, hfaithful.represents, hsize, hmoved, htransfers⟩

/-- What the counters of a cache of so many slots say after `past` calls, of which `missed`
missed. -/
structure Tallied (capacity : Nat) (start : Disks) (past missed : List CacheCall) (b : Bench) :
    Prop where
  represents : ∃ d, b.Represents d ∧ d.size = start.size
  capacity : b.store.cache.capacity = capacity
  filling : b.store.cache.Filling
  tracked : b.store.cache.Tracked (past.filterMap managed?) (missed.filterMap managed?)
  managed : ∀ call ∈ missed, call.managed?.isSome = true
  accesses : b.store.cache.stats.hits + b.store.cache.stats.misses =
    (past.filterMap managed?).length
  credit : b.store.cache.changed + b.store.cache.stats.writeBacks ≤ past.countP changes
  pending : b.store.cache.changed ≤ (sinceFlush past).countP changes
  reads : b.store.disk.reads = start.managed.reads + missed.countP fun call => !call.whole
  writes : b.store.disk.writes = start.managed.writes + b.store.cache.stats.writeBacks

theorem tallied_empty (capacity : Nat) (hcapacity : 0 < capacity) (start : Disks) :
    Tallied capacity start [] []
      ⟨⟨Cache.empty capacity hcapacity, start.managed⟩, start.foreign⟩ where
  represents := ⟨start.plain, represents_start capacity hcapacity start, start.size_plain⟩
  capacity := by simp [Cache.empty, Cache.capacity]
  filling := Cache.filling_empty capacity hcapacity
  tracked := Cache.tracked_empty capacity hcapacity
  managed := by simp
  accesses := rfl
  credit := Nat.le_of_eq (Cache.changed_empty capacity hcapacity)
  pending := Nat.le_of_eq (Cache.changed_empty capacity hcapacity)
  reads := rfl
  writes := rfl

namespace Tallied

variable {capacity : Nat} {start : Disks} {past missed : List CacheCall} {b : Bench}

/-- An access to the managed disk counts once, as a hit or as a miss. -/
theorem exists_managed (h : Tallied capacity start past missed b) {α : Type} {s : UInt32}
    {request : Request α} (hvalid : (ask .managed s request).Valid start.size) :
    ∃ reply b', (ask .managed s request).onBench b = .ok reply b' ∧
      Tallied capacity start (past ++ [ask .managed s request])
        (missed ++ if (ask .managed s request).missing b then [ask .managed s request] else [])
          b' ∧
      b.store.cache.Moved b'.store.cache s request.writes := by
  obtain ⟨d, hrepresents, hsize⟩ := h.represents
  obtain ⟨reply, b', d', hrun, hrepresents', hsize', hmoved, hreads, hwritten⟩ :=
    exists_moved hrepresents (hsize.symm ▸ hvalid)
  have hmissing : (ask .managed s request).missing b = !b.store.cache.contains s := rfl
  have hlist : (missed ++ if (ask .managed s request).missing b then [ask .managed s request]
      else []).filterMap managed? =
        missed.filterMap managed? ++ if b.store.cache.contains s then [] else [s] := by
    rw [List.filterMap_append, hmissing]
    cases b.store.cache.contains s <;> rfl
  have hcount : past.countP changes + request.writes.toNat =
      (past ++ [ask .managed s request]).countP changes := by
    rw [List.countP_append, List.countP_singleton]
    cases hw : request.writes <;> simp [changes, hw]
  refine ⟨reply, b', hrun, {
    represents := ⟨d', hrepresents', hsize'.trans hsize⟩
    capacity := hmoved.capacity.trans h.capacity
    filling := hmoved.filling h.filling
    tracked := ?_
    managed := ?_
    accesses := ?_
    credit := ?_
    pending := ?_
    reads := ?_
    writes := ?_
  }, hmoved⟩
  · rw [hlist, List.filterMap_append]
    exact hmoved.tracked h.filling h.tracked
  · intro call hcall
    rcases List.mem_append.1 hcall with hbefore | hnow
    · exact h.managed call hbefore
    · split at hnow
      · rw [List.mem_singleton.1 hnow]
        rfl
      · exact absurd hnow List.not_mem_nil
  · rw [hmoved.accesses_eq, h.accesses, List.filterMap_append, List.length_append]
    rfl
  · rw [← hcount]
    exact Nat.le_trans hmoved.changed_add_le (Nat.add_le_add_right h.credit _)
  · rw [sinceFlush_concat rfl, List.countP_cons]
    refine Nat.le_trans hmoved.changed_le (Nat.add_le_add h.pending ?_)
    cases hw : request.writes <;> simp [changes, hw]
  · rw [hreads, h.reads, List.countP_append, Nat.add_assoc, hmissing]
    congr 2
    cases b.store.cache.contains s <;> cases hw : request.whole <;> simp [whole, hw]
  · have hbefore := h.writes
    omega

theorem exists_foreign (h : Tallied capacity start past missed b) {α : Type} {s : UInt32}
    {request : Request α} (hvalid : (ask .foreign s request).Valid start.size) :
    ∃ reply b', (ask .foreign s request).onBench b = .ok reply b' ∧ b'.store = b.store ∧
      Tallied capacity start (past ++ [ask .foreign s request]) missed b' := by
  obtain ⟨d, hrepresents, hsize⟩ := h.represents
  obtain ⟨reply, b', d', hrun, -, hsize', hfaithful⟩ :=
    exists_faithful_foreign hrepresents hvalid.1 (hsize ▸ hvalid.2)
  have hstore := hfaithful.foreign rfl
  have hlist :
      (past ++ [ask .foreign s request]).filterMap managed? = past.filterMap managed? := by
    rw [List.filterMap_append]
    exact List.append_nil _
  refine ⟨reply, b', hrun, hstore, ⟨d', hfaithful.represents, hsize'.trans hsize⟩, ?_, ?_, ?_,
    h.managed, ?_, ?_, ?_, ?_, ?_⟩
  · rw [hstore, h.capacity]
  · rw [hstore]
    exact h.filling
  · rw [hstore, hlist]
    exact h.tracked
  · rw [hstore, hlist]
    exact h.accesses
  · rw [hstore, List.countP_append]
    exact h.credit
  · rw [hstore, sinceFlush_concat rfl, List.countP_cons]
    exact h.pending
  · rw [hstore]
    exact h.reads
  · rw [hstore]
    exact h.writes

/-- A flush writes back what is changed. -/
theorem exists_flush (h : Tallied capacity start past missed b) :
    ∃ b', onBench flush b = .ok () b' ∧ Cached.flush b.store = .ok () b'.store ∧
      b.store.cache.Flushed b'.store.cache ∧
      b'.store.disk.writes = b.store.disk.writes + b.store.cache.changed ∧
      Tallied capacity start (past ++ [flush]) missed b' := by
  obtain ⟨d, hrepresents, hsize⟩ := h.represents
  obtain ⟨b', hrun, hfaithful⟩ := exists_faithful_flush hrepresents
  have hflush : Cached.flush b.store = .ok () b'.store := Bench.of_onStore_ok hrun
  obtain ⟨hflushed, hreads, hwrites⟩ := Cached.flushed_of_flush hflush
  have hlist : (past ++ [flush]).filterMap managed? = past.filterMap managed? := by
    rw [List.filterMap_append]
    exact List.append_nil _
  refine ⟨b', hrun, hflush, hflushed, hwrites, ⟨d, hfaithful.represents, hsize⟩,
    hflushed.capacity.trans h.capacity, hflushed.filling h.filling, ?_, h.managed, ?_, ?_, ?_, ?_,
    ?_⟩
  · rw [hlist]
    exact hflushed.tracked h.tracked
  · rw [hlist, hflushed.stats]
    exact h.accesses
  · have hcredit := h.credit
    rw [hflushed.changed_eq, hflushed.stats, List.countP_append]
    simp only
    omega
  · rw [hflushed.changed_eq]
    exact Nat.zero_le _
  · rw [hreads, h.reads]
  · rw [hwrites, hflushed.stats, h.writes, Nat.add_assoc]

theorem exists_step (h : Tallied capacity start past missed b) (call : CacheCall)
    (hcall : call.Valid start.size) :
    ∃ reply b', call.onBench b = .ok reply b' ∧
      Tallied capacity start (past ++ [call]) (missed ++ if call.missing b then [call] else [])
        b' := by
  cases call with
  | flush =>
    obtain ⟨b', hrun, -, -, -, h'⟩ := h.exists_flush
    exact ⟨(), b', hrun, by rwa [show missing b flush = false from rfl, if_neg Bool.false_ne_true,
      List.append_nil]⟩
  | ask target s request =>
    cases target with
    | managed =>
      obtain ⟨reply, b', hrun, h', -⟩ := h.exists_managed hcall
      exact ⟨reply, b', hrun, h'⟩
    | foreign =>
      obtain ⟨reply, b', hrun, -, h'⟩ := h.exists_foreign hcall
      exact ⟨reply, b', hrun, by rwa [show (ask .foreign s request).missing b = false from rfl,
        if_neg Bool.false_ne_true, List.append_nil]⟩

theorem exists_runAll (h : Tallied capacity start past missed b) (calls : List CacheCall)
    (hcalls : ∀ call ∈ calls, call.Valid start.size) :
    ∃ b', runAll onBench calls b = .ok () b' ∧
      Tallied capacity start (past ++ calls) (missed ++ misses b calls) b' := by
  induction calls generalizing past missed b with
  | nil => exact ⟨b, rfl, by simpa [misses] using h⟩
  | cons call calls ih =>
    obtain ⟨reply, b₁, hrun, h₁⟩ := h.exists_step call (hcalls call List.mem_cons_self)
    obtain ⟨b', hrest, h'⟩ := ih h₁ fun call hcall => hcalls call (List.mem_cons_of_mem _ hcall)
    refine ⟨b', (runAll_cons_of_ok hrun).trans hrest, ?_⟩
    rw [misses, after_of_ok hrun]
    simpa using h'

end Tallied

/-- The counters of a cache of so many slots after some calls, of which `missed` found their
sector missing. -/
structure Accounted (capacity : Nat) (start : Disks) (calls missed : List CacheCall) (b : Bench) :
    Prop where
  accesses : b.store.cache.stats.hits + b.store.cache.stats.misses =
    (calls.filterMap managed?).length
  misses : b.store.cache.stats.misses = missed.length
  used : b.store.cache.sectors.length = min b.store.cache.stats.misses capacity
  evictions : b.store.cache.stats.evictions =
    b.store.cache.stats.misses - min b.store.cache.stats.misses capacity
  /-- While a slot is empty no call gives up another one. -/
  room : b.store.cache.sectors.length < capacity → ∀ call : CacheCall, call.Valid start.size →
    (call.after b).store.cache.stats.evictions = b.store.cache.stats.evictions
  writes : b.store.disk.writes = start.managed.writes + b.store.cache.stats.writeBacks
  writeBacks : b.store.cache.stats.writeBacks ≤ calls.countP changes
  reads : b.store.disk.reads = start.managed.reads + missed.countP fun call => !call.whole
  /-- A flush writes what the changed slots hold, each once, and leaves none changed. -/
  flushed : ∃ b', onBench flush b = .ok () b' ∧ flush.written b = b.store.cache.unwritten ∧
    b'.store.cache.unwritten = [] ∧
    b'.store.disk.writes = b.store.disk.writes + b.store.cache.unwritten.length
  idle : (∀ call ∈ sinceFlush calls, call.changes = false) → flush.written b = []
  /-- Where the slots are enough for all sectors, each is missed once. -/
  few : (calls.filterMap managed?).dedup.length ≤ capacity →
    b.store.cache.stats.evictions = 0 ∧
      (missed.filterMap managed?).Perm (calls.filterMap managed?).dedup

namespace Tallied

variable {capacity : Nat} {start : Disks} {calls missed : List CacheCall} {b : Bench}

theorem length_missed (h : Tallied capacity start calls missed b) :
    missed.length = b.store.cache.stats.misses := by
  rw [← h.tracked.length, List.length_filterMap_eq_countP, eq_comm, List.countP_eq_length]
  exact h.managed

theorem evictions_after (h : Tallied capacity start calls missed b)
    (hroom : b.store.cache.sectors.length < capacity) (call : CacheCall)
    (hcall : call.Valid start.size) :
    (call.after b).store.cache.stats.evictions = b.store.cache.stats.evictions := by
  cases call with
  | flush =>
    obtain ⟨b', hrun, -, hflushed, -, -⟩ := h.exists_flush
    rw [after_of_ok hrun, hflushed.stats]
  | ask target s request =>
    cases target with
    | managed =>
      obtain ⟨_, b', hrun, -, hmoved⟩ := h.exists_managed hcall
      rw [after_of_ok hrun]
      exact hmoved.evictions_eq_of_room h.filling (h.capacity.symm ▸ hroom)
    | foreign =>
      obtain ⟨_, b', hrun, hstore, -⟩ := h.exists_foreign hcall
      rw [after_of_ok hrun, hstore]

theorem perm_of_few (h : Tallied capacity start calls missed b)
    (hfew : (calls.filterMap managed?).dedup.length ≤ capacity) :
    b.store.cache.stats.evictions = 0 ∧
      (missed.filterMap managed?).Perm (calls.filterMap managed?).dedup := by
  have hnone := h.tracked.few (h.capacity.symm ▸ hfew)
  refine ⟨hnone, (List.perm_ext_iff_of_nodup (h.tracked.kept hnone).1 (List.nodup_dedup _)).2 ?_⟩
  intro s
  rw [List.mem_dedup, h.tracked.mem_iff]

theorem accounted (h : Tallied capacity start calls missed b) :
    Accounted capacity start calls missed b := by
  obtain ⟨b', hrun, hflush, hflushed, hwrites, -⟩ := h.exists_flush
  have hwritten : flush.written b = b.store.cache.unwritten := Cached.written_flush_eq hflush
  have hused := h.filling.length_sectors
  have hevictions := h.filling.evictions_eq
  rw [h.capacity] at hused hevictions
  refine {
    accesses := h.accesses
    misses := h.length_missed.symm
    used := hused
    evictions := hevictions
    room := h.evictions_after
    writes := h.writes
    writeBacks := Nat.le_trans (Nat.le_add_left _ _) h.credit
    reads := h.reads
    flushed := ⟨b', hrun, hwritten, ?_, ?_⟩
    idle := fun hquiet => ?_
    few := h.perm_of_few
  }
  · rw [← List.length_eq_zero_iff, Cache.length_unwritten, hflushed.changed_eq]
  · rw [hwrites, Cache.length_unwritten]
  · have hnone : (sinceFlush calls).countP changes = 0 :=
      List.countP_eq_zero.2 fun call hcall => by rw [hquiet call hcall]; exact Bool.false_ne_true
    rw [hwritten, ← List.length_eq_zero_iff, Cache.length_unwritten]
    exact Nat.eq_zero_of_le_zero (hnone ▸ h.pending)

end Tallied

/-- Whatever is asked of a new cache, of any capacity and in front of any disk, its counters and
those of the disk tell what was asked, how often it was missed and how much was written. -/
theorem counters_tell_the_calls (capacity : Nat) (hcapacity : 0 < capacity) (start : Disks)
    (calls : List CacheCall) (hcalls : ∀ call ∈ calls, call.Valid start.size) :
    ∃ b, runAll onBench calls ⟨⟨Cache.empty capacity hcapacity, start.managed⟩, start.foreign⟩ =
        .ok () b ∧
      Accounted capacity start calls
        (misses ⟨⟨Cache.empty capacity hcapacity, start.managed⟩, start.foreign⟩ calls) b := by
  obtain ⟨b, hrun, h⟩ := (tallied_empty capacity hcapacity start).exists_runAll calls hcalls
  exact ⟨b, hrun, h.accounted⟩

theorem turns_are_told : ∃ b,
    runAll onBench turns ⟨⟨Cache.empty 1 (by decide), twoDisks.managed⟩, twoDisks.foreign⟩ =
        .ok () b ∧
      Accounted 1 twoDisks turns
        (misses ⟨⟨Cache.empty 1 (by decide), twoDisks.managed⟩, twoDisks.foreign⟩ turns) b ∧
      b.store.cache.stats.hits + b.store.cache.stats.misses = 3 ∧
      b.store.cache.stats.writeBacks ≤ 2 := by
  obtain ⟨b, hrun, h⟩ := counters_tell_the_calls 1 (by decide) twoDisks turns valid_turns
  exact ⟨b, hrun, h, h.accesses, h.writeBacks⟩

end CacheCall

end SectorVolume
