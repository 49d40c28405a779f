import SectorVolume.Proofs.Cache.SecondChance
import Mathlib.Data.List.Rotate

/-!
The clock without hits. Where no sector comes again within as many accesses as there are slots,
the marks ahead of the hand are never in a row with a gap: either the next slot has none, or all
have one and the hand goes once round and takes the next slot all the same. So the slots are a
queue: the hand goes on by one slot for each access, and what is given up is the sector that has
been cached for longest.
-/

namespace SectorVolume

/-- No entry is among the `n` entries before it. -/
def Spread {α : Type} (n : Nat) (l : List α) : Prop :=
  ∀ (i j : Nat) (a : α), l[i]? = some a → l[j]? = some a → i < j → i + n < j

theorem Spread.of_append {α : Type} {n : Nat} {l l' : List α} (h : Spread n (l ++ l')) :
    Spread n l := by
  intro i j a hi hj hlt
  refine h i j a ?_ ?_ hlt
  · rw [List.getElem?_append_left (List.getElem?_eq_some_iff.1 hi).1, hi]
  · rw [List.getElem?_append_left (List.getElem?_eq_some_iff.1 hj).1, hj]

/-- What comes next is none of the last `n` entries. -/
theorem Spread.not_mem_drop {α : Type} {n : Nat} {l : List α} {a : α} (h : Spread n (l ++ [a])) :
    a ∉ l.drop (l.length - n) := by
  intro hmem
  obtain ⟨i, hi⟩ := List.mem_iff_getElem?.1 hmem
  rw [List.getElem?_drop] at hi
  have hlt := (List.getElem?_eq_some_iff.1 hi).1
  have hfar := h (l.length - n + i) l.length a (by rw [List.getElem?_append_left hlt, hi])
    List.getElem?_concat_length hlt
  omega

namespace Cache

/-- The sector in a slot, if there is one. -/
def place? (c : Cache) (i : Nat) : Option (Option UInt32) :=
  c.slots[i]?.map (Option.map Line.sector)

/-- The sectors in the slots from the one after the hand on, once round. -/
def queue (c : Cache) : List (Option UInt32) :=
  (c.slots.toList.map (Option.map Line.sector)).rotate (c.hand + 1)

/-- The state of a cache after accesses that all missed. -/
structure Queued (c : Cache) (accessed : List UInt32) : Prop where
  hand : c.hand = accessed.length % c.capacity
  queue : c.queue = List.replicate (c.capacity - accessed.length) none ++
    (accessed.drop (accessed.length - c.capacity)).map some
  /-- The marks are those of the last slots of the round. -/
  marks : ∃ used, used ≤ c.capacity ∧ ∀ i, 0 < i → i ≤ c.capacity →
    (c.marked (c.ahead i) = true ↔ c.capacity < i + used)

variable {c d : Cache} {accessed : List UInt32}

@[simp] theorem length_queue (c : Cache) : c.queue.length = c.capacity := by
  simp [queue, capacity]

theorem getElem?_queue {i : Nat} (hi : i < c.capacity) :
    c.queue[i]? = c.place? (c.ahead (i + 1)) := by
  have hlength : (c.slots.toList.map (Option.map Line.sector)).length = c.capacity := by
    simp [capacity]
  rw [queue, List.getElem?_rotate (by rwa [hlength]), hlength, List.getElem?_map,
    Array.getElem?_toList, place?, ahead]
  congr 3
  omega

theorem sectors_perm_queue (c : Cache) : c.sectors.Perm (c.queue.filterMap id) := by
  have hsectors : c.sectors = (c.slots.toList.map (Option.map Line.sector)).filterMap id := by
    rw [sectors, List.filterMap_map]
    rfl
  rw [hsectors]
  exact (List.rotate_perm _ _).symm.filterMap id

theorem ahead_capacity_add (c : Cache) (i : Nat) : c.ahead (c.capacity + i) = c.ahead i := by
  rw [ahead, ahead, ← Nat.add_assoc, Nat.add_right_comm, Nat.add_mod_right]

namespace Queued

variable (h : c.Queued accessed)
include h

theorem sectors_perm : c.sectors.Perm (accessed.drop (accessed.length - c.capacity)) := by
  refine c.sectors_perm_queue.trans ?_
  rw [h.queue, List.filterMap_append, List.filterMap_map]
  simp

/-- The slot that is next is the one whose sector has been there for longest. -/
theorem place?_next : c.place? (c.ahead 1) =
    some (if accessed.length < c.capacity then none
      else accessed[accessed.length - c.capacity]?) := by
  rw [← getElem?_queue c.capacity_pos, h.queue]
  split
  · next hfew =>
    rw [List.getElem?_append_left (by simp; omega), List.getElem?_replicate, if_pos (by omega)]
  · next hmany =>
    have hnone : c.capacity - accessed.length = 0 := by omega
    have hpos := c.capacity_pos
    rw [hnone, List.replicate_zero, List.nil_append, List.getElem?_map, List.getElem?_drop,
      Nat.add_zero, List.getElem?_eq_getElem (by omega)]
    rfl

theorem ahead_one : c.ahead 1 = (accessed.length + 1) % c.capacity := by
  rw [ahead, h.hand, Nat.mod_add_mod]

/-- The hand takes the next slot, at once if it has no mark, or else after a round. -/
theorem chosen : (c.Chosen 1 ∧ ∃ used, used < c.capacity ∧ ∀ i, 0 < i → i ≤ c.capacity →
      (c.marked (c.ahead i) = true ↔ c.capacity < i + used)) ∨ c.Chosen (c.capacity + 1) := by
  obtain ⟨used, hused, hmarks⟩ := h.marks
  rcases Nat.lt_or_ge used c.capacity with hlt | hge
  · refine Or.inl
      ⟨⟨Nat.one_pos, by omega, fun j hj hj' => by omega, fun _ => ?_⟩, used, hlt, hmarks⟩
    rw [← Bool.not_eq_true, hmarks 1 Nat.one_pos c.capacity_pos]
    omega
  · refine Or.inr ⟨by omega, Nat.le_refl _, fun j hj hj' => ?_, fun hle => by omega⟩
    rw [hmarks j hj (by omega)]
    omega

theorem ahead_of_chosen {k : Nat} (hk : c.Chosen k) : c.ahead k = c.ahead 1 := by
  obtain ⟨hone, -⟩ | hround := h.chosen
  · rw [hk.unique hone]
  · rw [hk.unique hround, ahead_capacity_add]

end Queued

theorem queued_empty (capacity : Nat) (hcapacity : 0 < capacity) :
    (empty capacity hcapacity).Queued [] := by
  have hsize : (empty capacity hcapacity).capacity = capacity := by simp [Cache.capacity, empty]
  refine ⟨(Nat.zero_mod _).symm, ?_, 0, Nat.zero_le _, fun i hi hle => ?_⟩
  · rw [hsize, queue, empty, Array.toList_replicate, List.map_replicate, List.rotate_replicate]
    simp
  · have hunused : ∀ j, (empty capacity hcapacity).marked j = false := by
      intro j
      by_cases hj : j < capacity <;> simp [marked, empty, hj, Slot.accessed]
    rw [hunused]
    simp only [Bool.false_eq_true, false_iff]
    omega

/-- The queue of a cache does not depend on what its sectors hold. -/
theorem Queued.congr (h : c.Queued accessed) (hcapacity : d.capacity = c.capacity)
    (hhand : d.hand = c.hand) (hplace : ∀ i, d.place? i = c.place? i)
    (hmarked : ∀ i, d.marked i = c.marked i) : d.Queued accessed := by
  have hahead : ∀ i, d.ahead i = c.ahead i := fun i => by rw [ahead, hhand, hcapacity, ahead]
  have hqueue : d.queue = c.queue := by
    apply List.ext_getElem?
    intro i
    rcases Nat.lt_or_ge i c.capacity with hlt | hge
    · rw [getElem?_queue (by rwa [hcapacity]), getElem?_queue hlt, hahead, hplace]
    · rw [List.getElem?_eq_none (by rwa [length_queue, hcapacity]),
        List.getElem?_eq_none (by rwa [length_queue])]
  obtain ⟨used, hused, hmarks⟩ := h.marks
  refine ⟨by rw [hhand, h.hand, hcapacity], by rw [hqueue, h.queue, hcapacity], used,
    by rwa [hcapacity], fun i hi hle => ?_⟩
  rw [hcapacity] at hle ⊢
  rw [hmarked, hahead, hmarks i hi hle]

end Cache

/-- What an access that misses does to a queue: the sector takes the slot after the hand, and the
hand goes there. -/
structure Cache.Pushed (c d : Cache) (s : UInt32) : Prop where
  capacity : d.capacity = c.capacity
  hand : d.hand = c.ahead 1
  placed : d.place? (c.ahead 1) = some (some s)
  others : ∀ i, i ≠ c.ahead 1 → d.place? i = c.place? i

namespace Cache.Pushed

variable {c d : Cache} {s : UInt32} {accessed : List UInt32} (h : c.Pushed d s)
include h

theorem ahead_eq (i : Nat) : d.ahead i = c.ahead (i + 1) := by
  rw [ahead, h.hand, h.capacity, ahead, ahead, Nat.mod_add_mod, Nat.add_assoc, Nat.add_comm 1 i]

/-- The first place of the queue is given up, and the sector is the last one. -/
theorem queue_eq : d.queue = c.queue.tail ++ [some s] := by
  have hpos := c.capacity_pos
  apply List.ext_getElem?
  intro i
  rcases Nat.lt_trichotomy (i + 1) c.capacity with hlt | heq | hgt
  · rw [getElem?_queue (by rw [h.capacity]; omega), h.ahead_eq,
      h.others _ (ahead_ne (by omega) (by omega)).symm,
      List.getElem?_append_left (by simp; omega),
      List.getElem?_tail, getElem?_queue hlt]
  · rw [getElem?_queue (by rw [h.capacity]; omega), h.ahead_eq, Nat.add_right_comm, heq,
      ahead_capacity_add, h.placed, List.getElem?_append_right (by simp; omega)]
    have hlast : i - c.queue.tail.length = 0 := by
      simp
      omega
    rw [hlast]
    rfl
  · rw [List.getElem?_eq_none (by rw [length_queue, h.capacity]; omega),
      List.getElem?_eq_none (by simp; omega)]

/-- The queue goes on with the sectors that were accessed last. -/
theorem queue_of_queued (hqueued : c.Queued accessed) : d.queue =
    List.replicate (d.capacity - (accessed ++ [s]).length) none ++
      ((accessed ++ [s]).drop ((accessed ++ [s]).length - d.capacity)).map some := by
  have hpos := c.capacity_pos
  rw [h.queue_eq, hqueued.queue, h.capacity, List.length_append, List.length_singleton]
  rcases Nat.lt_or_ge accessed.length c.capacity with hfew | hmany
  · obtain ⟨free, hfree⟩ : ∃ free, c.capacity - accessed.length = free + 1 :=
      ⟨c.capacity - accessed.length - 1, by omega⟩
    have hrest : c.capacity - (accessed.length + 1) = free := by omega
    have hall : accessed.length - c.capacity = 0 := by omega
    have hall' : accessed.length + 1 - c.capacity = 0 := by omega
    rw [hfree, hrest, hall, hall', List.replicate_succ]
    simp
  · have hnone : c.capacity - accessed.length = 0 := by omega
    have hnone' : c.capacity - (accessed.length + 1) = 0 := by omega
    have hnext : accessed.length + 1 - c.capacity = accessed.length - c.capacity + 1 := by omega
    rw [hnone, hnone', hnext, List.drop_append_of_le_length (by omega), ← List.tail_drop]
    simp

end Cache.Pushed

namespace Cached.SecondChance

variable {α : Type} {c d : Cached RamDisk} {k : Nat} {s : UInt32} {a : Access α}
  {accessed : List UInt32} (h : c.SecondChance d k s a) (hk : c.cache.Chosen k)
  (hcapacity : d.cache.capacity = c.cache.capacity) (hqueued : c.cache.Queued accessed)
include h hk hcapacity hqueued

theorem pushed : c.cache.Pushed d.cache s := by
  have hnext := hqueued.ahead_of_chosen hk
  have hspared : ∀ slot : Slot, slot.spared.map Line.sector = slot.map Line.sector :=
    fun slot => by cases slot <;> rfl
  refine ⟨hcapacity, by rw [h.hand, hnext], ?_, fun i hi => ?_⟩
  · obtain ⟨t, ht⟩ := h.victim
    rw [← hnext, Cache.place?, ht]
    rfl
  · rw [← hnext] at hi
    by_cases hpassed : ∃ j, 0 < j ∧ j < k ∧ i = c.cache.ahead j
    · obtain ⟨j, hj, hlt, rfl⟩ := hpassed
      rw [Cache.place?, h.passed j hj hlt hi, Option.map_map, Cache.place?]
      congr 1
      funext slot
      exact hspared slot
    · rw [Cache.place?, h.kept i hi fun j hj hlt heq => hpassed ⟨j, hj, hlt, heq⟩, Cache.place?]

/-- The last slot of the new round is the one that was taken, and it has a mark. -/
theorem marked_iff {used : Nat} (hused : 0 < used)
    (hbefore : ∀ i, 0 < i → i < c.cache.capacity →
      (d.cache.marked (c.cache.ahead (i + 1)) = true ↔ c.cache.capacity < i + used))
    {i : Nat} (hi : 0 < i) (hle : i ≤ c.cache.capacity) :
    d.cache.marked (d.cache.ahead i) = true ↔ c.cache.capacity < i + used := by
  rw [(h.pushed hk hcapacity hqueued).ahead_eq]
  rcases Nat.lt_or_ge i c.cache.capacity with hlt | hge
  · exact hbefore i hi hlt
  · obtain rfl : i = c.cache.capacity := by omega
    have hlast : d.cache.marked (c.cache.ahead 1) = true := by
      obtain ⟨t, ht⟩ := h.victim
      rw [Cache.marked, ← hqueued.ahead_of_chosen hk, ht]
      rfl
    rw [Cache.ahead_capacity_add, hlast]
    simp only [true_iff]
    omega

/-- The mark of the slot that was taken is set; the others go only where all were set. -/
theorem exists_marks : ∃ used, used ≤ d.cache.capacity ∧ ∀ i, 0 < i → i ≤ d.cache.capacity →
    (d.cache.marked (d.cache.ahead i) = true ↔ d.cache.capacity < i + used) := by
  rw [hcapacity]
  obtain ⟨hone, used, hused, hmarks⟩ | hround := hqueued.chosen
  · -- no slot was passed
    obtain rfl := hk.unique hone
    refine ⟨used + 1, hused, fun i hi hle =>
      h.marked_iff hk hcapacity hqueued used.succ_pos (fun i hi hlt => ?_) hi hle⟩
    have hkept := h.kept (c.cache.ahead (i + 1)) (Cache.ahead_ne (by omega) (by omega)).symm
      fun j hj hj' => by omega
    have hsame :
        d.cache.marked (c.cache.ahead (i + 1)) = c.cache.marked (c.cache.ahead (i + 1)) := by
      rw [Cache.marked, hkept, Cache.marked]
    rw [hsame, hmarks (i + 1) (by omega) (by omega)]
    omega
  · -- all slots were passed
    obtain rfl := hk.unique hround
    refine ⟨1, c.cache.capacity_pos, fun i hi hle =>
      h.marked_iff hk hcapacity hqueued Nat.one_pos (fun i hi hlt => ?_) hi hle⟩
    have hpassed := h.passed (i + 1) (by omega) (by omega)
      ((hqueued.ahead_of_chosen hk).symm ▸ (Cache.ahead_ne (by omega) (by omega)).symm)
    have hclear : d.cache.marked (c.cache.ahead (i + 1)) = false := by
      rw [Cache.marked, hpassed]
      cases c.cache.slots[c.cache.ahead (i + 1)]? with
      | none => rfl
      | some slot => cases slot <;> rfl
    rw [hclear]
    simp only [Bool.false_eq_true, false_iff]
    omega

theorem queued : d.cache.Queued (accessed ++ [s]) where
  hand := by
    rw [h.hand, hqueued.ahead_of_chosen hk, hqueued.ahead_one, hcapacity, List.length_append,
      List.length_singleton]
  queue := (h.pushed hk hcapacity hqueued).queue_of_queued hqueued
  marks := h.exists_marks hk hcapacity hqueued

end Cached.SecondChance

namespace CacheCall

/-- What an access to a sector does after accesses to others, when its turn has come. -/
structure InTurn (before after : Cache) (accessed : List UInt32) (s : UInt32) : Prop where
  missed : s ∉ before.sectors
  placed : after.place? ((accessed.length + 1) % before.capacity) = some (some s)
  /-- The slot was empty while there were empty ones, and then held what was accessed first of the
  sectors that are cached. -/
  victim : before.place? ((accessed.length + 1) % before.capacity) =
    some (if accessed.length < before.capacity then none
      else accessed[accessed.length - before.capacity]?)
  others : ∀ i, i ≠ (accessed.length + 1) % before.capacity → after.place? i = before.place? i

/-- The state of a bench when all accesses to the managed disk have missed. -/
structure Turning (capacity : Nat) (start : Disks) (past : List CacheCall)
    (b : Bench) : Prop where
  tallied : Tallied capacity start past (past.filter fun call => call.managed?.isSome) b
  queued : b.store.cache.Queued (past.filterMap managed?)

theorem turning_empty (capacity : Nat) (hcapacity : 0 < capacity) (start : Disks) :
    Turning capacity start [] ⟨⟨Cache.empty capacity hcapacity, start.managed⟩, start.foreign⟩ :=
  ⟨tallied_empty capacity hcapacity start, Cache.queued_empty capacity hcapacity⟩

namespace Turning

variable {capacity : Nat} {start : Disks} {past : List CacheCall} {b : Bench}
  (h : Turning capacity start past b)
include h

theorem exists_managed {α : Type} {s : UInt32} {request : Request α}
    (hvalid : (ask .managed s request).Valid start.size)
    (hspread : Spread capacity (past.filterMap managed? ++ [s])) :
    ∃ reply b', (ask .managed s request).onBench b = .ok reply b' ∧
      Turning capacity start (past ++ [ask .managed s request]) b' ∧
      InTurn b.store.cache b'.store.cache (past.filterMap managed?) s := by
  have hcapacity := h.tallied.capacity
  obtain ⟨reply, b', hrun, htallied, hmoved⟩ := h.tallied.exists_managed hvalid
  obtain ⟨d, hrepresents, hsize⟩ := h.tallied.represents
  obtain ⟨a, haccess, -⟩ := Request.exists_access hvalid.1
  have habsent : s ∉ b.store.cache.sectors := by
    rw [h.queued.sectors_perm.mem_iff, hcapacity]
    exact hspread.not_mem_drop
  have hmissing : (ask .managed s request).missing b = true := by
    change (!b.store.cache.contains s) = true
    rw [Bool.not_eq_true', ← Bool.not_eq_true, Cache.contains_iff]
    exact habsent
  obtain ⟨k, hk⟩ := b.store.cache.exists_chosen
  have hperform : Cached.perform s a b.store = .ok reply b'.store :=
    Bench.of_onStore_ok ((onBench_ask haccess b).symm.trans hrun)
  have hs : s.toNat < b.store.size := by
    have hlt := hvalid.2
    rw [← hsize] at hlt
    exact Nat.lt_of_lt_of_eq hlt hrepresents.store.size
  have hchance := hrepresents.store.coherent.secondChance (a := a) (fun _ => hs)
    (Cache.find?_eq_none_iff_sectors.2 habsent) hk
  rw [stateAfter_of_ok hperform] at hchance
  have hpushed := hchance.pushed hk hmoved.capacity h.queued
  refine ⟨reply, b', hrun, ⟨?_, ?_⟩, habsent, ?_, ?_, fun i hi => ?_⟩
  · rw [hmissing, if_pos rfl] at htallied
    rw [List.filter_append]
    exact htallied
  · rw [List.filterMap_append]
    exact hchance.queued hk hmoved.capacity h.queued
  · rw [← h.queued.ahead_one]
    exact hpushed.placed
  · rw [← h.queued.ahead_one]
    exact h.queued.place?_next
  · rw [← h.queued.ahead_one] at hi
    exact hpushed.others i hi

/-- Calls that are not for the managed disk leave the queue as it is. -/
theorem exists_other {call : CacheCall} (hvalid : call.Valid start.size)
    (hother : call.managed? = none) :
    ∃ reply b', call.onBench b = .ok reply b' ∧ Turning capacity start (past ++ [call]) b' := by
  have hfilter : (past ++ [call]).filter (fun call => call.managed?.isSome) =
      past.filter fun call => call.managed?.isSome := by
    simp [hother]
  have haccessed : (past ++ [call]).filterMap managed? = past.filterMap managed? := by
    simp [hother]
  cases call with
  | flush =>
    obtain ⟨b', hrun, hflush, hflushed, -, htallied⟩ := h.tallied.exists_flush
    have hslots := (Cached.wroteSlots_of_flush hflush).slots
    have hplace : ∀ slot : Slot, slot.cleaned.map Line.sector = slot.map Line.sector :=
      fun slot => by cases slot <;> rfl
    have hmarked : ∀ slot : Slot, slot.cleaned.accessed = slot.accessed :=
      fun slot => by cases slot <;> rfl
    refine ⟨(), b', hrun, by rwa [hfilter], ?_⟩
    rw [haccessed]
    refine h.queued.congr hflushed.capacity hflushed.hand (fun i => ?_) fun i => ?_
    · rw [Cache.place?, hslots, Cache.place?]
      split
      · rw [Option.map_map]
        exact congrArg (Option.map · _) (funext hplace)
      · rfl
    · rw [Cache.marked, hslots, Cache.marked]
      split
      · rw [Option.any_map]
        exact congrArg (Option.any · _) (funext hmarked)
      · rfl
  | ask target s request =>
    cases target with
    | managed => cases hother
    | foreign =>
      obtain ⟨reply, b', hrun, hstore, htallied⟩ := h.tallied.exists_foreign hvalid
      exact ⟨reply, b', hrun, by rwa [hfilter], by rw [hstore, haccessed]; exact h.queued⟩

theorem exists_step {call : CacheCall} (hvalid : call.Valid start.size)
    (hspread : Spread capacity ((past ++ [call]).filterMap managed?)) :
    ∃ reply b', call.onBench b = .ok reply b' ∧ Turning capacity start (past ++ [call]) b' ∧
      ∀ s, call.managed? = some s →
        InTurn b.store.cache b'.store.cache (past.filterMap managed?) s := by
  rw [List.filterMap_append] at hspread
  cases hmanaged : call.managed? with
  | none =>
    obtain ⟨reply, b', hrun, h'⟩ := h.exists_other hvalid hmanaged
    exact ⟨reply, b', hrun, h', fun s hs => by cases hs⟩
  | some s =>
    cases call with
    | flush => cases hmanaged
    | ask target s' request =>
      cases target with
      | foreign => cases hmanaged
      | managed =>
        cases hmanaged
        obtain ⟨reply, b', hrun, h', hturn⟩ := h.exists_managed hvalid hspread
        refine ⟨reply, b', hrun, h', fun s hs => ?_⟩
        cases hs
        exact hturn

theorem exists_runAll (calls : List CacheCall) (hcalls : ∀ call ∈ calls, call.Valid start.size)
    (hspread : Spread capacity ((past ++ calls).filterMap managed?)) :
    ∃ b', runAll onBench calls b = .ok () b' ∧ Turning capacity start (past ++ calls) b' := by
  induction calls generalizing past b with
  | nil => exact ⟨b, rfl, by rwa [List.append_nil]⟩
  | cons call calls ih =>
    have hsplit : past ++ call :: calls = past ++ [call] ++ calls := by simp
    rw [hsplit] at hspread ⊢
    have hfirst : Spread capacity ((past ++ [call]).filterMap managed?) := by
      rw [List.filterMap_append] at hspread
      exact hspread.of_append
    obtain ⟨reply, b₁, hrun, h₁, -⟩ := h.exists_step (hcalls call List.mem_cons_self) hfirst
    obtain ⟨b', hrest, h'⟩ := ih h₁ (fun call hcall => hcalls call (List.mem_cons_of_mem _ hcall))
      hspread
    exact ⟨b', (runAll_cons_of_ok hrun).trans hrest, h'⟩

end Turning

/-- Where no sector is asked for among as many accesses to others as there are slots, whatever the
accesses are and whatever else is called between them, every access misses and the slots are taken
in turn. The cached sectors are always those that were accessed last, and an access that finds no
empty slot takes that of the one that was accessed first of them. -/
theorem misses_take_turns (capacity : Nat) (hcapacity : 0 < capacity) (start : Disks)
    (calls : List CacheCall) (hcalls : ∀ call ∈ calls, call.Valid start.size)
    (hspread : Spread capacity (calls.filterMap managed?)) :
    ∃ b, runAll onBench calls ⟨⟨Cache.empty capacity hcapacity, start.managed⟩, start.foreign⟩ =
        .ok () b ∧
      b.store.cache.stats.hits = 0 ∧
      b.store.cache.stats.misses = (calls.filterMap managed?).length ∧
      b.store.cache.stats.evictions = (calls.filterMap managed?).length - capacity ∧
      b.store.cache.sectors.Perm
        ((calls.filterMap managed?).drop ((calls.filterMap managed?).length - capacity)) ∧
      ∀ before call after s, calls = before ++ call :: after → call.managed? = some s →
        ∃ b₀ reply b₁, runAll onBench before
            ⟨⟨Cache.empty capacity hcapacity, start.managed⟩, start.foreign⟩ = .ok () b₀ ∧
          b₀.store.cache.capacity = capacity ∧ call.onBench b₀ = .ok reply b₁ ∧
          InTurn b₀.store.cache b₁.store.cache (before.filterMap managed?) s := by
  have hstart := turning_empty capacity hcapacity start
  obtain ⟨b, hrun, h⟩ := hstart.exists_runAll calls hcalls (by rwa [List.nil_append])
  rw [List.nil_append] at h
  have hcount := h.tallied.accesses
  have hmissed := h.tallied.length_missed
  have hlengths : (calls.filter fun call => call.managed?.isSome).length =
      (calls.filterMap managed?).length := by
    rw [List.length_filterMap_eq_countP, List.countP_eq_length_filter]
  have hevictions := h.tallied.filling.evictions_eq
  have hsectors := h.queued.sectors_perm
  rw [h.tallied.capacity] at hevictions hsectors
  refine ⟨b, hrun, by omega, by omega, by omega, hsectors, ?_⟩
  intro before call after s hsplit hs
  subst hsplit
  have hvalid : call.Valid start.size := hcalls call (by simp)
  have hnext : Spread capacity ((before ++ [call]).filterMap managed?) := by
    rw [show before ++ call :: after = before ++ [call] ++ after by simp, List.filterMap_append]
      at hspread
    exact hspread.of_append
  have hbefore : Spread capacity (before.filterMap managed?) := by
    rw [List.filterMap_append] at hnext
    exact hnext.of_append
  obtain ⟨b₀, hrun₀, h₀⟩ := hstart.exists_runAll before
    (fun call hcall => hcalls call (List.mem_append_left _ hcall)) (by rwa [List.nil_append])
  rw [List.nil_append] at h₀
  obtain ⟨reply, b₁, hcall, -, hturn⟩ := h₀.exists_step hvalid hnext
  exact ⟨b₀, reply, b₁, hrun₀, h₀.tallied.capacity, hcall, hturn s hs⟩

theorem spread_turns : Spread 1 (turns.filterMap managed?) := by
  have hlist : turns.filterMap managed? = [0, 1, 0] := rfl
  rw [hlist]
  intro i j s hi hj hlt
  have hlast : j < 3 := (List.getElem?_eq_some_iff.1 hj).1
  have hsame := hi.trans hj.symm
  have hcases : (i = 0 ∧ j = 1) ∨ (i = 0 ∧ j = 2) ∨ (i = 1 ∧ j = 2) := by omega
  rcases hcases with ⟨rfl, rfl⟩ | ⟨rfl, rfl⟩ | ⟨rfl, rfl⟩
  · exact absurd hsame (by decide)
  · decide
  · exact absurd hsame (by decide)

/-- Two sectors in turn, and one slot. -/
theorem turns_never_hit : ∃ b,
    runAll onBench turns ⟨⟨Cache.empty 1 (by decide), twoDisks.managed⟩, twoDisks.foreign⟩ =
      .ok () b ∧
      b.store.cache.stats.hits = 0 ∧ b.store.cache.stats.misses = 3 ∧
      b.store.cache.stats.evictions = 2 ∧ b.store.cache.sectors.Perm [0] := by
  obtain ⟨b, hrun, hhits, hmisses, hevictions, hsectors, -⟩ :=
    misses_take_turns 1 (by decide) twoDisks turns valid_turns spread_turns
  exact ⟨b, hrun, hhits, hmisses, hevictions, hsectors⟩

end CacheCall

end SectorVolume
