import SectorVolume.Proofs.Cache.Outline
import Mathlib.Data.List.Dedup
import Mathlib.Data.List.Perm.Subperm

/-!
How a cache fills up. The hand starts on slot 0, so the first sector goes into slot 1 and the last
empty slot is slot 0; as long as there are empty slots the hand stands on the one filled last, and
the next one is empty. So no slot is given up while another is empty, and until a slot is given up
the cache holds just the sectors that were asked for.
-/

namespace SectorVolume

theorem countP_set_add {α : Type} {l : List α} {i : Nat} {x : α} (h : l[i]? = some x) (y : α)
    (p : α → Bool) : (l.set i y).countP p + (p x).toNat = l.countP p + (p y).toNat := by
  obtain ⟨pre, post, rfl, hset⟩ := exists_split_of_set h
  rw [hset, List.countP_append, List.countP_append, List.countP_cons, List.countP_cons]
  cases p x <;> cases p y <;> simp <;> omega

namespace Cache

variable {c d : Cache} {s : UInt32} {writes : Bool}

theorem capacity_pos (c : Cache) : 0 < c.capacity := Nat.lt_of_le_of_lt (Nat.zero_le _) c.hand_lt

theorem Used.capacity {i : Nat} {p : Bool} (h : c.Used d s writes i p) :
    d.capacity = c.capacity := by
  rw [← length_outline, h.outline, List.length_set, length_outline]

theorem Replaced.capacity {slot : Slot} (h : c.Replaced d s writes slot) :
    d.capacity = c.capacity := by
  rw [← length_outline, h.outline, List.length_set, length_outline]

theorem Moved.capacity (h : c.Moved d s writes) : d.capacity = c.capacity := by
  cases h with
  | hit i p h => exact h.capacity
  | miss slot h => exact h.capacity

theorem Flushed.capacity (h : c.Flushed d) : d.capacity = c.capacity := by
  rw [← length_outline, h.outline, List.length_map, length_outline]

section Counts

/-- A hit leaves as many slots with a property, except for its own. -/
theorem Used.countP_outline {i : Nat} {p : Bool} (h : c.Used d s writes i p)
    (q : Option (UInt32 × Bool) → Bool) :
    d.outline.countP q + (q (some (s, p))).toNat =
      c.outline.countP q + (q (some (s, p || writes))).toNat := by
  rw [h.outline]
  exact countP_set_add h.found _ q

theorem Replaced.countP_outline {slot : Slot} (h : c.Replaced d s writes slot)
    (q : Option (UInt32 × Bool) → Bool) :
    d.outline.countP q + (q (slot.map fun line => (line.sector, line.dirty))).toNat =
      c.outline.countP q + (q (some (s, writes))).toNat := by
  rw [h.outline]
  exact countP_set_add h.victim _ q

theorem Replaced.misses_eq {slot : Slot} (h : c.Replaced d s writes slot) :
    d.stats.misses = c.stats.misses + 1 := by
  rw [h.stats, Stats.giveUp]

theorem Replaced.evictions_eq {slot : Slot} (h : c.Replaced d s writes slot) :
    d.stats.evictions = c.stats.evictions + slot.isSome.toNat := by
  rw [h.stats, Stats.giveUp]

theorem Moved.accesses_eq (h : c.Moved d s writes) :
    d.stats.hits + d.stats.misses = c.stats.hits + c.stats.misses + 1 := by
  cases h with
  | hit i p h =>
    rw [h.stats]
    exact Nat.add_right_comm _ _ _
  | miss slot h =>
    rw [h.stats]
    rfl

/-- An access changes one more slot if it writes; a changed slot that is given up is written
back. -/
theorem Moved.changed_add_le (h : c.Moved d s writes) :
    d.changed + d.stats.writeBacks ≤ c.changed + c.stats.writeBacks + writes.toNat := by
  cases h with
  | hit i p h =>
    have hcount := h.countP_outline fun entry => entry.any Prod.snd
    rw [h.stats, changed, changed]
    cases p <;> cases writes <;> simp at hcount ⊢ <;> omega
  | miss slot h =>
    have hcount := h.countP_outline fun entry => entry.any Prod.snd
    rw [h.stats, changed, changed, Stats.giveUp]
    cases slot <;> simp at hcount ⊢ <;> omega

theorem Moved.changed_le (h : c.Moved d s writes) : d.changed ≤ c.changed + writes.toNat := by
  have hadd := h.changed_add_le
  have hmono : c.stats.writeBacks ≤ d.stats.writeBacks := by
    cases h with
    | hit i p h => exact Nat.le_of_eq (by rw [h.stats])
    | miss slot h =>
      rw [h.stats]
      exact Nat.le_add_right _ _
  omega

theorem Flushed.changed_eq (h : c.Flushed d) : d.changed = 0 := by
  rw [changed, h.outline, List.countP_map, List.countP_eq_zero]
  intro entry _
  cases entry <;> simp

theorem changed_empty (capacity : Nat) (h : 0 < capacity) : (empty capacity h).changed = 0 := by
  rw [changed, List.countP_eq_zero]
  simp [outline, empty]

end Counts

/-- How many misses it takes to fill a slot of an empty cache. -/
def rank (c : Cache) (i : Nat) : Nat := if i = 0 then c.capacity else i

/-- Slots are filled in turn, and while there are empty ones none is given up. -/
structure Filling (c : Cache) : Prop where
  empty_iff : ∀ i < c.capacity, c.outline[i]? = some none ↔ c.stats.misses < c.rank i
  hand : c.stats.misses < c.capacity → c.hand = c.stats.misses
  full : c.stats.evictions ≠ 0 → c.capacity ≤ c.stats.misses
  count : c.sectors.length + c.stats.evictions = c.stats.misses

theorem rank_next {k : Nat} (h : k < c.capacity) : c.rank ((k + 1) % c.capacity) = k + 1 := by
  rcases Nat.lt_or_eq_of_le (Nat.succ_le_of_lt h) with hlt | heq
  · rw [Nat.mod_eq_of_lt hlt, rank, if_neg (Nat.succ_ne_zero k)]
  · have hwrap : k + 1 = c.capacity := heq
    rw [hwrap, Nat.mod_self, rank, if_pos rfl]

theorem eq_next_of_rank {i k : Nat} (hi : i < c.capacity) (h : c.rank i = k + 1) :
    i = (k + 1) % c.capacity := by
  rw [rank] at h
  split at h
  · rw [← h, Nat.mod_self]
    assumption
  · rw [← h, Nat.mod_eq_of_lt hi]

theorem rank_le {i : Nat} (hi : i < c.capacity) : c.rank i ≤ c.capacity := by
  rw [rank]
  split <;> omega

theorem filling_empty (capacity : Nat) (h : 0 < capacity) : (empty capacity h).Filling where
  empty_iff i hi := by
    have hempty : (empty capacity h).outline[i]? = some none := by
      have hlt : i < capacity := by simpa [empty, Cache.capacity] using hi
      simp [getElem?_outline, empty, hlt]
    have hrank : 0 < (empty capacity h).rank i := by
      rw [rank]
      split <;> omega
    exact iff_of_true hempty hrank
  hand _ := rfl
  full hne := absurd rfl hne
  count := by
    simp [empty, sectors]

/-- The slot after the one filled last is empty. -/
theorem Filling.free (hc : c.Filling) (h : c.stats.misses < c.capacity) :
    c.outline[(c.hand + 1) % c.capacity]? = some none := by
  rw [hc.empty_iff _ (Nat.mod_lt _ c.capacity_pos), hc.hand h, rank_next h]
  exact Nat.lt_succ_self _

theorem Filling.length_sectors (hc : c.Filling) :
    c.sectors.length = min c.stats.misses c.capacity := by
  have hcount := hc.count
  rcases Nat.lt_or_ge c.stats.misses c.capacity with hlt | hge
  · have hnone : c.stats.evictions = 0 := by
      by_contra hne
      exact absurd (hc.full hne) (Nat.not_le.2 hlt)
    rw [Nat.min_eq_left (Nat.le_of_lt hlt)]
    omega
  · rw [Nat.min_eq_right hge, Cache.length_sectors, ← length_outline, List.countP_eq_length]
    intro entry hentry
    obtain ⟨i, hi⟩ := List.mem_iff_getElem?.1 hentry
    have hlt : i < c.capacity := by
      rw [← length_outline]
      exact (List.getElem?_eq_some_iff.1 hi).1
    cases entry with
    | some e => rfl
    | none =>
      have hempty := (hc.empty_iff i hlt).1 hi
      exact absurd (Nat.lt_of_lt_of_le hempty (rank_le hlt)) (Nat.not_lt.2 hge)

theorem Filling.evictions_eq (hc : c.Filling) :
    c.stats.evictions = c.stats.misses - min c.stats.misses c.capacity := by
  have hcount := hc.count
  rw [hc.length_sectors] at hcount
  omega

/-- A slot is given up just if all slots are full. -/
theorem Replaced.isSome_iff {slot : Slot} (h : c.Replaced d s writes slot) (hc : c.Filling) :
    slot.isSome = true ↔ c.capacity ≤ c.stats.misses := by
  rcases Nat.lt_or_ge c.stats.misses c.capacity with hlt | hge
  · have hfree := hc.free hlt
    rw [← h.free hfree, h.victim, Option.some.injEq, Option.map_eq_none_iff] at hfree
    simp [hfree, hlt]
  · have hhand : d.hand < c.capacity := h.capacity ▸ d.hand_lt
    refine iff_of_true ?_ hge
    cases slot with
    | some line => rfl
    | none =>
      have hempty := (hc.empty_iff _ hhand).1 h.victim
      exact absurd (Nat.lt_of_lt_of_le hempty (rank_le hhand)) (Nat.not_lt.2 hge)

theorem Flushed.filling (h : c.Flushed d) (hc : c.Filling) : d.Filling where
  empty_iff i hi := by
    rw [h.capacity] at hi
    rw [rank, h.capacity, ← rank, h.stats, ← hc.empty_iff i hi, h.outline, List.getElem?_map]
    rcases c.outline[i]? with _ | _ | entry <;> simp
  hand := by
    rw [h.stats, h.capacity, h.hand]
    exact hc.hand
  full := by
    rw [h.stats, h.capacity]
    exact hc.full
  count := by
    rw [Cache.length_sectors, h.outline, List.countP_map, h.stats, ← hc.count,
      Cache.length_sectors]
    congr 2
    funext entry
    cases entry <;> rfl

/-- A hit empties and fills no slot. -/
theorem Used.filling {i : Nat} {p : Bool} (h : c.Used d s writes i p) (hc : c.Filling) :
    d.Filling := by
  obtain ⟨hi, -⟩ := List.getElem?_eq_some_iff.1 h.found
  refine ⟨fun j hj => ?_, ?_, ?_, ?_⟩
  · rw [h.capacity] at hj
    rw [rank, h.capacity, ← rank, h.stats, ← hc.empty_iff j hj, h.outline]
    by_cases hji : j = i
    · rw [hji, List.getElem?_set_self hi, h.found]
      simp
    · rw [List.getElem?_set_ne (Ne.symm hji)]
  · rw [h.stats, h.capacity, h.hand]
    exact hc.hand
  · rw [h.stats, h.capacity]
    exact hc.full
  · have hcount := h.countP_outline Option.isSome
    rw [← Cache.length_sectors, ← Cache.length_sectors] at hcount
    rw [h.stats, ← hc.count, Nat.add_right_cancel hcount]

/-- A miss takes the slot of its rank, as long as there are empty ones. -/
theorem Replaced.rank_hand {slot : Slot} (h : c.Replaced d s writes slot) (hc : c.Filling)
    (hroom : c.stats.misses < c.capacity) : c.rank d.hand = c.stats.misses + 1 := by
  rw [h.free (hc.free hroom), hc.hand hroom, rank_next hroom]

/-- A miss fills the next empty slot, as long as there is one. -/
theorem Replaced.filling {slot : Slot} (h : c.Replaced d s writes slot) (hc : c.Filling) :
    d.Filling := by
  have hgiven := h.isSome_iff hc
  have hhand : d.hand < c.capacity := h.capacity ▸ d.hand_lt
  refine ⟨fun j hj => ?_, fun hroom => ?_, fun hne => ?_, ?_⟩
  · rw [h.capacity] at hj
    rw [rank, h.capacity, ← rank, h.misses_eq]
    by_cases hjh : j = d.hand
    -- the slot that was filled: its turn has come, or all slots had theirs
    · have hheld : d.outline[d.hand]? = some (some (s, writes)) := by
        rw [h.outline]
        exact List.getElem?_set_self (length_outline c ▸ hhand)
      have hturn : ¬ c.stats.misses + 1 < c.rank d.hand := by
        rcases Nat.lt_or_ge c.stats.misses c.capacity with hroom | hfull
        · rw [h.rank_hand hc hroom]
          exact Nat.lt_irrefl _
        · have hrank := rank_le hhand
          omega
      rw [hjh]
      exact iff_of_false (by simp [hheld]) hturn
    -- any other slot: its turn is another one
    · have hother : c.rank j ≠ c.stats.misses + 1 := by
        intro hrank
        rcases Nat.lt_or_ge c.stats.misses c.capacity with hroom | hfull
        · rw [eq_next_of_rank hj hrank, ← eq_next_of_rank hhand (h.rank_hand hc hroom)] at hjh
          exact hjh rfl
        · have hle := rank_le hj
          omega
      rw [h.outline, List.getElem?_set_ne (Ne.symm hjh), hc.empty_iff j hj]
      omega
  · rw [h.misses_eq, h.capacity] at hroom
    have hbefore : c.stats.misses < c.capacity := by omega
    rw [h.free (hc.free hbefore), hc.hand hbefore, h.misses_eq, Nat.mod_eq_of_lt hroom]
  · rw [h.misses_eq, h.capacity]
    rw [h.evictions_eq] at hne
    cases hslot : slot.isSome with
    | true => exact Nat.le_succ_of_le (hgiven.1 hslot)
    | false =>
      rw [hslot] at hne
      exact Nat.le_succ_of_le (hc.full hne)
  · have hcount := h.countP_outline Option.isSome
    rw [← Cache.length_sectors, ← Cache.length_sectors, Option.isSome_map] at hcount
    have hbefore := hc.count
    rw [h.evictions_eq, h.misses_eq]
    simp only [Option.isSome_some, Bool.toNat_true] at hcount
    omega

theorem Moved.filling (h : c.Moved d s writes) (hc : c.Filling) : d.Filling := by
  cases h with
  | hit i p h => exact h.filling hc
  | miss slot h => exact h.filling hc

/-- No slot is given up while another one is empty. -/
theorem Moved.evictions_eq_of_room (h : c.Moved d s writes) (hc : c.Filling)
    (hroom : c.sectors.length < c.capacity) : d.stats.evictions = c.stats.evictions := by
  cases h with
  | hit i p h => rw [h.stats]
  | miss slot h =>
    have hempty : slot.isSome = false := by
      rw [← Bool.not_eq_true, h.isSome_iff hc]
      rw [hc.length_sectors] at hroom
      omega
    rw [h.evictions_eq, hempty]
    rfl

/-- How the sectors that were asked for, and those that were missed, go with what a cache
holds. -/
structure Tracked (c : Cache) (touched missed : List UInt32) : Prop where
  length : missed.length = c.stats.misses
  mem_iff : ∀ s, s ∈ missed ↔ s ∈ touched
  known : ∀ s ∈ c.sectors, s ∈ missed
  kept : c.stats.evictions = 0 → missed.Nodup ∧ ∀ s ∈ missed, s ∈ c.sectors
  few : touched.dedup.length ≤ c.capacity → c.stats.evictions = 0

theorem tracked_empty (capacity : Nat) (h : 0 < capacity) : (empty capacity h).Tracked [] [] := by
  constructor <;> simp [empty, sectors]

section Tracked

variable {touched missed : List UInt32}

theorem Used.sectors_eq {i : Nat} {p : Bool} (h : c.Used d s writes i p) :
    d.sectors = c.sectors := by
  obtain ⟨pre, post, hsplit, hset⟩ := exists_split_of_set h.found
  rw [Cache.sectors_eq, Cache.sectors_eq, h.outline, hset, hsplit]
  simp

theorem Replaced.mem_sectors {slot : Slot} (h : c.Replaced d s writes slot) {x : UInt32}
    (hx : x ∈ d.sectors) : x = s ∨ x ∈ c.sectors := by
  obtain ⟨pre, post, hsplit, hset⟩ := exists_split_of_set h.victim
  rw [Cache.sectors_eq, h.outline, hset, List.filterMap_append, List.mem_append] at hx
  rw [Cache.sectors_eq, hsplit, List.filterMap_append, List.mem_append]
  rcases hx with hpre | hpost
  · exact Or.inr (Or.inl hpre)
  · rw [List.filterMap_cons, Option.map_some, List.mem_cons] at hpost
    refine hpost.imp_right fun hrest => Or.inr ?_
    cases slot with
    | none => exact hrest
    | some line => exact List.mem_cons_of_mem _ hrest

/-- A sector that goes into an empty slot takes no other one out. -/
theorem Replaced.mem_sectors_of_empty (h : c.Replaced d s writes none) {x : UInt32}
    (hx : x = s ∨ x ∈ c.sectors) : x ∈ d.sectors := by
  obtain ⟨pre, post, hsplit, hset⟩ := exists_split_of_set h.victim
  rw [Cache.sectors_eq, hsplit, List.filterMap_append, List.mem_append] at hx
  rw [Cache.sectors_eq, h.outline, hset, List.filterMap_append, List.mem_append]
  rw [List.filterMap_cons, Option.map_some, List.mem_cons]
  rcases hx with rfl | hpre | hpost
  · exact Or.inr (Or.inl rfl)
  · exact Or.inl hpre
  · exact Or.inr (Or.inr hpost)

theorem length_dedup_le (touched : List UInt32) (s : UInt32) :
    touched.dedup.length ≤ (touched ++ [s]).dedup.length := by
  refine (List.Nodup.subperm (List.nodup_dedup _) fun x hx => ?_).length_le
  rw [List.mem_dedup] at hx ⊢
  exact List.mem_append_left _ hx

/-- A hit is for a sector that was missed before. -/
theorem Used.tracked {i : Nat} {p : Bool} (h : c.Used d s writes i p)
    (ht : c.Tracked touched missed) : d.Tracked (touched ++ [s]) missed := by
  have hs : s ∈ touched :=
    (ht.mem_iff s).1 (ht.known s (Cache.mem_sectors.2 ⟨p, List.mem_of_getElem? h.found⟩))
  refine ⟨by rw [h.stats, ht.length], fun x => ?_, ?_, ?_, fun hfew => ?_⟩
  · rw [ht.mem_iff, List.mem_append, List.mem_singleton]
    exact ⟨Or.inl, fun hx => hx.elim id fun e => e ▸ hs⟩
  · rw [h.sectors_eq]
    exact ht.known
  · rw [h.stats, h.sectors_eq]
    exact ht.kept
  · rw [h.stats]
    rw [h.capacity] at hfew
    exact ht.few (Nat.le_trans (length_dedup_le _ _) hfew)

/-- A miss of a sector that was missed before needs an eviction in between. -/
theorem Replaced.tracked {slot : Slot} (h : c.Replaced d s writes slot) (hc : c.Filling)
    (ht : c.Tracked touched missed) : d.Tracked (touched ++ [s]) (missed ++ [s]) := by
  have hnew : c.stats.evictions = 0 → (missed ++ [s]).Nodup := by
    intro hnone
    obtain ⟨hnodup, hkept⟩ := ht.kept hnone
    rw [List.nodup_append]
    refine ⟨hnodup, List.nodup_singleton s, fun x hx y hy hxy => h.absent ?_⟩
    rw [← List.mem_singleton.1 hy, ← hxy]
    exact hkept x hx
  have hmem : ∀ x, x ∈ missed ++ [s] ↔ x ∈ touched ++ [s] := by
    intro x
    rw [List.mem_append, List.mem_append, ht.mem_iff]
  refine ⟨?_, hmem, fun x hx => ?_, fun hnone => ?_, fun hfew => ?_⟩
  · rw [List.length_append, ht.length, h.misses_eq, List.length_singleton]
  · rw [List.mem_append, List.mem_singleton]
    exact (h.mem_sectors hx).elim Or.inr fun hbefore => Or.inl (ht.known x hbefore)
  · rw [h.evictions_eq, Nat.add_eq_zero_iff] at hnone
    obtain ⟨hnone, hslot⟩ := hnone
    obtain rfl : slot = none := by
      cases slot with
      | none => rfl
      | some line => exact absurd hslot (by simp)
    refine ⟨hnew hnone, fun x hx => h.mem_sectors_of_empty ?_⟩
    rw [List.mem_append, List.mem_singleton] at hx
    exact hx.elim (fun hbefore => Or.inr ((ht.kept hnone).2 x hbefore)) Or.inl
  · rw [h.capacity] at hfew
    have hnone := ht.few (Nat.le_trans (length_dedup_le _ _) hfew)
    -- so far every miss was for another sector, so there have been fewer than there are slots
    have hlength : (missed ++ [s]).length ≤ (touched ++ [s]).dedup.length := by
      refine (List.Nodup.subperm (hnew hnone) fun x hx => ?_).length_le
      rw [List.mem_dedup]
      exact (hmem x).1 hx
    rw [List.length_append, ht.length, List.length_singleton] at hlength
    have hroom : slot.isSome = false := by
      rw [← Bool.not_eq_true, h.isSome_iff hc]
      omega
    rw [h.evictions_eq, hnone, hroom]
    rfl

theorem Moved.tracked (h : c.Moved d s writes) (hc : c.Filling) (ht : c.Tracked touched missed) :
    d.Tracked (touched ++ [s]) (missed ++ if c.contains s then [] else [s]) := by
  cases h with
  | hit i p h =>
    have hin : c.contains s = true :=
      contains_iff.2 (Cache.mem_sectors.2 ⟨p, List.mem_of_getElem? h.found⟩)
    rw [if_pos hin, List.append_nil]
    exact h.tracked ht
  | miss slot h =>
    rw [if_neg fun hin => h.absent (contains_iff.1 hin)]
    exact h.tracked hc ht

theorem Flushed.tracked (h : c.Flushed d) (ht : c.Tracked touched missed) :
    d.Tracked touched missed := by
  have hsectors : d.sectors = c.sectors := by
    rw [Cache.sectors_eq, Cache.sectors_eq, h.outline, List.filterMap_map]
    congr 1
    funext entry
    cases entry <;> rfl
  refine ⟨?_, ht.mem_iff, ?_, ?_, ?_⟩
  · rw [h.stats]
    exact ht.length
  · rw [hsectors]
    exact ht.known
  · rw [h.stats, hsectors]
    exact ht.kept
  · rw [h.stats, h.capacity]
    exact ht.few

end Tracked

end Cache

end SectorVolume
