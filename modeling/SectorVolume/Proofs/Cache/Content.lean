import SectorVolume.Cached
import Mathlib.Logic.Function.Basic

/-!
What a cached disk holds, seen through the cache: a sector reads as its slot has it, or else as
the disk has it. In a coherent cache no sector has two slots and the disk is behind only where a
line is marked as changed. An access then acts on the content of its one sector and on nothing
else, whether it hits, finds an empty slot or evicts; a flush leaves the content and brings the
disk up to it.
-/

namespace SectorVolume

theorem bind_of_ok {σ α β : Type} {m : EStateM Fault σ α} {k : α → EStateM Fault σ β} {s t : σ}
    {a : α} (h : m s = .ok a t) : (m >>= k) s = k a t := by
  change EStateM.bind m k s = k a t
  rw [EStateM.bind, h]

theorem bind_of_error {σ α β : Type} {m : EStateM Fault σ α} {k : α → EStateM Fault σ β} {s t : σ}
    {f : Fault} (h : m s = .error f t) : (m >>= k) s = .error f t := by
  change EStateM.bind m k s = .error f t
  rw [EStateM.bind, h]

theorem exists_of_bind_ok {σ α β : Type} {m : EStateM Fault σ α} {k : α → EStateM Fault σ β}
    {s u : σ} {b : β} (h : (m >>= k) s = .ok b u) : ∃ a t, m s = .ok a t ∧ k a t = .ok b u := by
  cases hm : m s with
  | ok a t =>
    rw [bind_of_ok hm] at h
    exact ⟨a, t, rfl, h⟩
  | error f t =>
    rw [bind_of_error hm] at h
    exact absurd h (by simp)

/-- What a computation leaves behind, whether it succeeds or fails. -/
def stateAfter {σ α : Type} (m : EStateM Fault σ α) (s : σ) : σ :=
  match m s with
  | .ok _ t => t
  | .error _ t => t

theorem stateAfter_of_ok {σ α : Type} {m : EStateM Fault σ α} {s t : σ} {a : α}
    (h : m s = .ok a t) : stateAfter m s = t := by
  rw [stateAfter, h]

theorem stateAfter_of_error {σ α : Type} {m : EStateM Fault σ α} {s t : σ} {f : Fault}
    (h : m s = .error f t) : stateAfter m s = t := by
  rw [stateAfter, h]

/-- The sector of a line, its bytes, and whether they differ from the device's. -/
def Line.entry (line : Line) : UInt32 × Sector × Bool := (line.sector, line.data, line.dirty)

namespace Cache

def held? (c : Cache) (i : Nat) : Option (UInt32 × Sector × Bool) :=
  c.slots[i]?.bind fun slot => slot.map Line.entry

theorem held?_of_slot {c : Cache} {i : Nat} {line : Line} (h : c.slots[i]? = some (some line)) :
    c.held? i = some line.entry := by
  simp [held?, h]

theorem held?_eq_some_iff {c : Cache} {i : Nat} {e : UInt32 × Sector × Bool} :
    c.held? i = some e ↔ ∃ line, c.slots[i]? = some (some line) ∧ line.entry = e := by
  constructor
  · intro h
    obtain ⟨slot, hslot, hline⟩ := Option.bind_eq_some_iff.1 h
    obtain ⟨line, rfl, he⟩ := Option.map_eq_some_iff.1 hline
    exact ⟨line, hslot, he⟩
  · rintro ⟨line, hslot, rfl⟩
    exact held?_of_slot hslot

theorem held?_setSlot (c : Cache) (i j : Nat) (slot : Slot) (hi : i < c.slots.size) :
    (c.setSlot i slot).held? j = if j = i then slot.map Line.entry else c.held? j := by
  by_cases h : j = i
  · subst h
    simp [held?, setSlot, hi]
  · have hne : i ≠ j := Ne.symm h
    simp [held?, setSlot, h, hne]

@[simp] theorem held?_advance (c : Cache) (i : Nat) : c.advance.held? i = c.held? i := rfl

@[simp] theorem held?_countHit (c : Cache) (i : Nat) : c.countHit.held? i = c.held? i := rfl

@[simp] theorem held?_countMiss (c : Cache) (i : Nat) : c.countMiss.held? i = c.held? i := rfl

@[simp] theorem held?_countWriteBack (c : Cache) (i : Nat) :
    c.countWriteBack.held? i = c.held? i := rfl

theorem held?_hand (c : Cache) : c.held? c.hand = c.current.map Line.entry := by
  have h := c.hand_lt
  simp [held?, current, h]

/-- Taking a mark of use away changes no line otherwise. -/
@[simp] theorem held?_spare (c : Cache) (i : Nat) : c.spare.held? i = c.held? i := by
  rw [spare, setCurrent, held?_setSlot _ _ _ _ c.hand_lt]
  by_cases h : i = c.hand
  · subst h
    rw [if_pos rfl, held?_hand]
    cases c.current <;> rfl
  · rw [if_neg h]

@[simp] theorem held?_sweepFor (steps : Nat) (c : Cache) (i : Nat) :
    (sweepFor steps c).held? i = c.held? i := by
  induction steps generalizing c with
  | zero => rfl
  | succ steps ih =>
    simp only [sweepFor]
    split
    · rw [ih, held?_spare, held?_advance]
    · exact held?_advance c i

@[simp] theorem held?_sweep (c : Cache) (i : Nat) : c.sweep.held? i = c.held? i :=
  held?_sweepFor _ c i

theorem find?_eq_none_iff_entry {c : Cache} {s : UInt32} :
    c.find? s = none ↔ ∀ i x p, c.held? i ≠ some (s, x, p) := by
  rw [find?_eq_none_iff]
  constructor
  · intro h i x p he
    obtain ⟨line, hslot, heq⟩ := held?_eq_some_iff.1 he
    exact h i line hslot (congrArg Prod.fst heq)
  · intro h i line hslot hs
    subst hs
    exact h i line.data line.dirty (held?_of_slot hslot)

@[simp] theorem held?_empty (capacity : Nat) (h : 0 < capacity) (i : Nat) :
    (empty capacity h).held? i = none := by
  by_cases hi : i < capacity <;> simp [held?, empty, hi]

end Cache

namespace Cached

/-- A sector as it is read: from its slot, or else from the disk. -/
def content (c : Cached RamDisk) (s : UInt32) : Sector :=
  match c.cache.find? s with
  | some (_, line) => line.data
  | none => c.disk.device.sectors[s.toNat]?.getD Sector.zero

/-- The number of sectors of the disk. -/
def size (c : Cached RamDisk) : Nat := c.disk.device.sectors.size

structure Coherent (c : Cached RamDisk) : Prop where
  /-- No sector has two slots. -/
  unique : ∀ {i j s x y p q}, c.cache.held? i = some (s, x, p) →
    c.cache.held? j = some (s, y, q) → i = j
  /-- Only sectors of the disk are cached. -/
  onDisk : ∀ {i s x p}, c.cache.held? i = some (s, x, p) → s.toNat < c.size
  /-- An unchanged line holds what the disk holds. -/
  clean : ∀ {i s x}, c.cache.held? i = some (s, x, false) →
    c.disk.device.sectors[s.toNat]? = some x

theorem content_of_entry {c : Cached RamDisk} (h : c.Coherent) {i : Nat} {s : UInt32} {x : Sector}
    {p : Bool} (he : c.cache.held? i = some (s, x, p)) : c.content s = x := by
  cases hfind : c.cache.find? s with
  | none => exact absurd he (Cache.find?_eq_none_iff_entry.1 hfind i x p)
  | some found =>
    obtain ⟨j, line⟩ := found
    obtain ⟨hslot, rfl⟩ := Cache.find?_eq_some hfind
    have hj := Cache.held?_of_slot hslot
    have hij : i = j := h.unique he hj
    subst hij
    rw [hj] at he
    simp only [content, hfind]
    exact congrArg (fun e => e.2.1) (Option.some.inj he)

theorem content_of_uncached {c : Cached RamDisk} {s : UInt32}
    (h : ∀ i x p, c.cache.held? i ≠ some (s, x, p)) :
    c.content s = c.disk.device.sectors[s.toNat]?.getD Sector.zero := by
  simp only [content, Cache.find?_eq_none_iff_entry.2 h]

/-- Slot `h` may be filled with sector `s`: no other slot has `s`, and what the slot held of
another sector is on the disk. -/
structure Freed (c d : Cached RamDisk) (h : Nat) (s : UInt32) : Prop where
  size : d.size = c.size
  other : ∀ j, j ≠ h → d.cache.held? j = c.cache.held? j
  absent : ∀ j x p, j ≠ h → c.cache.held? j ≠ some (s, x, p)
  evicted : ∀ k y p, c.cache.held? h = some (k, y, p) → k ≠ s →
    d.disk.device.sectors[k.toNat]? = some y
  kept : ∀ k : UInt32, (∀ y p, c.cache.held? h ≠ some (k, y, p)) →
    d.disk.device.sectors[k.toNat]? = c.disk.device.sectors[k.toNat]?

/-- The slot is filled with bytes `t`, and marked as changed unless the disk has them too. -/
structure Refill (c d : Cached RamDisk) (h : Nat) (s : UInt32) (t : Sector) (q : Bool) : Prop
    extends Freed c d h s where
  slot : d.cache.held? h = some (s, t, q)
  unchanged : q = false → d.disk.device.sectors[s.toNat]? = some t

namespace Refill

variable {c d : Cached RamDisk} {h : Nat} {s : UInt32} {t : Sector} {q : Bool}

theorem coherent (r : Refill c d h s t q) (hc : c.Coherent) (hs : s.toNat < c.size) :
    d.Coherent where
  unique := by
    intro i j k x y p p' hi hj
    by_cases hih : i = h
    · by_cases hjh : j = h
      · rw [hih, hjh]
      · rw [hih, r.slot] at hi
        rw [r.other j hjh] at hj
        obtain rfl : s = k := congrArg Prod.fst (Option.some.inj hi)
        exact absurd hj (r.absent j y p' hjh)
    · by_cases hjh : j = h
      · rw [hjh, r.slot] at hj
        rw [r.other i hih] at hi
        obtain rfl : s = k := congrArg Prod.fst (Option.some.inj hj)
        exact absurd hi (r.absent i x p hih)
      · rw [r.other i hih] at hi
        rw [r.other j hjh] at hj
        exact hc.unique hi hj
  onDisk := by
    intro i k x p hi
    rw [r.size]
    by_cases hih : i = h
    · rw [hih, r.slot] at hi
      obtain rfl : s = k := congrArg Prod.fst (Option.some.inj hi)
      exact hs
    · rw [r.other i hih] at hi
      exact hc.onDisk hi
  clean := by
    intro i k x hi
    by_cases hih : i = h
    · rw [hih, r.slot] at hi
      obtain ⟨rfl, rfl, hq⟩ : s = k ∧ t = x ∧ q = false := by simpa using hi
      exact r.unchanged hq
    · rw [r.other i hih] at hi
      rw [r.kept k fun y p hk => hih (hc.unique hi hk)]
      exact hc.clean hi

/-- A refill shows in one sector only. -/
theorem content_eq (r : Refill c d h s t q) (hc : c.Coherent) (hs : s.toNat < c.size) :
    d.content = Function.update c.content s t := by
  have hd := r.coherent hc hs
  funext k
  by_cases hk : k = s
  · rw [hk, Function.update_self]
    exact content_of_entry hd r.slot
  · rw [Function.update_of_ne hk]
    have hslot : ∀ y p, d.cache.held? h ≠ some (k, y, p) := by
      intro y p he
      rw [r.slot] at he
      exact hk (congrArg Prod.fst (Option.some.inj he)).symm
    have habsent : (∀ j x p, j ≠ h → c.cache.held? j ≠ some (k, x, p)) →
        ∀ j x p, d.cache.held? j ≠ some (k, x, p) := by
      intro hno j x p he
      by_cases hj : j = h
      · rw [hj] at he
        exact hslot x p he
      · rw [r.other j hj] at he
        exact hno j x p hj he
    rcases Classical.em (∃ j x p, j ≠ h ∧ c.cache.held? j = some (k, x, p)) with hcached | hcached
    · obtain ⟨j, x, p, hj, he⟩ := hcached
      rw [content_of_entry hc he]
      exact content_of_entry hd (by rw [r.other j hj]; exact he)
    · have hno : ∀ j x p, j ≠ h → c.cache.held? j ≠ some (k, x, p) :=
        fun j x p hj he => hcached ⟨j, x, p, hj, he⟩
      rw [content_of_uncached (habsent hno)]
      rcases Classical.em (∃ y p, c.cache.held? h = some (k, y, p)) with hout | hout
      · obtain ⟨y, p, he⟩ := hout
        rw [content_of_entry hc he, r.evicted k y p he hk, Option.getD_some]
      · have hno' : ∀ y p, c.cache.held? h ≠ some (k, y, p) := fun y p he => hout ⟨y, p, he⟩
        rw [r.kept k hno', content_of_uncached]
        intro j x p he
        by_cases hj : j = h
        · rw [hj] at he
          exact hno' x p he
        · exact hno j x p hj he

end Refill

end Cached

end SectorVolume
