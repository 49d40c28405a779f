import SectorVolume.Device

/-!
The slots of a cache and the clock that picks the slot to reuse. The hand goes round the slots; a
slot used since the hand last came by is passed once and its mark is taken away, so a round and
one more step always reach a slot without a mark.
-/

namespace SectorVolume

/-- A sector kept in a slot. -/
structure Line where
  sector : UInt32
  data : Sector
  dirty : Bool
  /-- Used since the hand last came by. -/
  accessed : Bool

abbrev Slot := Option Line

namespace Slot

def accessed (slot : Slot) : Bool := slot.any Line.accessed

def holds (slot : Slot) (sector : UInt32) : Bool := slot.any fun line => line.sector == sector

end Slot

structure Cache.Stats where
  hits : Nat := 0
  misses : Nat := 0
  /-- How often a slot in use was emptied for another sector. -/
  evictions : Nat := 0
  /-- How often a changed sector was written to the device. -/
  writeBacks : Nat := 0
  deriving DecidableEq, Repr

structure Cache where
  slots : Array Slot
  hand : Nat
  hand_lt : hand < slots.size
  stats : Cache.Stats

namespace Cache

/-- The number of slots where nothing else is asked for. -/
def defaultCapacity : Nat := 64

def empty (capacity : Nat) (h : 0 < capacity) : Cache where
  slots := Array.replicate capacity none
  hand := 0
  hand_lt := by simpa using h
  stats := {}

def ofCapacity (capacity : Nat) : Except Fault Cache :=
  if h : 0 < capacity then .ok (empty capacity h) else .error .noSlots

def capacity (c : Cache) : Nat := c.slots.size

/-- The slot under the hand. -/
def current (c : Cache) : Slot :=
  have h := c.hand_lt
  c.slots[c.hand]

def setSlot (c : Cache) (i : Nat) (slot : Slot) : Cache where
  slots := c.slots.setIfInBounds i slot
  hand := c.hand
  hand_lt := by simpa using c.hand_lt
  stats := c.stats

def setCurrent (c : Cache) (slot : Slot) : Cache := c.setSlot c.hand slot

def advance (c : Cache) : Cache where
  slots := c.slots
  hand := (c.hand + 1) % c.slots.size
  hand_lt := Nat.mod_lt _ (Nat.lt_of_le_of_lt (Nat.zero_le _) c.hand_lt)
  stats := c.stats

def countHit (c : Cache) : Cache := { c with stats.hits := c.stats.hits + 1 }

def countMiss (c : Cache) : Cache := { c with stats.misses := c.stats.misses + 1 }

def countEviction (c : Cache) : Cache := { c with stats.evictions := c.stats.evictions + 1 }

def countWriteBack (c : Cache) : Cache := { c with stats.writeBacks := c.stats.writeBacks + 1 }

@[simp] theorem capacity_setSlot (c : Cache) (i : Nat) (slot : Slot) :
    (c.setSlot i slot).capacity = c.capacity := by
  simp [capacity, setSlot]

@[simp] theorem capacity_advance (c : Cache) : c.advance.capacity = c.capacity := rfl

/-- The first slot that holds a sector, with what it holds. -/
def find? (c : Cache) (sector : UInt32) : Option (Nat × Line) := do
  let i ← c.slots.findFinIdx? fun slot => slot.holds sector
  let line ← c.slots[i]
  return (i.val, line)

def contains (c : Cache) (sector : UInt32) : Bool := c.slots.any fun slot => slot.holds sector

/-- A found line is in its slot and holds the sector that was looked for. -/
theorem find?_eq_some {c : Cache} {sector : UInt32} {i : Nat} {line : Line}
    (h : c.find? sector = some (i, line)) :
    c.slots[i]? = some (some line) ∧ line.sector = sector := by
  simp only [find?, Option.bind_eq_bind, Option.bind_eq_some_iff] at h
  obtain ⟨k, hk, found, hfound, heq⟩ := h
  have hhold := (Array.findFinIdx?_eq_some_iff.1 hk).1
  have hslot : c.slots[k.val] = some found := hfound
  cases heq
  refine ⟨?_, ?_⟩
  · rw [Array.getElem?_eq_getElem k.isLt, hslot]
  · simpa [Slot.holds, hslot] using hhold

/-- A sector is not found exactly if no slot holds it. -/
theorem find?_eq_none_iff {c : Cache} {sector : UInt32} :
    c.find? sector = none ↔
      ∀ (i : Nat) (line : Line), c.slots[i]? = some (some line) → line.sector ≠ sector := by
  cases hk : c.slots.findFinIdx? fun slot => slot.holds sector with
  | none =>
    have hnone := Array.findFinIdx?_eq_none_iff.1 hk
    constructor
    · intro _ i line hline hsector
      apply hnone (some line) (Array.mem_of_getElem? hline)
      simp [Slot.holds, hsector]
    · intro _
      simp [find?, hk]
  | some k =>
    have hhold := (Array.findFinIdx?_eq_some_iff.1 hk).1
    obtain ⟨line, hline, hsector⟩ :
        ∃ line, c.slots[k.val] = some line ∧ line.sector = sector := by
      simpa [Slot.holds, Option.any_eq_true] using hhold
    constructor
    · intro hfind
      simp [find?, hk, hline] at hfind
    · intro hother
      exact absurd hsector (hother k.val line (by rw [Array.getElem?_eq_getElem k.isLt, hline]))

/-- The cached sectors in the order of the slots. -/
def sectors (c : Cache) : List UInt32 :=
  c.slots.toList.filterMap fun slot => slot.map Line.sector

/-- Takes the mark of use off the slot under the hand. -/
def spare (c : Cache) : Cache :=
  c.setCurrent (c.current.map fun line => { line with accessed := false })

/-- Moves the hand until it stands on a slot without a mark, at most `steps` times. -/
def sweepFor : (steps : Nat) → Cache → Cache
  | 0, c => c
  | steps + 1, c =>
    let c := c.advance
    if c.current.accessed then sweepFor steps c.spare else c

/-- Moves the hand to the next slot to reuse. A full round takes every mark away, so one step more
than there are slots is enough. -/
def sweep (c : Cache) : Cache := c.sweepFor (c.capacity + 1)

@[simp] theorem capacity_spare (c : Cache) : c.spare.capacity = c.capacity := by
  simp [spare, setCurrent]

end Cache

end SectorVolume
