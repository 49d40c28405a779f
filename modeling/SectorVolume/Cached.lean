import SectorVolume.Cache

/-!
A device with a cache in front. Every access to a sector is done on its cached copy; a sector that
is not cached takes the slot the clock picks, after the sector there has been written back if it
changed. The device catches up when slots are reused and on a flush.
-/

namespace SectorVolume

structure Cached (D : Type) where
  cache : Cache
  disk : Metered D

namespace Cached

variable {D : Type} {α : Type}

def onDisk (m : EStateM Fault (Metered D) α) : EStateM Fault (Cached D) α := fun ⟨cache, disk⟩ =>
  match m disk with
  | .ok a disk => .ok a ⟨cache, disk⟩
  | .error f disk => .error f ⟨cache, disk⟩

def modifyCache (f : Cache → Cache) : EStateM Fault (Cached D) Unit := fun ⟨cache, disk⟩ =>
  .ok () ⟨f cache, disk⟩

/-- Does an access on the line in slot `i`. The slot counts as used, and as changed if the access
may change it. -/
def touch (i : Nat) (line : Line) (a : Access α) : EStateM Fault (Cached D) α :=
  fun ⟨cache, disk⟩ =>
    let line := { line with accessed := true, dirty := line.dirty || a.writes }
    match a.body line.data with
    | .ok (r, data) => .ok r ⟨cache.setSlot i (some { line with data }), disk⟩
    | .error f => .error f ⟨cache.setSlot i (some line), disk⟩

variable [BlockDevice D]

/-- Writes the slot under the hand back if it has to be, before it is reused. -/
def vacate (slot : Slot) : EStateM Fault (Cached D) Unit := do
  if let some line := slot then
    modifyCache Cache.countEviction
    if line.dirty then
      onDisk (Metered.write line.sector.toNat line.data)
      modifyCache Cache.countWriteBack

/-- Makes a slot hold a sector and returns the slot's number. Where the sector's bytes are not
needed the slot keeps the bytes it had. -/
def bringIn (sector : UInt32) (needsData : Bool) : EStateM Fault (Cached D) (Nat × Line) := do
  modifyCache fun c => c.countMiss.sweep
  let cache := (← get).cache
  vacate cache.current
  let line : Line :=
    { sector, data := (cache.current.map Line.data).getD Sector.zero, dirty := false,
      accessed := false }
  modifyCache fun c => c.setCurrent (some line)
  if needsData then
    let data ← onDisk (Metered.read sector.toNat)
    return (cache.hand, { line with data })
  else
    return (cache.hand, line)

def perform (sector : UInt32) (a : Access α) : EStateM Fault (Cached D) α := fun ⟨cache, disk⟩ =>
  match cache.find? sector with
  | some (i, line) => touch i line a ⟨cache.countHit, disk⟩
  | none =>
    (do
      let (i, line) ← bringIn sector a.needsData
      touch i line a) ⟨cache, disk⟩

/-- A cached sector is used where it is. -/
theorem perform_of_find?_eq_some {sector : UInt32} {a : Access α} {c : Cached D} {i : Nat}
    {line : Line} (h : c.cache.find? sector = some (i, line)) :
    perform sector a c = touch i line a ⟨c.cache.countHit, c.disk⟩ := by
  obtain ⟨cache, disk⟩ := c
  simp only [perform, h]

/-- A sector that is not cached is brought in and then used. -/
theorem perform_of_find?_eq_none {sector : UInt32} {a : Access α} {c : Cached D}
    (h : c.cache.find? sector = none) :
    perform sector a c = (bringIn sector a.needsData >>= fun (i, line) => touch i line a) c := by
  obtain ⟨cache, disk⟩ := c
  simp only [perform, h]

def flushSlot (i : Nat) : EStateM Fault (Cached D) Unit := do
  if let some (some line) := (← get).cache.slots[i]? then
    if line.dirty then
      onDisk (Metered.write line.sector.toNat line.data)
      modifyCache fun c => (c.setSlot i (some { line with dirty := false })).countWriteBack

/-- Writes every changed sector back, in the order of the slots. -/
def flush : EStateM Fault (Cached D) Unit := do
  (List.range (← get).cache.capacity).forM flushSlot

end Cached

end SectorVolume
