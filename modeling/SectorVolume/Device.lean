import SectorVolume.Access

/-!
A block device keeps sectors by number and moves one whole sector at a time. A metered device
counts the transfers; an access that goes straight to a device reads what it needs and writes what
it changed. The memory disk is a device of a fixed number of sectors.
-/

namespace SectorVolume

class BlockDevice (D : Type) where
  readSector : D → Nat → Except Fault Sector
  writeSector : Nat → Sector → EStateM Fault D Unit

structure Metered (D : Type) where
  device : D
  reads : Nat
  writes : Nat

namespace Metered

variable {D : Type} [BlockDevice D]

def ofDevice {D : Type} (device : D) : Metered D := ⟨device, 0, 0⟩

def read (i : Nat) : EStateM Fault (Metered D) Sector := fun ⟨device, reads, writes⟩ =>
  match BlockDevice.readSector device i with
  | .ok s => .ok s ⟨device, reads + 1, writes⟩
  | .error f => .error f ⟨device, reads + 1, writes⟩

def write (i : Nat) (s : Sector) : EStateM Fault (Metered D) Unit :=
  fun ⟨device, reads, writes⟩ =>
  match BlockDevice.writeSector i s device with
  | .ok () device => .ok () ⟨device, reads, writes + 1⟩
  | .error f device => .error f ⟨device, reads, writes + 1⟩

/-- An access without a cache in front. -/
def perform {α : Type} (i : Nat) (a : Access α) : EStateM Fault (Metered D) α := do
  let s ← if a.needsData then read i else pure Sector.zero
  match a.body s with
  | .error f => throw f
  | .ok (r, t) =>
    if a.writes then write i t
    return r

end Metered

structure RamDisk where
  sectors : Array Sector

namespace RamDisk

def blank (n : Nat) : RamDisk := ⟨Array.replicate n Sector.zero⟩

def sector (d : RamDisk) (i : Nat) : Except Fault Sector :=
  match d.sectors[i]? with
  | some s => .ok s
  | none => .error .outOfBounds

def setSector (i : Nat) (s : Sector) : EStateM Fault RamDisk Unit := fun d =>
  if i < d.sectors.size then .ok () ⟨d.sectors.setIfInBounds i s⟩ else .error .outOfBounds d

instance : BlockDevice RamDisk where
  readSector := sector
  writeSector := setSector

theorem setSector_eq_ok_iff {d e : RamDisk} {i : Nat} {s : Sector} :
    setSector i s d = .ok () e ↔
      i < d.sectors.size ∧ e = ⟨d.sectors.setIfInBounds i s⟩ := by
  unfold setSector
  split
  · simp_all [eq_comm]
  · rename_i h
    simp [h]

end RamDisk

end SectorVolume
