import SectorVolume.Plain

/-!
An access is what one request does to one sector, wherever that sector is kept: whether the
sector's bytes are needed beforehand, whether they change, and how. Requests that overwrite all
512 bytes do not need the old ones. Typed requests are requests for bytes, seen through a layout.
-/

namespace SectorVolume

structure Access (α : Type) where
  /-- The sector's bytes must be fetched first. -/
  needsData : Bool
  /-- The sector's bytes may change. -/
  writes : Bool
  body : Sector → Except Fault (α × Sector)

namespace Access

/-- The whole sector. -/
def fetch : Access Sector where
  needsData := true
  writes := false
  body s := .ok (s, s)

/-- Replaces the whole sector. -/
def put (data : Sector) : Access Unit where
  needsData := false
  writes := true
  body _ := .ok ((), data)

/-- Changes the sector, given its old bytes. -/
def update (f : Sector → Except Fault Sector) : Access Unit where
  needsData := true
  writes := true
  body s := (f s).map fun t => ((), t)

/-- A range of bytes lies inside a sector. -/
def checkRange (offset len : Nat) : Except Fault Unit := do
  let stop ← checkedAdd offset len
  if stop ≤ sectorSize then .ok () else .error .outsideSector

def readAt (offset len : Nat) : Except Fault (Access (Array UInt8)) := do
  checkRange offset len
  return {
    needsData := true
    writes := false
    body := fun s => .ok (s.bytes offset len, s) }

/-- Reads into a buffer of `len` bytes, which has to hold a whole sector. -/
def read (len : Nat) : Except Fault (Access (Array UInt8)) :=
  if len = sectorSize then readAt 0 len else .error .partialBuffer

def writeAt (offset : Nat) (data : Array UInt8) : Except Fault (Access Unit) := do
  checkRange offset data.size
  return {
    needsData := data.size != sectorSize
    writes := true
    body := fun s => .ok ((), s.overlay offset data) }

def write (data : Array UInt8) : Except Fault (Access Unit) :=
  if data.size = sectorSize then writeAt 0 data else .error .partialBuffer

section Typed

variable {α β : Type} [Plain α]

/-- Looks at the value at `offset`. -/
def view (offset : Nat) (f : α → β) : Access β where
  needsData := true
  writes := false
  body s := Sector.withPlace α offset fun h => .ok (f (s.decodeAt α offset h), s)

/-- Changes the value at `offset`. -/
def modify (offset : Nat) (f : α → Except Fault (β × α)) : Access β where
  needsData := true
  writes := true
  body s := Sector.withPlace α offset fun h => do
    let (b, a) ← f (s.decodeAt α offset h)
    return (b, s.encodeAt offset a)

def load (α : Type) [Plain α] (offset : Nat) : Access α := view offset id

def store (offset : Nat) (a : α) : Access Unit where
  needsData := !(offset == 0 && Plain.size α == sectorSize)
  writes := true
  body s := Sector.withPlace α offset fun _ => .ok ((), s.encodeAt offset a)

end Typed

end Access

end SectorVolume
