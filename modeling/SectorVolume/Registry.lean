import SectorVolume.Script
import SectorVolume.Table

/-!
The open files. One entry per sector counts the handles on it, tells whether the file is to be
reclaimed when the last of them is closed, and counts the handles that deny writing. A sector
without an entry has no opener.
-/

namespace SectorVolume

structure OpenEntry where
  /-- How many handles are open. -/
  openers : Nat
  /-- To be reclaimed when the last handle is closed. -/
  removed : Bool
  /-- How many handles deny writing. -/
  denials : Nat
  deriving DecidableEq, Repr

namespace OpenEntry

def closed : OpenEntry := ⟨0, false, 0⟩

def fresh : OpenEntry := ⟨1, false, 0⟩

end OpenEntry

abbrev Registry := Table UInt32 OpenEntry

namespace Registry

def entry (r : Registry) (sector : UInt32) : OpenEntry := (r.get? sector).getD .closed

end Registry

/-- Operations on a volume: scripts that know which files are open. -/
abbrev VolumeM := StateT Registry Script

namespace VolumeM

def ofExcept {α : Type} (r : Except Fault α) : VolumeM α := StateT.lift (Script.ofExcept r)

def entry (sector : UInt32) : VolumeM OpenEntry := return (← get).entry sector

def setEntry (sector : UInt32) (e : OpenEntry) : VolumeM Unit :=
  modify fun r => r.insert sector e

end VolumeM

end SectorVolume
