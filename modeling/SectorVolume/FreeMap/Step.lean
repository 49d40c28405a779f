import SectorVolume.Answer
import SectorVolume.FreeMap

/-!
Steps on a free map.
-/

namespace SectorVolume

inductive MapStep
  | alloc (count : Nat)
  | release (sector : UInt32) (count : Nat)
  | reserve (sector : UInt32) (count : Nat)
  | isUsed (sector : UInt32)
  | freeCount
  | capacity
  | usedRuns
  /-- Replaces the quota. -/
  | limit (quota : Option Nat)
  | requests

namespace MapStep

/-- Changes the map, or leaves it where that is a fault. -/
def change (f : FreeMap → Except Fault FreeMap) : EStateM Fault FreeMap Answer := fun m =>
  match f m with
  | .ok m => .ok .done m
  | .error e => .error e m

def run : MapStep → EStateM Fault FreeMap Answer
  | alloc count => fun m =>
    let (r, m) := m.alloc count
    .ok (.number? (r.map UInt32.toNat)) m
  | release sector count => change fun m => m.release sector count
  | reserve sector count => change fun m => m.reserve sector count
  | isUsed sector => fun m =>
    match m.bitmap.isUsed sector.toNat with
    | .ok used => .ok (.flag used) m
    | .error e => .error e m
  | freeCount => return .number (← get).bitmap.freeCount
  | capacity => return .number (← get).bitmap.capacity
  | usedRuns => return .runs (← get).bitmap.usedRuns
  | limit quota => change fun m => .ok { m with quota }
  | requests => do
    let m ← get
    return .requests m.allocs m.releases m.bitmap.freeCount

end MapStep

end SectorVolume
