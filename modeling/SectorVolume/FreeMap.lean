import SectorVolume.Bitmap

/-!
A bitmap behind a quota. The quota bounds how many requests for sectors are passed on; the ledger
lists every request with its outcome, the newest first, and the counts of requests are read off
it.
-/

namespace SectorVolume

namespace FreeMap

inductive Request
  | granted (sector : UInt32) (count : Nat)
  | refused (count : Nat)
  | returned (sector : UInt32) (count : Nat)
  deriving DecidableEq, Repr

def Request.isGranted : Request → Bool
  | granted _ _ => true
  | _ => false

def Request.isReturned : Request → Bool
  | returned _ _ => true
  | _ => false

end FreeMap

structure FreeMap where
  bitmap : Bitmap
  /-- How many more requests for sectors are passed on; without a quota, all. -/
  quota : Option Nat := none
  ledger : List FreeMap.Request := []

namespace FreeMap

def ofBitmap (bitmap : Bitmap) : FreeMap := { bitmap }

/-- How many requests for sectors were granted. -/
def allocs (m : FreeMap) : Nat := m.ledger.countP Request.isGranted

/-- How often sectors were returned. -/
def releases (m : FreeMap) : Nat := m.ledger.countP Request.isReturned

/-- Asks for `count` sectors in a row. A request that the bitmap cannot serve uses the quota
too. -/
def alloc (m : FreeMap) (count : Nat) : Option UInt32 × FreeMap :=
  match m with
  | ⟨bitmap, some 0, ledger⟩ => (none, ⟨bitmap, some 0, .refused count :: ledger⟩)
  | ⟨bitmap, quota, ledger⟩ =>
    match bitmap.alloc count with
    | (some sector, bitmap) =>
      (some sector, ⟨bitmap, quota.map (· - 1), .granted sector count :: ledger⟩)
    | (none, bitmap) => (none, ⟨bitmap, quota.map (· - 1), .refused count :: ledger⟩)

def release (m : FreeMap) (sector : UInt32) (count : Nat) : Except Fault FreeMap := do
  let bitmap ← m.bitmap.release sector count
  return { m with bitmap, ledger := .returned sector count :: m.ledger }

def reserve (m : FreeMap) (sector : UInt32) (count : Nat) : Except Fault FreeMap := do
  let bitmap ← m.bitmap.reserve sector count
  return { m with bitmap }

end FreeMap

end SectorVolume
