import SectorVolume.Inode.Resize
import SectorVolume.Inode.Transfer
import SectorVolume.Registry

/-!
Files on a volume. A file is created in a sector of its own and used through handles. A handle
knows the sector of its file and finds the entry in the registry under it, so all handles on one
sector share an entry. The inode is read anew for every operation, so a handle never sees a stale
one. A removed file lives on until its last handle is closed.
-/

namespace SectorVolume

namespace Volume

/-- Makes a file of `length` zero bytes in a sector that the caller has taken. On a refusal an
empty file is left there. -/
def create (sector : UInt32) (length : Nat) (isDir : Bool) : Script (Except Refusal Unit) := do
  let n := Inode.blank isDir
  putSector sector n.toSector
  return (← n.resize sector length).map fun _ => ()

/-- The inode in a sector; it is a fault if there is none. -/
def readInode (sector : UInt32) : Script Inode := do
  let n := Inode.ofSector (← fetchSector sector)
  if n.isValid then return n else .fail (.notAnInode sector)

end Volume

structure Handle where
  sector : UInt32
  /-- This handle denies writing to all. -/
  denies : Bool
  deriving DecidableEq, Repr

namespace Volume

/-- Opens a file. Only the first opener looks at the disk. -/
def «open» (sector : UInt32) : VolumeM Handle := do
  match (← get).get? sector with
  | some e => VolumeM.setEntry sector { e with openers := e.openers + 1 }
  | none =>
    let _ ← readInode sector
    VolumeM.setEntry sector .fresh
  return ⟨sector, false⟩

end Volume

namespace Handle

open VolumeM

/-- A further handle on the same file. It denies nothing. -/
def reopen (h : Handle) : VolumeM Handle := do
  let e ← entry h.sector
  setEntry h.sector { e with openers := e.openers + 1 }
  return ⟨h.sector, false⟩

/-- Denies writing through any handle on the file. -/
def deny (h : Handle) : VolumeM Handle := do
  if h.denies then ofExcept (.error .alreadyDenied)
  let e ← entry h.sector
  let denials := e.denials + 1
  if e.openers < denials then ofExcept (.error .excessDenial)
  setEntry h.sector { e with denials }
  return { h with denies := true }

/-- Withdraws this handle's denial. -/
def allow (h : Handle) : VolumeM Handle := do
  if !h.denies then ofExcept (.error .notDenied)
  let e ← entry h.sector
  let denials ← ofExcept (checkedPred e.denials)
  setEntry h.sector { e with denials }
  return { h with denies := false }

def isDenied (h : Handle) : VolumeM Bool := return 0 < (← entry h.sector).denials

/-- Gives back all sectors of a file that nobody has open. -/
def reclaim (sector : UInt32) : Script Unit := do
  let n ← Volume.readInode sector
  let _ ← n.clear
  releaseSector sector

/-- Closes the handle, which withdraws its denial. The last one to close takes the entry out of
the registry and reclaims the file if it is removed. -/
def close (h : Handle) : VolumeM Unit := do
  if h.denies then
    let _ ← h.allow
  let e ← entry h.sector
  let openers ← ofExcept (checkedPred e.openers)
  if 0 < openers then
    setEntry h.sector { e with openers }
  else
    modify fun r => r.erase h.sector
    if e.removed then reclaim h.sector

def remove (h : Handle) : VolumeM Unit := do
  let e ← entry h.sector
  setEntry h.sector { e with removed := true }

def isRemoved (h : Handle) : VolumeM Bool := return (← entry h.sector).removed

def openCount (h : Handle) : VolumeM Nat := return (← entry h.sector).openers

def inode (h : Handle) : Script Inode := Volume.readInode h.sector

def isDir (h : Handle) : Script Bool := return (← h.inode).isDir

def length (h : Handle) : Script Nat := return (← h.inode).length.toNat

def children (h : Handle) : Script Nat := return (← h.inode).children.toNat

/-- Changes the number of children in place. -/
def updateChildren (h : Handle) (f : UInt32 → Except Fault UInt32) : Script Unit :=
  updateSector h.sector fun s => do
    let n := Inode.ofSector s
    let children ← f n.children
    return { n with children }.toSector

def addChild (h : Handle) : Script Unit :=
  h.updateChildren fun k => if k.toNat + 1 < UInt32.size then .ok (k + 1) else .error .overflow

def removeChild (h : Handle) : Script Unit :=
  h.updateChildren fun k => if k = 0 then .error .noChild else .ok (k - 1)

def sectorAt? (h : Handle) (pos : Nat) : Script (Option UInt32) := do
  (← h.inode).sectorAt? pos

def readAt (h : Handle) (offset len : Nat) : Script (Array UInt8) := do
  (← h.inode).readAt offset len

def resize (h : Handle) (length : Nat) : Script (Except Refusal Unit) := do
  return (← (← h.inode).resize h.sector length).map fun _ => ()

/-- The inode of a file that reaches at least up to `stop`. Where it has to grow the inode is read
once more before. -/
def grown (h : Handle) (stop : Nat) : Script (Except Refusal Inode) := do
  let n ← h.inode
  if stop ≤ n.length.toNat then
    return .ok n
  else
    (← h.inode).resize h.sector stop

/-- Writes bytes and returns how many were written. The file grows to hold them; where it cannot,
or where writing is denied, nothing is written. -/
def writeAt (h : Handle) (offset : Nat) (data : Array UInt8) : VolumeM Nat := do
  if data.isEmpty || (← h.isDenied) then
    return 0
  else if wordLimit ≤ offset + data.size then
    return 0
  else
    match ← h.grown (offset + data.size) with
    | .error _ => return 0
    | .ok n => n.writeAt offset data

end Handle

end SectorVolume
