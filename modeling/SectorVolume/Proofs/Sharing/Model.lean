import SectorVolume.Proofs.Registry.Entries
import SectorVolume.Session

/-!
Handles that hold their entry. An open file is an entry of its own that knows its sector; the
registry and the handles name it by its place, so a handle reaches its entry without the registry.
A session of such handles runs the same steps as one whose handles look their entry up by sector.
-/

namespace SectorVolume

/-- The entry of an open file, which knows where its inode is. -/
structure OpenFile extends OpenEntry where
  sector : UInt32

/-- All entries that were ever made, oldest first, and the place of the one that is registered for
a sector. Entries are never taken away, so a place names the same one for good. -/
structure OpenFiles where
  entries : List OpenFile
  registered : Table UInt32 Nat

namespace OpenFiles

def empty : OpenFiles := ⟨[], Table.empty⟩

variable (r : OpenFiles)

def file (place : Nat) : OpenFile := r.entries.getD place ⟨.closed, 0⟩

/-- Changes an entry; its sector stays. -/
def change (place : Nat) (e : OpenEntry) : OpenFiles :=
  { r with entries := r.entries.set place ⟨e, (r.file place).sector⟩ }

/-- Makes an entry with one opener and registers it. -/
def register (sector : UInt32) : OpenFiles :=
  ⟨r.entries ++ [⟨.fresh, sector⟩], r.registered.insert sector r.entries.length⟩

def unregister (sector : UInt32) : OpenFiles :=
  { r with registered := r.registered.erase sector }

/-- The registry with the entries themselves. -/
def plain : Registry := r.registered.map fun place => (r.file place).toOpenEntry

end OpenFiles

/-- Operations on a volume whose handles hold their entries. -/
abbrev SharedM := StateT OpenFiles Script

namespace SharedM

def ofExcept {α : Type} (r : Except Fault α) : SharedM α := StateT.lift (Script.ofExcept r)

end SharedM

structure FileHandle where
  place : Nat
  /-- This handle denies writing to all. -/
  denies : Bool

namespace FileHandle

open SharedM

/-- Opens a file. What is registered is shared; else a new entry is registered. -/
def «open» (sector : UInt32) : SharedM FileHandle := do
  let r ← get
  match r.registered.get? sector with
  | some place =>
    modify fun r =>
      r.change place { (r.file place).toOpenEntry with openers := (r.file place).openers + 1 }
    return ⟨place, false⟩
  | none =>
    let _ ← Volume.readInode sector
    modify fun r => r.register sector
    return ⟨r.entries.length, false⟩

def entry (h : FileHandle) : SharedM OpenEntry := return ((← get).file h.place).toOpenEntry

def setEntry (h : FileHandle) (e : OpenEntry) : SharedM Unit :=
  modify fun r => r.change h.place e

/-- The handle with the sector of its file in place of the entry. -/
def plain (r : OpenFiles) (h : FileHandle) : Handle := ⟨(r.file h.place).sector, h.denies⟩

@[simp] theorem denies_plain (r : OpenFiles) (h : FileHandle) : (h.plain r).denies = h.denies :=
  rfl

/-- The handle, for what only needs the inode. -/
def onInode (h : FileHandle) : SharedM Handle := return h.plain (← get)

/-- A further handle on the entry, which the registry is not asked for. -/
def reopen (h : FileHandle) : SharedM FileHandle := do
  let e ← h.entry
  h.setEntry { e with openers := e.openers + 1 }
  return ⟨h.place, false⟩

def deny (h : FileHandle) : SharedM FileHandle := do
  if h.denies then ofExcept (.error .alreadyDenied)
  let e ← h.entry
  let denials := e.denials + 1
  if e.openers < denials then ofExcept (.error .excessDenial)
  h.setEntry { e with denials }
  return { h with denies := true }

def allow (h : FileHandle) : SharedM FileHandle := do
  if !h.denies then ofExcept (.error .notDenied)
  let e ← h.entry
  let denials ← ofExcept (checkedPred e.denials)
  h.setEntry { e with denials }
  return { h with denies := false }

def isDenied (h : FileHandle) : SharedM Bool := return 0 < (← h.entry).denials

/-- Takes the entry out of the registry, under the sector that the entry knows, and reclaims the
file if it is removed. -/
def retire (h : FileHandle) (removed : Bool) : SharedM Unit := do
  let sector := (← h.onInode).sector
  modify fun r => r.unregister sector
  if removed then Handle.reclaim sector

/-- Counts the handle out. The last one takes the entry with it. -/
def leave (h : FileHandle) : SharedM Unit := do
  let e ← h.entry
  let openers ← ofExcept (checkedPred e.openers)
  h.setEntry { e with openers }
  if openers = 0 then h.retire e.removed

/-- Closes the handle, which withdraws its denial. -/
def close (h : FileHandle) : SharedM Unit := do
  if h.denies then
    let _ ← h.allow
  h.leave

def remove (h : FileHandle) : SharedM Unit := do
  let e ← h.entry
  h.setEntry { e with removed := true }

def isRemoved (h : FileHandle) : SharedM Bool := return (← h.entry).removed

def openCount (h : FileHandle) : SharedM Nat := return (← h.entry).openers

def writeAt (h : FileHandle) (offset : Nat) (data : Array UInt8) : SharedM Nat := do
  if data.isEmpty || (← h.isDenied) then
    return 0
  else if wordLimit ≤ offset + data.size then
    return 0
  else
    match ← (← h.onInode).grown (offset + data.size) with
    | .error _ => return 0
    | .ok n => n.writeAt offset data

end FileHandle

/-- A session whose handles hold their entries. -/
structure SharedSession where
  engine : Engine RamDisk
  foreign : Metered RamDisk
  files : OpenFiles
  handles : Table Nat FileHandle
  held : Table Nat Inode

abbrev SharedSessionM := EStateM Fault SharedSession

namespace SharedSession

variable {α : Type}

/-- A session without open files. -/
def ofSession (s : Session) : SharedSession :=
  ⟨s.engine, s.foreign, .empty, Table.empty, s.held⟩

/-- The session in which the handles know their sectors only. -/
def plain (t : SharedSession) : Session where
  engine := t.engine
  foreign := t.foreign
  registry := t.files.plain
  handles := t.handles.map (FileHandle.plain t.files)
  held := t.held

def shared (m : SharedM α) : SharedSessionM α := fun t =>
  match Engine.run (m t.files) t.engine with
  | .ok (a, files) engine => .ok a { t with engine, files }
  | .error f engine => .error f { t with engine }

/-- What concerns neither entries nor handles. -/
def aside (m : SessionM α) : SharedSessionM α := fun t =>
  match m t.plain with
  | .ok a s => .ok a { t with engine := s.engine, foreign := s.foreign, held := s.held }
  | .error f s => .error f { t with engine := s.engine, foreign := s.foreign, held := s.held }

def keep (number : Nat) (h : FileHandle) : SharedSessionM Unit := do
  let old := (← get).handles.get? number
  modify fun t => { t with handles := t.handles.insert number h }
  if let some old := old then shared old.close

def closeHandle (number : Nat) (h : FileHandle) : SharedSessionM Unit := do
  modify fun t => { t with handles := t.handles.erase number }
  shared h.close

def unmount : SharedSessionM Unit := do
  (← get).handles.entries.forM fun (number, h) => closeHandle number h
  aside (Session.onEngine (Engine.onStore Cached.flush))

def mount (capacity : Nat) : SharedSessionM Unit := do
  match Cache.ofCapacity capacity with
  | .error f => throw f
  | .ok cache =>
    modify fun t => { t with engine.store.cache := cache, files.registered := Table.empty }

def runHandle (number : Nat) (h : FileHandle) : HandleStep → SharedSessionM Answer
  | .close => do
    closeHandle number h
    return .done
  | .reopen copy => do
    let new ← shared h.reopen
    let count ← shared new.openCount
    keep copy new
    return .number count
  | .remove => do
    shared h.remove
    return .done
  | .deny => do
    let h ← shared h.deny
    modify fun t => { t with handles := t.handles.insert number h }
    return .done
  | .allow => do
    let h ← shared h.allow
    modify fun t => { t with handles := t.handles.insert number h }
    return .done
  | .isRemoved => return .flag (← shared h.isRemoved)
  | .isDenied => return .flag (← shared h.isDenied)
  | .openCount => return .number (← shared h.openCount)
  | .write offset data => return .number (← shared (h.writeAt offset data))
  -- the others read or change the inode only
  | step => do
    let h ← shared h.onInode
    aside (Session.runHandle number h step)

def run : Step → SharedSessionM Answer
  | .open number sector => do
    let h ← shared (FileHandle.open sector)
    keep number h
    return .number (← shared h.onInode).sector.toNat
  | .openInodes => return .number (← get).files.registered.size
  | .remount capacity => do
    unmount
    let answer ← aside Session.summary
    mount capacity
    return answer
  | .handle number step => do
    match (← get).handles.get? number with
    | some h => runHandle number h step
    | none => return .unknown
  | step => aside (Session.run step)

/-- Runs steps in order. -/
def play (steps : List Step) (t : SharedSession) : Transcript SharedSession :=
  Transcript.ofSteps run steps t

end SharedSession

end SectorVolume
