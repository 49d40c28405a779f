import SectorVolume.Cached.Step
import SectorVolume.FreeMap.Step
import SectorVolume.Transcript
import SectorVolume.Volume

/-!
A session is a mounted volume on a memory disk together with what its user keeps: handles and
loose inodes under numbers of the user's choice, and a second disk. Steps are single operations on
it; a run is a list of steps, which ends at the first fault.
-/

namespace SectorVolume

structure Session where
  engine : Engine RamDisk
  foreign : Metered RamDisk
  registry : Registry
  handles : Table Nat Handle
  held : Table Nat Inode

abbrev SessionM := EStateM Fault Session

inductive DeviceStep
  /-- Makes all bytes of a sector the same, uncounted. -/
  | fill (sector : Nat) (byte : UInt8)
  | write (sector : Nat) (data : Array UInt8)
  /-- Shows a sector, uncounted. -/
  | sector (sector : Nat)
  | transfers

inductive HandleStep
  | close
  | reopen (copy : Nat)
  | remove
  | addChild
  | removeChild
  | deny
  | allow
  | isRemoved
  | isDir
  | isDenied
  | inumber
  | openCount
  | length
  | children
  | sectorAt (pos : Nat)
  | read (offset : Nat) (buffer : Array UInt8)
  | write (offset : Nat) (data : Array UInt8)
  | resize (length : Nat)

inductive InodeStep
  | new (isDir : Bool)
  | load (sector : UInt32) (offset : Nat)
  | copy (source : Nat)
  | store (sector : UInt32) (offset : Nat)
  | set (length children : Option UInt32)
  | dump
  | isValid
  | isDir
  | equals (other : Nat)
  | resize (sector : UInt32) (length : Nat)
  | clear
  | sectors
  | sectorAt (pos : Nat)
  | read (offset : Nat) (buffer : Array UInt8)
  | write (offset : Nat) (data : Array UInt8)

inductive Step
  | create (sector : UInt32) (length : Nat) (isDir : Bool)
  /-- Takes a sector and makes a file there. -/
  | make (length : Nat) (isDir : Bool)
  | «open» (number : Nat) (sector : UInt32)
  | openInodes
  | flush
  /-- Unmounts the volume and mounts it again with a cache of the given capacity. -/
  | remount (capacity : Nat)
  | handle (number : Nat) (step : HandleStep)
  | inode (number : Nat) (step : InodeStep)
  | cache (step : CacheStep)
  /-- Runs steps on a cache of their own on the same disk. -/
  | solo (capacity : Nat) (steps : List CacheStep)
  | device (target : Target) (step : DeviceStep)
  | summary
  | map (step : MapStep)

namespace Session

variable {α : Type}

/-- A volume on a blank disk, with the first sectors set aside. -/
def start (sectors mapped reserved capacity others : Nat) : Except Fault Session := do
  let map ← (FreeMap.ofBitmap (Bitmap.blank mapped)).reserve 0 reserved
  let cache ← Cache.ofCapacity capacity
  return {
    engine := ⟨⟨cache, Metered.ofDevice (RamDisk.blank sectors)⟩, map⟩
    foreign := Metered.ofDevice (RamDisk.blank others)
    registry := Table.empty
    handles := Table.empty
    held := Table.empty }

def onEngine (m : EStateM Fault (Engine RamDisk) α) : SessionM α :=
  fun ⟨engine, foreign, registry, handles, held⟩ =>
    match m engine with
    | .ok a engine => .ok a ⟨engine, foreign, registry, handles, held⟩
    | .error f engine => .error f ⟨engine, foreign, registry, handles, held⟩

def onBench (m : EStateM Fault Bench α) : SessionM α :=
  fun ⟨⟨store, map⟩, foreign, registry, handles, held⟩ =>
    match m ⟨store, foreign⟩ with
    | .ok a ⟨store, foreign⟩ => .ok a ⟨⟨store, map⟩, foreign, registry, handles, held⟩
    | .error f ⟨store, foreign⟩ => .error f ⟨⟨store, map⟩, foreign, registry, handles, held⟩

def onDevice (target : Target) (m : EStateM Fault (Metered RamDisk) α) : SessionM α :=
  onBench <|
    match target with
    | .managed => Bench.onStore (Cached.onDisk m)
    | .foreign => Bench.onForeign m

def script (p : Script α) : SessionM α := onEngine (Engine.run p)

def volume (m : VolumeM α) : SessionM α :=
  fun ⟨engine, foreign, registry, handles, held⟩ =>
    match Engine.run (m registry) engine with
    | .ok (a, registry) engine => .ok a ⟨engine, foreign, registry, handles, held⟩
    | .error f engine => .error f ⟨engine, foreign, registry, handles, held⟩

/-- Lays what was read over a buffer. -/
def overBuffer (data buffer : Array UInt8) : Answer :=
  .buffer data.size (data ++ buffer.extract data.size buffer.size)

def summary : SessionM Answer := do
  let ⟨⟨_, disk⟩, map⟩ := (← get).engine
  return .summary {
    disk := disk.device
    reads := disk.reads
    writes := disk.writes
    free := map.bitmap.freeCount
    allocs := map.allocs
    releases := map.releases }

/-- Keeps a handle under a number. A handle that was there is then closed. -/
def keep (number : Nat) (h : Handle) : SessionM Unit := do
  let old := (← get).handles.get? number
  modify fun s => { s with handles := s.handles.insert number h }
  if let some old := old then volume old.close

def closeHandle (number : Nat) (h : Handle) : SessionM Unit := do
  modify fun s => { s with handles := s.handles.erase number }
  volume h.close

/-- Closes all handles in the order of their numbers and flushes the cache. -/
def unmount : SessionM Unit := do
  (← get).handles.entries.forM fun (number, h) => closeHandle number h
  onEngine (Engine.onStore Cached.flush)

def mount (capacity : Nat) : SessionM Unit := do
  match Cache.ofCapacity capacity with
  | .error f => throw f
  | .ok cache =>
    modify fun s => { s with engine.store.cache := cache, registry := Table.empty }

def runHandle (number : Nat) (h : Handle) : HandleStep → SessionM Answer
  | .close => do
    closeHandle number h
    return .done
  | .reopen copy => do
    let new ← volume h.reopen
    let count ← volume new.openCount
    keep copy new
    return .number count
  | .remove => do
    volume h.remove
    return .done
  | .addChild => do
    script h.addChild
    return .done
  | .removeChild => do
    script h.removeChild
    return .done
  | .deny => do
    let h ← volume h.deny
    modify fun s => { s with handles := s.handles.insert number h }
    return .done
  | .allow => do
    let h ← volume h.allow
    modify fun s => { s with handles := s.handles.insert number h }
    return .done
  | .isRemoved => return .flag (← volume h.isRemoved)
  | .isDir => return .flag (← script h.isDir)
  | .isDenied => return .flag (← volume h.isDenied)
  | .inumber => return .number h.sector.toNat
  | .openCount => return .number (← volume h.openCount)
  | .length => return .number (← script h.length)
  | .children => return .number (← script h.children)
  | .sectorAt pos => return .number? ((← script (h.sectorAt? pos)).map UInt32.toNat)
  | .read offset buffer => return overBuffer (← script (h.readAt offset buffer.size)) buffer
  | .write offset data => return .number (← volume (h.writeAt offset data))
  | .resize length => return .result (← script (h.resize length))

/-- Keeps an inode under a number and shows it. -/
def hold (number : Nat) (n : Inode) : SessionM Answer := do
  modify fun s => { s with held := s.held.insert number n }
  return .inode n

/-- Steps that make the inode under a number. -/
def runNewInode (number : Nat) : InodeStep → SessionM Answer
  | .new isDir => hold number (Inode.blank isDir)
  | .load sector offset => do
    hold number (← onEngine (Engine.onStore (Cached.perform sector (Access.load Inode offset))))
  | .copy source => do
    match (← get).held.get? source with
    | some n => hold number n
    | none => return .unknown
  | _ => return .unknown

/-- Steps on the inode under a number. -/
def runInode (number : Nat) (n : Inode) : InodeStep → SessionM Answer
  | .store sector offset => do
    onEngine (Engine.onStore (Cached.perform sector (Access.store offset n)))
    return .done
  | .set length children =>
    hold number {
      n with length := length.getD n.length, children := children.getD n.children }
  | .dump => return .inode n
  | .isValid => return .flag n.isValid
  | .isDir => return .flag n.isDir
  | .equals other => do
    match (← get).held.get? other with
    | some m => return .flag (n = m)
    | none => return .unknown
  | .resize sector length => do
    match ← script (n.resize sector length) with
    | .error refusal => return .result (.error refusal)
    | .ok n =>
      let _ ← hold number n
      return .result (.ok ())
  | .clear => do hold number (← script n.clear)
  | .sectors => return .words (← script n.sectors)
  | .sectorAt pos => return .number? ((← script (n.sectorAt? pos)).map UInt32.toNat)
  | .read offset buffer => return overBuffer (← script (n.readAt offset buffer.size)) buffer
  | .write offset data => return .number (← script (n.writeAt offset data))
  | step => runNewInode number step

/-- Changes a device without a transfer. -/
def poke (i : Nat) (s : Sector) : EStateM Fault (Metered RamDisk) Unit :=
  fun ⟨device, reads, writes⟩ =>
    match RamDisk.setSector i s device with
    | .ok () device => .ok () ⟨device, reads, writes⟩
    | .error f device => .error f ⟨device, reads, writes⟩

def runDevice (target : Target) : DeviceStep → SessionM Answer
  | .fill sector byte => do
    onDevice target (poke sector (Sector.filled byte))
    return .done
  | .write sector data => do
    onDevice target do
      match Sector.ofArray? data with
      | some s => Metered.write sector s
      | none =>
        let _ ← Metered.read sector
        throw .lengthMismatch
    return .done
  | .sector sector => do
    let device := (← onDevice target get).device
    match device.sector sector with
    | .ok s => return .bytes s.toArray
    | .error f => throw f
  | .transfers => do
    let ⟨_, reads, writes⟩ ← onDevice target get
    return .transfers reads writes

/-- Puts another cache in front of the disk for a while. It is flushed at the end. -/
def withCache (solo : Cache) (m : EStateM Fault Bench α) : EStateM Fault Bench α :=
  fun ⟨⟨cache, disk⟩, foreign⟩ =>
    let both : EStateM Fault Bench α := do
      let a ← m
      Bench.onStore Cached.flush
      return a
    match both ⟨⟨solo, disk⟩, foreign⟩ with
    | .ok a ⟨⟨_, disk⟩, foreign⟩ => .ok a ⟨⟨cache, disk⟩, foreign⟩
    | .error f ⟨⟨_, disk⟩, foreign⟩ => .error f ⟨⟨cache, disk⟩, foreign⟩

def runSolo (capacity : Nat) (steps : List CacheStep) : SessionM Answer := do
  match Cache.ofCapacity capacity with
  | .error f => throw f
  | .ok solo => return .list (← onBench (withCache solo (CacheStep.runAll steps)))

def run : Step → SessionM Answer
  | .create sector length isDir => return .result (← script (Volume.create sector length isDir))
  | .make length isDir => do
    match ← onEngine (Engine.alloc 1) with
    | none => return .number? none
    | some sector =>
      return .created sector.toNat (← script (Volume.create sector length isDir))
  | .open number sector => do
    let h ← volume (Volume.open sector)
    keep number h
    return .number h.sector.toNat
  | .openInodes => return .number (← get).registry.size
  | .flush => do
    onEngine (Engine.onStore Cached.flush)
    return .done
  | .remount capacity => do
    unmount
    let answer ← summary
    mount capacity
    return answer
  | .handle number step => do
    match (← get).handles.get? number with
    | some h => runHandle number h step
    | none => return .unknown
  | .inode number step => do
    match (← get).held.get? number with
    | some n => runInode number n step
    | none => runNewInode number step
  | .cache step => onBench step.run
  | .solo capacity steps => runSolo capacity steps
  | .device target step => runDevice target step
  | .summary => summary
  | .map step => onEngine (Engine.onMap step.run)

/-- Ends a session: unmounts the volume and sums up. -/
def finish : SessionM Answer := do
  unmount
  summary

/-- Runs steps in order. -/
def play (steps : List Step) (s : Session) : Transcript Session := Transcript.ofSteps run steps s

/-- Runs steps in order and ends the session. -/
def playThrough (steps : List Step) (s : Session) : Transcript Session :=
  (play steps s).extend finish

end Session

end SectorVolume
