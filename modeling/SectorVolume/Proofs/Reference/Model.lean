import SectorVolume.Session

/-!
What a session is to its user, without sectors, index blocks or a cache. A file is a length, a
kind, a number of children and its bytes, padded to whole sectors; of the space on the volume only
the number of free sectors matters. The steps on files and handles are defined on this in the way
their documentation puts it. Steps that look at other things, such as the sector of a byte, have
no answer here.
-/

namespace SectorVolume

structure File where
  length : Nat
  isDir : Bool
  children : Nat
  /-- The bytes of all sectors that the length needs. -/
  bytes : Array UInt8
  /-- To be reclaimed when the last handle is closed. -/
  removed : Bool

namespace File

def empty (isDir : Bool) : File := ⟨0, isDir, 0, #[], false⟩

/-- Cuts the bytes at the sectors that a length needs, or adds zero bytes up to there. -/
def resize (f : File) (length : Nat) : File :=
  { f with
    length
    bytes := Array.ofFn fun i : Fin (dataBlocks length * sectorSize) => f.bytes.getD i.val 0 }

/-- The file with `data` laid over its bytes from `offset` on. -/
def overlay (f : File) (offset : Nat) (data : Array UInt8) : File :=
  { f with
    bytes := Array.ofFn fun i : Fin f.bytes.size =>
      if offset ≤ i.val then data.getD (i.val - offset) f.bytes[i] else f.bytes[i] }

/-- A range that leaves the file gives nothing. -/
def read (f : File) (offset len : Nat) : Array UInt8 :=
  if offset + len ≤ f.length then f.bytes.extract offset (offset + len) else #[]

/-- How many sectors the file takes besides that of its inode. -/
def blocks (f : File) : Nat := totalBlocks f.length

end File

/-- The free sectors, and how many more requests for one are passed on. -/
structure Space where
  free : Nat
  quota : Option Nat

namespace Space

/-- How many requests are going to be granted. -/
def available (s : Space) : Nat :=
  match s.quota with
  | none => s.free
  | some q => min q s.free

/-- Takes what is needed beyond what there was, or gives back what is not needed any more. -/
def exchange (s : Space) (old new : Nat) : Space :=
  ⟨s.free + old - new, s.quota.map (· - (new - old))⟩

/-- Asks until a request is refused, and gives back what was granted. The requests count. -/
def exhaust (s : Space) : Space := ⟨s.free, s.quota.map (· - (s.available + 1))⟩

end Space

/-- How many handles are on a file. -/
def openers (hs : List Handle) (sector : UInt32) : Nat := hs.countP fun h => h.sector = sector

/-- How many handles on a file deny writing. -/
def denials (hs : List Handle) (sector : UInt32) : Nat :=
  hs.countP fun h => h.sector = sector ∧ h.denies = true

structure Reference where
  /-- The files that were made and not reclaimed, under the sectors of their inodes. -/
  files : Table UInt32 File
  handles : Table Nat Handle
  space : Space
  /-- The sectors that the files still to be made will lie in. -/
  names : List UInt32

namespace Reference

/-- A volume without files. -/
def start (free : Nat) (names : List UInt32) : Reference :=
  ⟨Table.empty, Table.empty, ⟨free, none⟩, names⟩

/-- All handles there are. -/
def opened (r : Reference) : List Handle := r.handles.entries.map Prod.snd

/-- Gives a file a length. It is refused if the length is more than a file can have, or if it
takes more sectors than there are to be had. -/
def resize (r : Reference) (sector : UInt32) (f : File) (length : Nat) :
    Except Refusal Unit × Reference :=
  if maxLength < length then (.error .tooLarge, r)
  else if r.space.available < totalBlocks length - f.blocks then
    (.error .noSpace, { r with space := r.space.exhaust })
  else
    (.ok (), { r with
      files := r.files.insert sector (f.resize length)
      space := r.space.exchange f.blocks (totalBlocks length) })

/-- Makes a file in a sector. It is empty at first and then gets its length, unless that is
refused. -/
def make (r : Reference) (sector : UInt32) (length : Nat) (isDir : Bool) :
    Except Refusal Unit × Reference :=
  let made : Reference :=
    { r with
      files := r.files.insert sector (File.empty isDir)
      space := r.space.exchange 0 1 }
  made.resize sector (File.empty isDir) length

/-- Writes bytes, for which the file grows where it has to. -/
def write (r : Reference) (sector : UInt32) (f : File) (offset : Nat) (data : Array UInt8) :
    Nat × Reference :=
  if data.isEmpty || decide (0 < denials r.opened sector) ||
      decide (wordLimit ≤ offset + data.size) then (0, r)
  else
    let stop := max f.length (offset + data.size)
    match r.resize sector f stop with
    | (.error _, r) => (0, r)
    | (.ok (), r) =>
      (data.size, { r with files := r.files.insert sector ((f.resize stop).overlay offset data) })

/-- Reclaims a file that is removed once no handle is on it any more. -/
def reclaim (r : Reference) (sector : UInt32) : Reference :=
  match r.files.get? sector with
  | none => r
  | some f =>
    if f.removed ∧ openers r.opened sector = 0 then
      { r with
        files := r.files.erase sector
        space := r.space.exchange (f.blocks + 1) 0 }
    else r

def closeHandle (r : Reference) (number : Nat) (h : Handle) : Reference :=
  { r with handles := r.handles.erase number }.reclaim h.sector

/-- Keeps a handle under a number. A handle that was there is then closed. -/
def keep (r : Reference) (number : Nat) (h : Handle) : Reference :=
  let kept := { r with handles := r.handles.insert number h }
  match r.handles.get? number with
  | none => kept
  | some old => kept.reclaim old.sector

/-- A step on a handle, and on the file that it is on. -/
def runHandle (r : Reference) (number : Nat) (h : Handle) (f : File) :
    HandleStep → Except Fault (Option Answer × Reference)
  | .close => .ok (some .done, r.closeHandle number h)
  | .reopen copy =>
    .ok (some (.number (openers r.opened h.sector + 1)), r.keep copy ⟨h.sector, false⟩)
  | .remove =>
    .ok (some .done, { r with files := r.files.insert h.sector { f with removed := true } })
  | .addChild =>
    if f.children + 1 < UInt32.size then
      .ok (some .done,
        { r with files := r.files.insert h.sector { f with children := f.children + 1 } })
    else .error .overflow
  | .removeChild =>
    if f.children = 0 then .error .noChild
    else
      .ok (some .done,
        { r with files := r.files.insert h.sector { f with children := f.children - 1 } })
  | .deny =>
    if h.denies then .error .alreadyDenied
    else .ok (some .done, { r with handles := r.handles.insert number { h with denies := true } })
  | .allow =>
    if h.denies then
      .ok (some .done, { r with handles := r.handles.insert number { h with denies := false } })
    else .error .notDenied
  | .isRemoved => .ok (some (.flag f.removed), r)
  | .isDir => .ok (some (.flag f.isDir), r)
  | .isDenied => .ok (some (.flag (decide (0 < denials r.opened h.sector))), r)
  | .inumber => .ok (some (.number h.sector.toNat), r)
  | .openCount => .ok (some (.number (openers r.opened h.sector)), r)
  | .length => .ok (some (.number f.length), r)
  | .children => .ok (some (.number f.children), r)
  | .sectorAt _ => .ok (none, r)
  | .read offset buffer =>
    .ok (some (Session.overBuffer (f.read offset buffer.size) buffer), r)
  | .write offset data =>
    let (written, r) := r.write h.sector f offset data
    .ok (some (.number written), r)
  | .resize length =>
    let (result, r) := r.resize h.sector f length
    .ok (some (.result result), r)

/-- A step of a session, where it is one on files. A handle is opened on files only that are
there, and nothing else than files writes the volume. -/
def run (r : Reference) : Step → Option (Except Fault (Option Answer × Reference))
  | .make length isDir =>
    if r.space.available = 0 then
      some (.ok (some (.number? none), { r with space := r.space.exhaust }))
    else
      match r.names with
      | [] => none
      | sector :: names =>
        let (result, r) := { r with names }.make sector length isDir
        some (.ok (some (.created sector.toNat result), r))
  | .open number sector =>
    match r.files.get? sector with
    | none => none
    | some _ => some (.ok (some (.number sector.toNat), r.keep number ⟨sector, false⟩))
  | .openInodes => some (.ok (none, r))
  | .flush => some (.ok (some .done, r))
  | .remount capacity =>
    if capacity = 0 then some (.error .noSlots)
    else some (.ok (none, r.handles.entries.foldl (fun r e => r.closeHandle e.1 e.2) r))
  | .handle number step =>
    match r.handles.get? number with
    | none => some (.ok (some .unknown, r))
    | some h =>
      match r.files.get? h.sector with
      | none => none
      | some f => some (r.runHandle number h f step)
  | .summary => some (.ok (none, r))
  | .map (.limit quota) => some (.ok (some .done, { r with space.quota := quota }))
  | .map .freeCount => some (.ok (some (.number r.space.free), r))
  | _ => none

/-- Whether a step is one on files. Handles are opened on files only that are there. -/
def admits (r : Reference) : Step → Bool
  | .make _ _ | .openInodes | .flush | .remount _ | .handle _ _ | .summary | .map (.limit _)
  | .map .freeCount => true
  | .open _ sector => (r.files.get? sector).isSome
  | _ => false

/-- Whether all steps up to the first fault are such ones. -/
def admitsAll : List Step → Reference → Bool
  | [], _ => true
  | step :: rest, r =>
    r.admits step &&
      match r.run step with
      | some (.ok (_, r)) => admitsAll rest r
      | _ => true

/-- Runs steps in order, as long as every step is one on files. -/
def play : List Step → Reference → Option (List (Option Answer) × Except Fault Reference)
  | [], r => some ([], .ok r)
  | step :: rest, r =>
    match r.run step with
    | none => none
    | some (.error f) => some ([], .error f)
    | some (.ok (a, r)) => (play rest r).map fun (answers, final) => (a :: answers, final)

end Reference

end SectorVolume
