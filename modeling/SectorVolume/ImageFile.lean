import SectorVolume.Device

/-!
A file of bytes as a block device. Sector `i` is the 512 bytes from `512 * i` on; a transfer that
meets the end of the file fails on reading and lengthens the file on writing.
-/

namespace SectorVolume

/-- `n` zero bytes. -/
def zeroBytes (n : Nat) : ByteArray := n.fold (fun _ _ b => b.push 0) ByteArray.empty

theorem data_zeroBytes (n : Nat) : (zeroBytes n).data = Array.replicate n 0 := by
  unfold zeroBytes
  induction n with
  | zero => rfl
  | succ n ih => rw [Nat.fold_succ, ByteArray.data_push, ih, Array.replicate_succ]

structure ImageFile where
  bytes : ByteArray

namespace ImageFile

def blank (len : Nat) : ImageFile := ⟨zeroBytes len⟩

def size (f : ImageFile) : Nat := f.bytes.size

/-- The number of complete sectors. -/
def sectors (f : ImageFile) : Nat := f.size / sectorSize

/-- Cuts the file, or lengthens it with zeros. -/
def setLen (f : ImageFile) (len : Nat) : ImageFile :=
  if len ≤ f.size then ⟨f.bytes.extract 0 len⟩ else ⟨f.bytes ++ zeroBytes (len - f.size)⟩

/-- Lays bytes over the file from `offset` on; the file grows where it is too short. -/
def overlay (f : ImageFile) (offset : Nat) (data : Array UInt8) : ImageFile :=
  if data.isEmpty then f
  else
    let ⟨bytes⟩ := if f.size < offset + data.size then f.setLen (offset + data.size) else f
    ⟨data.size.fold (fun i _ bytes => bytes.set! (offset + i) data[i]) bytes⟩

/-- The largest offset that a file can have: the largest signed number of 64 bits. -/
def maxOffset : Nat := 9223372036854775807

/-- Where a sector starts. -/
def position (i : Nat) : Except Fault Nat :=
  if wordLimit ≤ i * sectorSize then .error .overflow
  else if maxOffset < i * sectorSize then .error .deviceSeek
  else .ok (i * sectorSize)

/-- Reads `len` bytes from the start of a sector on. -/
def readBytes (f : ImageFile) (i len : Nat) : Except Fault (Array UInt8) := do
  let start ← position i
  if len = 0 then return #[]
  if start + len ≤ f.size then return (f.bytes.extract start (start + len)).data
  throw .deviceTransfer

/-- Writes bytes from the start of a sector on. -/
def writeBytes (i : Nat) (data : Array UInt8) : EStateM Fault ImageFile Unit := fun f =>
  match position i with
  | .ok start => .ok () (f.overlay start data)
  | .error e => .error e f

def sector (f : ImageFile) (i : Nat) : Except Fault Sector := do
  let start ← position i
  if h : start + sectorSize ≤ f.bytes.size then
    return Vector.ofFn fun k => f.bytes[start + k.val]
  else throw .deviceTransfer

instance : BlockDevice ImageFile where
  readSector := sector
  writeSector i s := writeBytes i s.toArray

end ImageFile

end SectorVolume
