import SectorVolume.Image.Error
import SectorVolume.ImageFile
import SectorVolume.Volume

/-!
Volumes in files. Packing makes a new image and copies host files onto it one after the other;
reading a file back needs only the sector of its inode. Neither keeps anything open: whatever the
outcome, changed sectors are in the image at the end.
-/

namespace SectorVolume

/-- A host file to be packed. -/
inductive HostFile
  | missing
  | contents (data : ByteArray)
  /-- The image that is being made. -/
  | image

namespace Image

/-- Operations on an image may fail in a way that the user is told of. -/
abbrev ImageM := ExceptT ImageError (EStateM Fault (Engine ImageFile))

def script {α : Type} (p : Script α) : ImageM α := ExceptT.lift (Engine.run p)

def volume {α : Type} (m : VolumeM α) : ImageM α := script (m.run' Table.empty)

/-- The bytes of a host file as they are now. -/
def readHost : HostFile → ImageM (Array UInt8)
  | .missing => throw .missingFile
  | .contents data => return data.data
  | .image => return (← get).store.disk.device.bytes.data

/-- Copies one host file and returns the sector of its inode. -/
def packFile (path : String) (file : HostFile) : ImageM UInt32 := do
  let data ← readHost file
  match ← script allocSector with
  | none => throw (.refused .noSpace)
  | some sector =>
    match ← script (Volume.create sector data.size false) with
    | .error refusal => throw (.refused refusal)
    | .ok () =>
      let written ← volume do
        let h ← Volume.open sector
        let written ← h.writeAt 0 data
        h.close
        return written
      if written = data.size then return sector
      else throw (.incomplete path written data.size)

def packFiles (files : List (String × HostFile)) : ImageM (List UInt32) :=
  files.mapM fun (path, file) => packFile path file

/-- Carries out `m` on an image with a cache in front, which is flushed at the end. -/
def withEngine {α : Type} (image : ImageFile) (map : FreeMap) (m : ImageM α) :
    Except Fault (Except ImageError α) × ImageFile :=
  let cache := Cache.empty Cache.defaultCapacity (by decide)
  let close (engine : Engine ImageFile) : ImageFile :=
    match Engine.onStore Cached.flush engine with
    | .ok _ engine => engine.store.disk.device
    | .error _ engine => engine.store.disk.device
  match m.run ⟨⟨cache, Metered.ofDevice image⟩, map⟩ with
  | .ok r engine => (.ok r, close engine)
  | .error f engine => (.error f, close engine)

/-- A new image of `sectors` sectors with the given files on it. Sector 0 is never used, so that
its number can stand for no sector. Returns the sectors of the files' inodes, or the error of the
first file that could not be copied, and the image. -/
def pack (sectors : Nat) (files : List (String × HostFile)) :
    Except Fault (Except ImageError (List UInt32)) × ImageFile :=
  let len := sectors * sectorSize
  if wordLimit ≤ len then (.error .overflow, ImageFile.blank 0)
  else if ImageFile.maxOffset < len then (.ok (.error .imageTooLong), ImageFile.blank 0)
  else
    match (FreeMap.ofBitmap (Bitmap.blank sectors)).reserve 0 1 with
    | .error f => (.error f, ImageFile.blank len)
    | .ok map => withEngine (ImageFile.blank len) map (packFiles files)

/-- The bytes of a file: as many as its length, and zero from the first hole on. -/
def readFile (sector : UInt32) : ImageM (Array UInt8) := do
  let n := Inode.ofSector (← script (fetchSector sector))
  if n.isValid then
    volume do
      let h ← Volume.open sector
      let len ← h.length
      let data ← h.readAt 0 len
      h.close
      return data ++ Array.replicate (len - data.size) 0
  else throw (.noInode sector)

/-- The bytes of the file whose inode is in a sector, and the image. -/
def cat (image : ImageFile) (sector : UInt32) :
    Except Fault (Except ImageError (Array UInt8)) × ImageFile :=
  if sector = 0 ∨ image.sectors ≤ sector.toNat then
    (.ok (.error (.noInodeSector sector image.sectors)), image)
  else
    withEngine image (FreeMap.ofBitmap (Bitmap.blank image.sectors)) (readFile sector)

end Image

end SectorVolume
