import SectorVolume.Fault
import SectorVolume.Text.Quoted

/-!
What the user of an image is told when something fails. A fault is not among these: it ends the
program.
-/

namespace SectorVolume

inductive ImageError
  /-- A host file does not exist. -/
  | missingFile
  /-- No file can be that long. -/
  | imageTooLong
  /-- No file has such a position. -/
  | noPosition
  | refused (refusal : Refusal)
  /-- Fewer bytes were written than a host file has. -/
  | incomplete (path : String) (written len : Nat)
  /-- The sector cannot hold an inode. -/
  | noInodeSector (sector : UInt32) (sectors : Nat)
  /-- The sector could hold an inode and does not. -/
  | noInode (sector : UInt32)

namespace ImageError

def message? : ImageError → Option String
  | missingFile | noPosition => none
  | imageTooLong => some "number too large to fit in target type"
  | refused refusal => some refusal.message
  | incomplete path written len =>
    some (Text.quoted path ++ s!": wrote {written} of {len} bytes")
  | noInodeSector sector sectors =>
    some s!"sector {sector} is not an inode of a {sectors}-sector image"
  | noInode sector => some s!"sector {sector} does not hold an inode"

end ImageError

end SectorVolume
