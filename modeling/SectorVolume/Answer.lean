import SectorVolume.Cache
import SectorVolume.Image.Error
import SectorVolume.Inode

/-!
What single steps answer, on a free map, a cache, a session or an image.
-/

namespace SectorVolume

/-- The disk of a session and the counts of what was done to it and to its free map. -/
structure Summary where
  disk : RamDisk
  reads : Nat
  writes : Nat
  free : Nat
  allocs : Nat
  releases : Nat

inductive Answer
  | done
  | flag (b : Bool)
  | number (n : Nat)
  | number? (n : Option Nat)
  | words (ws : List UInt32)
  | bytes (bs : Array UInt8)
  /-- The number of bytes read, and the buffer they were read into. -/
  | buffer (count : Nat) (bs : Array UInt8)
  | result (r : Except Refusal Unit)
  /-- The sector of a new file, and whether the file could be made there. -/
  | created (sector : Nat) (r : Except Refusal Unit)
  | runs (rs : List (Nat × Nat))
  | inode (n : Inode)
  | transfers (reads writes : Nat)
  | requests (allocs releases free : Nat)
  | stats (s : Cache.Stats) (sectors : List UInt32) (reads writes : Nat)
  | summary (s : Summary)
  | list (answers : List Answer)
  /-- A whole file of the host. -/
  | file (bytes : ByteArray)
  /-- A step on an image failed in a way that the user is told of. -/
  | failed (e : ImageError)
  /-- A step named a number under which nothing is kept. -/
  | unknown

end SectorVolume
