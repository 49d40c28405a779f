import SectorVolume.ImageFile
import SectorVolume.Answer

/-!
Steps on a file of bytes as a device.
-/

namespace SectorVolume

inductive FileStep
  | sectors
  | read (sector len : Nat)
  | write (sector : Nat) (data : Array UInt8)
  /-- Shows the whole file. -/
  | file

def FileStep.run : FileStep → EStateM Fault ImageFile Answer
  | sectors => return .number (← get).sectors
  | read sector len => fun f =>
    match f.readBytes sector len with
    | .ok data => .ok (.bytes data) f
    | .error e => .error e f
  | write sector data => do
    ImageFile.writeBytes sector data
    return .done
  | file => return .file (← get).bytes

end SectorVolume
