import SectorVolume.Answer
import SectorVolume.Image

/-!
Steps on the image at one path, where at first there is no file.
-/

namespace SectorVolume

inductive ImageStep
  | pack (sectors : Nat) (files : List (String × HostFile))
  | cat (sector : UInt32)
  /-- Overwrites bytes of the image. -/
  | poke (offset : Nat) (data : Array UInt8)
  /-- Cuts or lengthens the image, which is made if it does not exist. -/
  | setLen (len : Nat)
  /-- Removes the image, if there is one. -/
  | remove
  /-- Shows the whole image. -/
  | file

namespace ImageStep

/-- The answer to an operation on an image, and the image after it. -/
def answer {α : Type} (f : α → Answer) (r : Except Fault (Except ImageError α) × ImageFile) :
    EStateM.Result Fault (Option ImageFile) Answer :=
  match r with
  | (.ok (.ok a), image) => .ok (f a) (some image)
  | (.ok (.error e), image) => .ok (.failed e) (some image)
  | (.error e, image) => .error e (some image)

/-- Does `f` to the image; where there is none that is an error. -/
def existing (f : ImageFile → EStateM.Result Fault (Option ImageFile) Answer) :
    EStateM Fault (Option ImageFile) Answer
  | none => .ok (.failed .missingFile) none
  | some image => f image

def run : ImageStep → EStateM Fault (Option ImageFile) Answer
  | pack sectors files => fun _ => answer .words (Image.pack sectors files)
  | cat sector => existing fun image => answer .bytes (Image.cat image sector)
  | poke offset data => existing fun image =>
    if ImageFile.maxOffset < offset then .ok (.failed .noPosition) (some image)
    else .ok .done (some (image.overlay offset data))
  | setLen len => fun image =>
    let image := image.getD (ImageFile.blank 0)
    if ImageFile.maxOffset < len then .ok (.failed .imageTooLong) (some image)
    else .ok .done (some (image.setLen len))
  | remove => fun _ => .ok .done none
  | file => existing fun image => .ok (.file image.bytes) (some image)

end ImageStep

end SectorVolume
