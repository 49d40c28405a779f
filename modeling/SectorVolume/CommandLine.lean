import SectorVolume.CommandLine.Arguments
import SectorVolume.CommandLine.Directory

/-!
What an invocation of the command line does to a directory of host files, and what it prints.
-/

namespace SectorVolume.CommandLine

structure Outcome where
  exit : UInt32
  stdout : ByteArray
  directory : Directory

def successCode : UInt32 := 0

def failureCode : UInt32 := 1

def usageCode : UInt32 := 2

def faultCode : UInt32 := 101

/-- The exit code of an operation that may end in an error or a fault. -/
def exitCode {α : Type} : Except Fault (Except ImageError α) → UInt32
  | .ok (.ok _) => successCode
  | .ok (.error _) => failureCode
  | .error _ => faultCode

/-- What is printed before packing. -/
def packHeader (image : String) (sectors : Nat) : String :=
  "image=" ++ Text.quoted image ++ s!"\nsectors={sectors}\n"

/-- A line for each packed file: the sector of its inode and its path. -/
def packLines (sectors : List UInt32) (files : List String) : String :=
  String.join ((sectors.zip files).map fun (sector, path) => s!"{sector}\t{path}\n")

def runPack (d : Directory) (image : String) (sectors : Nat) (files : List String) : Outcome :=
  let header := packHeader image sectors
  match d.writable? image with
  | none => ⟨failureCode, header.toUTF8, d⟩
  | some target =>
    let hostFiles := files.map fun path => (path, d.hostFile target path)
    let (result, made) := Image.pack sectors hostFiles
    let text :=
      match result with
      | .ok (.ok inodes) => header ++ packLines inodes files
      | _ => header
    ⟨exitCode result, text.toUTF8, d.write image made.bytes⟩

def runCat (d : Directory) (image : String) (sector : UInt32) : Outcome :=
  match d.read? image with
  | none => ⟨failureCode, ByteArray.empty, d⟩
  | some bytes =>
    let result := (Image.cat ⟨bytes⟩ sector).1
    let out :=
      match result with
      | .ok (.ok data) => ⟨data⟩
      | _ => ByteArray.empty
    ⟨exitCode result, out, d⟩

def run (d : Directory) (args : List String) : Outcome :=
  match parse args with
  | .error .help => ⟨successCode, ByteArray.empty, d⟩
  | .error .wrongUsage => ⟨usageCode, ByteArray.empty, d⟩
  | .ok ⟨image, .pack sectors files⟩ => runPack d image sectors files
  | .ok ⟨image, .cat sector⟩ => runCat d image sector

end SectorVolume.CommandLine
