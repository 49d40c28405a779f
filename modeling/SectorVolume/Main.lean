import SectorVolume.CommandLine

/-!
The command line on real files: reads the files that the arguments name, runs, and writes the
image.
-/

namespace SectorVolume.CommandLine

/-- The paths that an invocation reads or writes. -/
def Invocation.paths (i : Invocation) : List String :=
  match i.command with
  | .pack _ files => i.image :: files
  | .cat _ => [i.image]

/-- The named files that can be read, in folders that are taken to exist. -/
def readDirectory (paths : List String) : IO Directory := do
  let mut files := []
  for path in paths do
    try
      files := (path, ← IO.FS.readBinFile path) :: files
    catch _ => pure ()
  return paths.foldl Directory.addFolders (Directory.ofFiles files.reverse)

/-- Writes the image that packing has made, and tells whether that worked. -/
def writeImage (i : Invocation) (d : Directory) : IO Bool := do
  match i.command, d.read? i.image with
  | .pack _ _, some bytes =>
    try
      IO.FS.writeBinFile i.image bytes
      return true
    catch _ => return false
  | _, _ => return true

/-- What is printed although the image could not be written. -/
def printedBefore (i : Invocation) : String :=
  match i.command with
  | .pack sectors _ => packHeader i.image sectors
  | .cat _ => ""

end SectorVolume.CommandLine

open SectorVolume.CommandLine in
def main (args : List String) : IO UInt32 := do
  match parse args with
  | .error _ => return (run {} args).exit
  | .ok invocation =>
    let outcome := run (← readDirectory invocation.paths) args
    let stdout ← IO.getStdout
    if ← writeImage invocation outcome.directory then
      stdout.write outcome.stdout
      stdout.flush
      return outcome.exit
    else
      stdout.putStr (printedBefore invocation)
      stdout.flush
      return failureCode
