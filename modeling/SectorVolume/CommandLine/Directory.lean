import SectorVolume.Image
import SectorVolume.Table

/-!
Host files by path. Different paths may lead to the same file, so a path is followed part by part:
an empty part and a dot stay, two dots go to the folder around, a name goes on. All parts but the
last have to be folders, and the last has to be a name.
-/

namespace SectorVolume.CommandLine

/-- Host files and folders by path. A path leads from the working directory or, with a slash in
front, from the root; the working directory, those around it and the root exist and are not
listed. -/
structure Directory where
  files : Table String ByteArray := {}
  folders : List String := []

/-- How long a path may be, in bytes. -/
def maxPathBytes : Nat := 4095

/-- How long a name in a path may be, in bytes. -/
def maxNameBytes : Nat := 255

/-- The way to a folder, the last name first. The root is the empty name, and `..` stands only
where nothing but `..` is before it. -/
abbrev Trail := List String

namespace Trail

/-- Where a path starts. -/
def start (path : String) : Trail := if path.startsWith "/" then [""] else []

/-- The folder around a folder. The root is around itself. -/
def parent : Trail → Trail
  | [] => [".."]
  | [""] => [""]
  | ".." :: rest => ".." :: ".." :: rest
  | _ :: rest => rest

/-- The one spelling of the path to a place. -/
def spelling (t : Trail) : String := "/".intercalate t.reverse

/-- Goes on by one part of a path. -/
def step (t : Trail) (part : String) : Trail :=
  match part with
  | "" | "." => t
  | ".." => t.parent
  | name => name :: t

end Trail

namespace Directory

def isFolder (d : Directory) (t : Trail) : Bool :=
  t == [""] || t.all (· == "..") || d.folders.contains t.spelling

/-- Goes on by one part of a path, which has to be a folder. -/
def enter? (d : Directory) (t : Trail) (part : String) : Option Trail :=
  if d.isFolder (t.step part) then some (t.step part) else none

/-- The one spelling of a path that can name a file: its last part is a name, the parts before
lead through folders, and nothing is too long. -/
def resolve (d : Directory) (path : String) : Option String := do
  let parts := path.splitOn "/"
  if maxPathBytes < path.utf8ByteSize || parts.any (maxNameBytes < ·.utf8ByteSize) then none
  else
    let name ← parts.getLast?
    if name = "" ∨ name = "." ∨ name = ".." then none
    else
      let t ← parts.dropLast.foldlM d.enter? (Trail.start path)
      return (t.step name).spelling

/-- Makes the folders that a path leads through. -/
def addFolders (d : Directory) (path : String) : Directory :=
  let trails := (path.splitOn "/").dropLast.scanl Trail.step (Trail.start path)
  { d with folders := trails.map Trail.spelling ++ d.folders }

def read? (d : Directory) (path : String) : Option ByteArray := do
  d.files.get? (← d.resolve path)

def write (d : Directory) (path : String) (data : ByteArray) : Directory :=
  match d.resolve path with
  | some path => { d with files := d.files.insert path data }
  | none => d

def ofFiles (files : List (String × ByteArray)) : Directory :=
  files.foldl (fun d (path, data) => (d.addFolders path).write path data) {}

/-- The resolved path of a file that can be written. -/
def writable? (d : Directory) (path : String) : Option String := do
  let path ← d.resolve path
  if d.folders.contains path then none else some path

/-- A file to be packed, when the image is at the resolved path `image`. -/
def hostFile (d : Directory) (image path : String) : HostFile :=
  if d.resolve path = some image then .image
  else
    match d.read? path with
    | some data => .contents data
    | none => .missing

end Directory

end SectorVolume.CommandLine
