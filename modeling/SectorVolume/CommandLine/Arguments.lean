/-!
The arguments of the command line. The image is named before the subcommand; `pack` takes a size
and files, `cat` takes a sector. An option's value stands next to it, after an equals sign, or,
behind a short option, directly. Asking for help wins over whatever is wrong after it.
-/

namespace SectorVolume.CommandLine

inductive Command
  | pack (sectors : Nat) (files : List String)
  | cat (sector : UInt32)
  deriving DecidableEq, Repr

structure Invocation where
  image : String
  command : Command
  deriving DecidableEq, Repr

/-- Why there is nothing to carry out. -/
inductive Stop
  | help
  | wrongUsage
  deriving DecidableEq, Repr

/-- How large an image is where nothing else is asked for. -/
def defaultSectors : Nat := 32768

/-- The forms that an argument can have before a lone `--`. -/
inductive Form
  | plain (text : String)
  | long (name : String) (value : Option String)
  | short (name : Char) (rest : String)
  | escape

def Form.ofArgument (arg : String) : Form :=
  match arg.toList with
  | ['-', '-'] => .escape
  | '-' :: '-' :: cs =>
    match cs.span (· ≠ '=') with
    | (name, _ :: value) => .long (String.ofList name) (some (String.ofList value))
    | (name, []) => .long (String.ofList name) none
  | '-' :: c :: cs => .short c (String.ofList cs)
  | _ => .plain arg

/-- What an argument means to a command that has at most one option. -/
inductive Item
  | word (text : String)
  /-- The option with its value. -/
  | given (value : String)
  /-- The option; its value is the next argument. -/
  | awaiting
  | help
  | escape
  | wrong

/-- The name of an option, short and long. -/
structure OptionName where
  short : Char
  long : String

/-- The value written behind a short option, with or without an equals sign. -/
def Item.ofAttached (rest : String) : Item :=
  match rest.toList with
  | [] => .awaiting
  | '=' :: cs => .given (String.ofList cs)
  | cs => .given (String.ofList cs)

def Item.ofArgument (name : Option OptionName) (arg : String) : Item :=
  match Form.ofArgument arg with
  | .plain text => .word text
  | .escape => .escape
  | .long "help" none => .help
  | .short 'h' _ => .help
  | .long long value =>
    if name.all (·.long ≠ long) then .wrong
    else
      match value with
      | some value => .given value
      | none => .awaiting
  | .short short rest => if name.all (·.short ≠ short) then .wrong else .ofAttached rest

/-- An argument that can be the value of the option before it. -/
def isValue (arg : String) : Bool :=
  match Form.ofArgument arg with
  | .plain _ => true
  | _ => false

/-- A number in decimal digits with an optional sign before it. -/
def parseDigits (cs : List Char) : Option Nat :=
  if cs.isEmpty ∨ ¬cs.all Char.isDigit then none
  else some (cs.foldl (fun n c => 10 * n + (c.toNat - 48)) 0)

def parseCount (s : String) : Option Nat := do
  let n ← match s.toList with
    | '+' :: cs => parseDigits cs
    | cs => parseDigits cs
  if n < UInt64.size then some n else none

def parseSector (s : String) : Option UInt32 := do
  let n ← match s.toList with
    | '+' :: cs => parseDigits cs
    | '-' :: cs => do
      let n ← parseDigits cs
      if n = 0 then some 0 else none
    | cs => parseDigits cs
  if n < UInt32.size then some (UInt32.ofNat n) else none

/-- What has been seen of the arguments of `pack`, the newest first. -/
structure PackArguments where
  sizes : List String := []
  files : List String := []

def PackArguments.command (a : PackArguments) : Except Stop Command :=
  if a.files.any String.isEmpty then .error .wrongUsage
  else
    match a.sizes with
    | [] => .ok (.pack defaultSectors a.files.reverse)
    | [size] =>
      match parseCount size with
      | some n => .ok (.pack n a.files.reverse)
      | none => .error .wrongUsage
    | _ => .error .wrongUsage

/-- Help, unless something before was wrong. -/
def help {α β : Type} (sofar : Except Stop α) : Except Stop β := do
  let _ ← sofar
  throw .help

def sectorsOption : OptionName := ⟨'s', "sectors"⟩

def parsePack (a : PackArguments) : List String → Except Stop Command
  | [] => a.command
  | arg :: rest =>
    match Item.ofArgument (some sectorsOption) arg with
    | .word file => parsePack { a with files := file :: a.files } rest
    | .given size => parsePack { a with sizes := size :: a.sizes } rest
    | .awaiting =>
      match rest with
      | [] => .error .wrongUsage
      | size :: rest =>
        if isValue size then parsePack { a with sizes := size :: a.sizes } rest
        else .error .wrongUsage
    | .help => help a.command
    | .escape => { a with files := rest.reverse ++ a.files : PackArguments }.command
    | .wrong => .error .wrongUsage

def catCommand : List String → Except Stop Command
  | [sector] =>
    match parseSector sector with
    | some sector => .ok (.cat sector)
    | none => .error .wrongUsage
  | _ => .error .wrongUsage

/-- Help for `cat`, unless a sector before it was wrong. -/
def catHelp : List String → Except Stop Command
  | [] => .error .help
  | sofar => help (catCommand sofar)

def parseCat (sofar : List String) : List String → Except Stop Command
  | [] => catCommand sofar
  | arg :: rest =>
    match Item.ofArgument none arg with
    | .word sector => parseCat (sofar ++ [sector]) rest
    | .help => catHelp sofar
    | .escape => catCommand (sofar ++ rest)
    | _ => .error .wrongUsage

/-- The names after `help`. -/
def parseHelp : List String → Stop
  | [] | ["pack"] | ["cat"] | ["help"] => .help
  | _ => .wrongUsage

/-- What has been seen of the options before the subcommand: the values given for the image, and
whether the last of them has been looked at. -/
structure ImageArguments where
  images : List String := []
  pending : Option String := none

def ImageArguments.image (a : ImageArguments) : Except Stop String :=
  match a.pending.toList ++ a.images with
  | [image] => if image.isEmpty then .error .wrongUsage else .ok image
  | _ => .error .wrongUsage

/-- Looks at the last value. -/
def ImageArguments.settle (a : ImageArguments) : Except Stop ImageArguments :=
  match a.pending.toList ++ a.images with
  | [] => .ok {}
  | [image] => if image.isEmpty then .error .wrongUsage else .ok { images := [image] }
  | _ => .error .wrongUsage

def ImageArguments.withCommand (a : ImageArguments) (command : Except Stop Command) :
    Except Stop Invocation := do
  let command ← command
  let image ← a.image
  return { image, command }

def imageOption : OptionName := ⟨'i', "image"⟩

def parseFrom (a : ImageArguments) : List String → Except Stop Invocation
  | [] => .error .wrongUsage
  | "pack" :: rest => a.withCommand (parsePack {} rest)
  | "cat" :: rest => a.withCommand (parseCat [] rest)
  | "help" :: rest => .error (parseHelp rest)
  | arg :: rest =>
    match a.settle with
    | .error e => .error e
    | .ok a =>
      match Item.ofArgument (some imageOption) arg with
      | .given image =>
        match { a with pending := image : ImageArguments }.settle with
        | .error e => .error e
        | .ok a => parseFrom a rest
      | .awaiting =>
        match rest with
        | [] => .error .wrongUsage
        | image :: rest =>
          if isValue image then parseFrom { a with pending := image } rest
          else .error .wrongUsage
      | .help => .error .help
      | _ => .error .wrongUsage

/-- Reads the arguments of the command line. -/
def parse (args : List String) : Except Stop Invocation := parseFrom {} args

end SectorVolume.CommandLine
