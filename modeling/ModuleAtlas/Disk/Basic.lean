import ModuleAtlas.Disk.Entry
import ModuleAtlas.Error
import ModuleAtlas.Path.Basic

/-!
# Disks

A disk is a file system with a working directory.  A path is followed name by name: `..` leads to
the directory above the one reached so far, a symbolic link to where the path that it holds leads,
and a slash at the end asks for a directory.  More than forty links are taken for a circle, and
neither paths nor the names in them may be too long.

## Main definitions

* `Disk` — a file system, its working directory, and the time that new files get.
* `isLongName`, `Path.isLong` — names and paths that are too long.
* `Spot` — where a path leads.
* `Disk.advance`, `Disk.locate`, `Disk.find` — following a path.
* `Disk.stat`, `Disk.read`, `Disk.readText` — what is found there.
-/

namespace ModuleAtlas

/-! ### Refusals -/

namespace IoError

/-- There is no such file or directory. -/
def notFound : IoError := ⟨.notFound, "No such file or directory (os error 2)"⟩

/-- There is such a file already. -/
def alreadyExists : IoError := ⟨.alreadyExists, "File exists (os error 17)"⟩

/-- The file cannot be replaced. -/
def busy : IoError := ⟨.busy, "Device or resource busy (os error 16)"⟩

/-- A part of the path is no directory. -/
def notADirectory : IoError := ⟨.notADirectory, "Not a directory (os error 20)"⟩

/-- A directory cannot be used as a file. -/
def isADirectory : IoError := ⟨.isADirectory, "Is a directory (os error 21)"⟩

/-- The path goes through too many links. -/
def linkLoop : IoError := ⟨.linkLoop, "Too many levels of symbolic links (os error 40)"⟩

/-- The path, or a name in it, is too long. -/
def nameTooLong : IoError := ⟨.invalidFilename, "File name too long (os error 36)"⟩

/-- The content is no text. -/
def noText : IoError := ⟨.invalidData, "stream did not contain valid UTF-8"⟩

/-- The path cannot name a file. -/
def nulInPath : IoError := ⟨.invalidInput, "file name contained an unexpected NUL byte"⟩

/-- The path cannot be that of a file that is moved. -/
def invalidArgument : IoError := ⟨.invalidInput, "Invalid argument (os error 22)"⟩

end IoError

/-- A file system with a working directory. -/
structure Disk where
  /-- The directory at the top. -/
  root : Entry := .empty
  /-- The place of the working directory. -/
  cwd : List String := []
  /-- The time that new files get. -/
  now : Millis := 0

/-- Where a path leads. -/
structure Spot where
  /-- The place, after all links. -/
  place : List String
  /-- What is there; nothing if only the directory above is there. -/
  entry : Option Entry

/-- How far a path leads before the next link. -/
inductive Progress where
  /-- No further, because of a refusal. -/
  | stopped (e : IoError)
  /-- To the end. -/
  | arrived (spot : Spot)
  /-- To a link in the directory `place`, with names still to follow. -/
  | link (target : String) (place : List String) (rest : List String)

/-- Whether a name is too long for an entry of a directory. -/
def isLongName (s : String) : Bool := s.utf8ByteSize > 255

/-- Whether a path is too long to be followed. -/
def Path.isLong (p : Path) : Bool := p.text.utf8ByteSize > 4095

namespace Disk

/-! ### Following paths -/

/-- The names that are followed for a path, where `.` stays in a directory. -/
def names (text : String) : List String :=
  let pieces := Text.splitAt '/' text
  pieces.filter (· ≠ "") ++ (if pieces.getLast? = some "" then ["."] else [])

/-- Follows names from a place up to the end or the first link.  A link at the end is followed only
if `followLast` is set. -/
def advance (root : Entry) (followLast : Bool) (place : List String) : List String → Progress
  | [] => .arrived ⟨place, root.at? place⟩
  | s :: rest =>
    match root.at? place with
    | none => .stopped .notFound
    | some (.dir children) =>
      if s = "." then advance root followLast place rest
      else if s = ".." then advance root followLast place.dropLast rest
      else if isLongName s then .stopped .nameTooLong
      else
        match Ordered.lookup s children with
        | none => if rest.isEmpty then .arrived ⟨place ++ [s], none⟩ else .stopped .notFound
        | some (.link target) =>
          if rest.isEmpty && !followLast then .arrived ⟨place ++ [s], some (.link target)⟩
          else .link target place rest
        | some _ => advance root followLast (place ++ [s]) rest
    | some _ => .stopped .notADirectory

/-- The place where following a path starts, given the directory that a relative path starts
from. -/
def start (place : List String) (text : String) : List String :=
  if (Path.mk text).isAbsolute then [] else place

/-- Follows names from a place, through a bounded number of links. -/
def locate (d : Disk) (followLast : Bool) : Nat → List String → List String → Except IoError Spot
  | links, place, rest =>
    match advance d.root followLast place rest with
    | .stopped e => .error e
    | .arrived spot => .ok spot
    | .link target place rest =>
      match links with
      | 0 => .error .linkLoop
      | links + 1 => locate d followLast links (start place target) (names target ++ rest)

/-- The number of links that a path may go through. -/
def linkLimit : Nat := 40

/-- The spot that a path leads to by way of the given names. -/
def findVia (d : Disk) (followLast : Bool) (p : Path) (names : List String) : Except IoError Spot :=
  if p.text = "" then .error .notFound
  else if p.text.toList.contains '\x00' then .error .nulInPath
  else if p.isLong then .error .nameTooLong
  else d.locate followLast linkLimit (start d.cwd p.text) names

/-- The spot that a path leads to. -/
def find (d : Disk) (p : Path) : Except IoError Spot := d.findVia true p (names p.text)

/-! ### What is found -/

/-- What a path leads to. -/
def stat (d : Disk) (p : Path) : Except IoError Entry :=
  match d.find p with
  | .error e => .error e
  | .ok spot => spot.entry.elim (.error .notFound) .ok

/-- Whether a path leads to something. -/
def exists? (d : Disk) (p : Path) : Bool := (d.stat p).isOk

/-- Whether a path leads to a directory. -/
def isDir (d : Disk) (p : Path) : Bool :=
  match d.stat p with
  | .ok e => e.isDir
  | .error _ => false

/-- The bytes of the file that a path leads to. -/
def read (d : Disk) (p : Path) : Except IoError ByteArray :=
  match d.stat p with
  | .error e => .error e
  | .ok (.file bytes _) => .ok bytes
  | .ok _ => .error .isADirectory

/-- The text of bytes. -/
def textOf (bytes : ByteArray) : Except IoError String :=
  (String.fromUTF8? bytes).elim (.error .noText) .ok

/-- The text of the file that a path leads to. -/
def readText (d : Disk) (p : Path) : Except IoError String := (d.read p).bind textOf

/-- The time of the file that a path leads to. -/
def modified (d : Disk) (p : Path) : Except Failure Millis :=
  match d.stat p with
  | .error e => .error ((Failure.ofIo e).within s!"Failed to get metadata for: {p}")
  | .ok (.file _ modified) => .ok modified
  | .ok _ => .ok d.now

/-- The working directory as a path. -/
def cwdPath (d : Disk) : Path := ⟨"/" ++ "/".intercalate d.cwd⟩

@[simp] theorem stat_empty (d : Disk) : d.stat ⟨""⟩ = .error .notFound := by
  simp [stat, find, findVia]

@[simp] theorem isDir_empty (d : Disk) : d.isDir ⟨""⟩ = false := by simp [isDir]

end Disk

end ModuleAtlas
