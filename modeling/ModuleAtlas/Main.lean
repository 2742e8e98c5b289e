import ModuleAtlas.Command.Footprint
import ModuleAtlas.Disk.Difference

/-!
# The program

The outer layer of the command line.  It copies the files that a command looks at from the file
system into a disk, has the command carried out there, prints what it leaves behind, and writes what
it changed.

## Main definitions

* `readEntry`, `readPath` — copying from the file system, where a link is copied as what it leads
  to.
* `applyUpdate` — writing to it.
* `main` — the program.
-/

namespace ModuleAtlas

/-- The spelling of a place. -/
def placeText (place : List String) : String := "/" ++ "/".intercalate place

/-- A time of the file system as a duration. -/
def epochTime (t : IO.FS.SystemTime) : EpochTime :=
  let nanos := t.sec * 1000000000 + t.nsec.toNat
  ⟨nanos < 0, nanos.natAbs / 1000000000, nanos.natAbs % 1000000000⟩

/-- What the file system holds at a path, links followed; nothing if there is nothing, or if the
path leads back to one of the directories `around`. -/
partial def readEntry (around : List String) (path : String) : IO (Option Entry) := do
  try
    let real ← IO.FS.realPath path
    let data ← real.metadata
    match data.type with
    | .file =>
      return some (.file (← IO.FS.readBinFile path) (epochTime data.modified).millis)
    | .dir =>
      if around.contains real.toString then return none
      let mut children : List (String × Entry) := []
      for item in ← real.readDir do
        if let some e ← readEntry (real.toString :: around) (path ++ "/" ++ item.fileName) then
          children := Ordered.bind item.fileName e children
      return some (.dir children)
    | _ => return none
  catch _ => return none

/-- Stands in for what the file system holds at a path, without looking into it. -/
def readOutline (path : String) : IO (Option Entry) := do
  try
    let data ← (← IO.FS.realPath path).metadata
    match data.type with
    | .dir => return some .empty
    | _ => return some (.file .empty 0)
  catch _ => return none

/-- Copies what the file system holds at the end of a path to a disk, with the directories on the
way.  `path` is the part of it that leads to `place`. -/
def readAlong (d : Disk) (path : String) (place : List String) : List String → IO Disk
  | [] => do
    match ← readEntry [] path with
    | some e => return d.put place e
    | none => return d
  | s :: rest => do
    match (← readOutline path), d.root.at? place with
    | none, _ => return d
    | some _, some _ => readAlong d (path ++ "/" ++ s) (enter s place) rest
    | some e, none => readAlong (d.put place e) (path ++ "/" ++ s) (enter s place) rest
where
  /-- The place that a name leads to. -/
  enter (s : String) (place : List String) : List String :=
    if s = "." then place else if s = ".." then place.dropLast else place ++ [s]

/-- Copies what the file system holds at a path to a disk. -/
def readPath (d : Disk) (p : Path) : IO Disk :=
  let place := Disk.start d.cwd p.text
  readAlong d (placeText place) place (Disk.names p.text)

/-- Makes a directory or writes a file. -/
def applyUpdate : Update → IO Unit
  | .makeDir place => IO.FS.createDirAll (placeText place)
  | .writeFile place bytes => do
    let path := placeText place
    let draft := path ++ ".new"
    IO.FS.writeBinFile draft bytes
    IO.FS.rename draft path

/-- The variables of the environment that play a part. -/
def readEnvironment : IO Environment := do
  let names := ["MODGRAPH_CONFIG", "XDG_CACHE_HOME", "HOME"]
  let values ← names.filterMapM fun name => do return (← IO.getEnv name).map (name, ·)
  return ⟨values⟩

/-- Carries out a command line and returns its code. -/
def runProgram (args : List String) : IO UInt32 := do
  let e ← readEnvironment
  let cwd := (Disk.names (← IO.currentDir).toString).filter (· ≠ ".")
  let mut d : Disk := { cwd }
  for _ in [0, 1] do
    for p in commandFootprint e args d do
      d ← readPath d p
  let (output, after) := runCommand e args d
  try
    for u in d.updatesTo after do applyUpdate u
  catch failure =>
    IO.eprint (outputOf (.error (.ofMessage failure.toString))).err
    return 1
  IO.print output.out
  IO.eprint output.err
  return output.code.toUInt32

end ModuleAtlas

/-- The program. -/
def main (args : List String) : IO UInt32 := ModuleAtlas.runProgram args
