import ModuleAtlas.Amd.Reader
import ModuleAtlas.Disk.Walk
import ModuleAtlas.Scan.SourceName
import ModuleAtlas.Tree.Basic

/-!
# Scans

A scan turns what a walk finds below a location into a tree: a directory for each directory, and a
node with dependencies and times for each source file.  A file whose time is that recorded in an
earlier tree keeps what was recorded; any other file is read.  The time of the dependencies moves
only when the lists differ from the recorded ones.  How a source text is read is up to a reader,
which is that of AMD modules unless another one is given.

## Main definitions

* `ScanStats` — what a scan counts.
* `Found.segments?` — the place of an item in the tree.
* `SourceReader`, `amdReader` — what a source text declares.
* `cached`, `derive` — what an earlier tree knows about a module, and what is recorded about a file.
* `scanItem`, `scanItems`, `Disk.scan` — the scan.
-/

namespace ModuleAtlas

/-- What a scan counts. -/
structure ScanStats where
  /-- The source files. -/
  files : Nat := 0
  /-- The source files that were read. -/
  parsed : Nat := 0
  /-- The source files whose recorded data was kept. -/
  reused : Nat := 0
  /-- The directories below the location. -/
  directories : Nat := 0
  /-- The files among those read that hold no text, or no well-formed module. -/
  failed : Nat := 0
  deriving DecidableEq, Repr, Inhabited

/-- The segments at which an item goes into the tree; none for a file that is no source file. -/
def Found.segments? (extensions : List String) (f : Found) : Option (List String) :=
  match f.file, f.names.getLast? with
  | none, _ => some f.names
  | some _, none => none
  | some _, some name => (moduleName name extensions).map fun stem => f.names.dropLast ++ [stem]

/-- What a tree knows about the module at a place, if a source file backs it. -/
def cached (previous : Option Tree) (place : List String) : Except Fault (Option Node) :=
  match previous with
  | none => .ok none
  | some t =>
    match t.get? Tree.root (joinSegments place) with
    | none => .ok none
    | some id => (t.node id).map fun n => if n.isFile then some n else none

/-- How the data of a file came about. -/
inductive Origin where
  /-- It was recorded before. -/
  | reused
  /-- It was read from the file. -/
  | parsed
  /-- The file could not be read. -/
  | failed
  deriving DecidableEq, Repr

/-- What is recorded about a file. -/
structure Derived where
  /-- The dependencies. -/
  deps : Deps
  /-- Their time. -/
  depsModified : Millis
  /-- How they came about. -/
  origin : Origin
  deriving DecidableEq

/-- The dependencies that a source text declares, if it is well-formed. -/
abbrev SourceReader : Type := String → Option Deps

/-- The reader of AMD modules. -/
def amdReader : SourceReader := fun source => Amd.declared? source.toList

/-- The dependencies that the bytes of a source file declare, if they are text and well-formed. -/
def declaredBy (bytes : ByteArray) (reader : SourceReader := amdReader) : Option Deps :=
  (String.fromUTF8? bytes).bind reader

/-- What is recorded about a file with the given bytes and time, given what was recorded about it
before. -/
def derive (known : Option Node) (bytes : ByteArray) (modified : Millis)
    (reader : SourceReader := amdReader) : Derived :=
  let declared := declaredBy bytes reader
  match known with
  | some n =>
    if n.modified = some modified then ⟨n.deps, n.depsModified.getD modified, .reused⟩
    else
      let deps := declared.getD {}
      ⟨deps, if n.deps = deps then n.depsModified.getD modified else modified,
        if declared.isSome then .parsed else .failed⟩
  | none => ⟨declared.getD {}, modified, if declared.isSome then .parsed else .failed⟩

/-- The counts after one more source file. -/
def ScanStats.addFile (s : ScanStats) : Origin → ScanStats
  | .reused => { s with files := s.files + 1, reused := s.reused + 1 }
  | .parsed => { s with files := s.files + 1, parsed := s.parsed + 1 }
  | .failed => { s with files := s.files + 1, parsed := s.parsed + 1, failed := s.failed + 1 }

/-- The counts after one more directory. -/
def ScanStats.addDirectory (s : ScanStats) : ScanStats :=
  { s with directories := s.directories + 1 }

/-- The failure of a scan at a source file that cannot be looked at. -/
def unreadable (p : Path) (e : IoError) : Failure :=
  ((Failure.ofIo e).within s!"IO error for operation on {p}: {e.text}").within
    s!"Failed to read metadata for {p}"

/-- Adds an item of a walk to a tree and to the counts. -/
def scanItem (previous : Option Tree) (extensions : List String) (reader : SourceReader)
    (state : Tree × ScanStats) (f : Found) : Except Failure (Tree × ScanStats) :=
  match f.segments? extensions with
  | none => .ok state
  | some place =>
    match state.1.ensurePath Tree.root place with
    | .error e => .error (.ofError e)
    | .ok (t, id) =>
      match f.file with
      | none => .ok (t, state.2.addDirectory)
      | some (.error e) => .error (unreadable f.path e)
      | some (.ok (bytes, modified)) =>
        match cached previous place with
        | .error fault => .error (.ofFault fault)
        | .ok known =>
          let d := derive known bytes modified reader
          match t.setDeps id d.deps modified d.depsModified with
          | .error e => .error (.ofError e)
          | .ok t => .ok (t, state.2.addFile d.origin)

/-- Adds the items of a walk to a tree and to the counts. -/
def scanItems (previous : Option Tree) (extensions : List String) (reader : SourceReader)
    (state : Tree × ScanStats) (items : List Found) : Except Failure (Tree × ScanStats) :=
  items.foldlM (scanItem previous extensions reader) state

/-- Scans a location, given the tree recorded for it before.  A location that is no directory gives
the tree of a root alone. -/
def Disk.scan (d : Disk) (location : Path) (previous : Option Tree) (extensions : List String)
    (reader : SourceReader := amdReader) : Except Failure (Tree × ScanStats) :=
  scanItems previous extensions reader (.new location.displayName, {}) (d.walk location)

@[simp] theorem cached_none (place : List String) : cached none place = .ok none := rfl

@[simp] theorem scanItems_nil (previous : Option Tree) (extensions : List String)
    (reader : SourceReader) (state : Tree × ScanStats) :
    scanItems previous extensions reader state [] = .ok state := rfl

end ModuleAtlas
