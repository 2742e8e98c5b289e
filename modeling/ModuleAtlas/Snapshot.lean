import ModuleAtlas.Disk.Write
import ModuleAtlas.Json.Reader
import ModuleAtlas.Tree.Integrity
import ModuleAtlas.Tree.Record

/-!
# Snapshots

A snapshot is the record of a catalog in a file: one JSON object with a format version, the
signature of the configuration and the tree of every location.  A file that is missing, unreadable,
of another version or with a damaged tree counts as no snapshot at all; only the failure to take its
lock is an error.

## Main definitions

* `Snapshot` — the record.
* `Snapshot.toJson`, `Snapshot.ofJson`, `Snapshot.ofBytes` — its written form.
* `Snapshot.isUsable`, `Snapshot.isValidFor` — whether a record counts, and under which signature.
* `Snapshot.load` — reading the file.
* `Trouble.save`, `Snapshot.save` — writing it, under trouble and without.
-/

namespace ModuleAtlas

/-- The record of a catalog. -/
structure Snapshot where
  /-- The version of the format. -/
  version : UInt32
  /-- The signature of the configuration. -/
  signature : String
  /-- The tree of each location. -/
  locations : SortedMap Path Tree
  deriving DecidableEq

namespace Snapshot

/-- The version of the format that is written. -/
def currentVersion : UInt32 := 1

/-- The record of the current version. -/
def new (signature : String) (locations : SortedMap Path Tree) : Snapshot :=
  ⟨currentVersion, signature, locations⟩

/-- Whether the record may be used under a signature. -/
def isValidFor (s : Snapshot) (signature : String) : Bool :=
  s.version == currentVersion && s.signature == signature

/-- Whether the record is one of the current version without damaged trees. -/
def isUsable (s : Snapshot) : Bool :=
  s.version == currentVersion && s.locations.values.all Tree.isIntact

/-! ### Written form -/

/-- The written form of trees by their locations. -/
def locationsJson (m : SortedMap Path Tree) : Json :=
  .obj (m.toList.map fun p => (p.1.text, p.2.toJson))

/-- The written form. -/
def toJson (s : Snapshot) : Json :=
  .obj [("version", .int s.version.toNat), ("config_signature", .str s.signature),
    ("locations", locationsJson s.locations)]

/-- The version that a value denotes. -/
def versionOfJson (j : Json) : Option UInt32 := (Json.natBelow (UInt32.size) j).map .ofNat

/-- The trees that a value denotes, by their locations. -/
def locationsOfJson (j : Json) : Option (SortedMap Path Tree) :=
  (Json.entries Tree.ofJson j).map fun l => .ofList (l.map fun p => (⟨p.1⟩, p.2))

/-- The record that a value denotes. -/
def ofJson (j : Json) : Option Snapshot :=
  match j.record ["version", "config_signature", "locations"] with
  | some [version, signature, locations] => do
    return {
      version := ← Json.required versionOfJson version
      signature := ← Json.required Json.text signature
      locations := ← Json.required locationsOfJson locations }
  | _ => none

/-- The bytes of the file. -/
def toBytes (s : Snapshot) : ByteArray := s.toJson.compact.toUTF8

/-- The record that bytes denote. -/
def ofBytes (bytes : ByteArray) : Option Snapshot := (Json.parseBytes bytes).bind ofJson

/-! ### The file -/

/-- The usable record that the file at a path holds, if there is one. -/
def usable? (d : Disk) (p : Path) : Option Snapshot :=
  ((d.read p).toOption.bind ofBytes).filter isUsable

/-- Reads the record from the file at a path, under its lock. -/
def load (p : Path) : OnDisk Failure (Option Snapshot) := do
  if ← OnDisk.look (·.exists? p) then
    let _ ← lock p
    OnDisk.look fun d => usable? d p
  else
    return none

end Snapshot

namespace Trouble

/-- The bytes of a record that is to be written to a path. -/
def encode (t : Trouble) (s : Snapshot) (p : Path) : OnDisk Failure ByteArray := fun d =>
  match t.refusal? .encode with
  | some e => (.error (.ofError (.snapshot p.text e.text)), d)
  | none => (.ok s.toBytes, d)

/-- Writes a record to the file at a path, under its lock. -/
def save (t : Trouble) (s : Snapshot) (p : Path) : OnDisk Failure Unit := do
  let bytes ← t.encode s p
  let _ ← t.lock p
  OnDisk.within s!"Failed to write dependency snapshot {p}" (t.atomicWrite p bytes)

end Trouble

namespace Snapshot

/-- Writes the record to the file at a path, under its lock. -/
def save (s : Snapshot) (p : Path) : OnDisk Failure Unit := Trouble.calm.save s p

@[simp] theorem isValidFor_new (signature : String) (locations : SortedMap Path Tree) :
    (new signature locations).isValidFor signature = true := by simp [isValidFor, new]

end Snapshot

end ModuleAtlas
