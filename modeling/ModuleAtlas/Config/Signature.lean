import ModuleAtlas.Catalog.Settings
import ModuleAtlas.Config.Basic
import ModuleAtlas.Digest.Sha256
import ModuleAtlas.Json.Basic

/-!
# Signatures of configurations

The signature of a configuration is a digest of its aliases with their locations and of its
extensions in sorted order.  The record of the dependency data goes to the cache directory of the
configuration, or to one of the user's cache directories that is named by a digest of the base
directory.

## Main definitions

* `Config.signatureText`, `Config.signature` — the text that is hashed, and the signature.
* `Config.cachePlace`, `Config.snapshotPlace` — where the record is kept.
* `Config.settings` — the settings of the catalog.
-/

namespace ModuleAtlas

/-- The bytes of a text. -/
def textBytes (s : String) : List UInt8 := s.toUTF8.toList

/-- The name of the file that keeps the record. -/
def snapshotFile : String := "depmap.json"

namespace Config

/-- The text whose digest is the signature. -/
def signatureText (c : Config) : String :=
  let extensions := c.extensions.mergeSort fun a b => a ≤ b
  Json.compact (.obj
    [("extensions", .strings extensions),
     ("paths", .obj (c.aliases.toList.map fun p => (p.1, .str p.2.text)))])

/-- The signature of a configuration. -/
def signature (c : Config) : String := "sha256:" ++ hex (sha256 (textBytes c.signatureText))

/-- The name of the cache directory of a project. -/
def projectName (c : Config) : String := hex ((sha256 (textBytes c.base.text)).take 8)

/-- The directory that keeps the record, given the cache directory of the user. -/
def cachePlace (c : Config) (userCache : Option Path) : Except Failure Path :=
  match c.cacheDir, userCache with
  | some dir, _ => .ok (c.base.join dir).normal
  | none, some cache => .ok ((cache.join ⟨"modgraph"⟩).join ⟨c.projectName⟩)
  | none, none => .error (.ofMessage "Unable to determine user cache directory")

/-- The file that keeps the record. -/
def snapshotPlace (c : Config) (userCache : Option Path) : Except Failure Path :=
  (c.cachePlace userCache).map fun dir => dir.join ⟨snapshotFile⟩

/-- The settings of the catalog of a configuration. -/
def settings (c : Config) (userCache : Option Path) : Except Failure Settings :=
  (c.snapshotPlace userCache).map fun place =>
    { Settings.ofLocations c.locations.toList c.signature with
      snapshot := some place, extensions := c.extensions }

end Config

end ModuleAtlas
