import ModuleAtlas.Path.Normal
import ModuleAtlas.SortedMap

/-!
# Settings of a catalog

What a catalog scans, under which signature its record counts, where the record is kept and which
extensions source files have.  Locations are kept in normal form.

## Main definitions

* `Settings`, `Settings.ofLocations` — the settings, and those for given locations.
-/

namespace ModuleAtlas

/-- The settings of a catalog. -/
structure Settings where
  /-- The locations to scan. -/
  locations : SortedSet Path := ∅
  /-- The signature of the configuration; a record under another one is not used. -/
  signature : String
  /-- The file that keeps the record, if there is one. -/
  snapshot : Option Path := none
  /-- The extensions of source files, without their dots. -/
  extensions : List String := ["js"]
  deriving DecidableEq

/-- The settings for the given locations, without a record and with the usual extension. -/
def Settings.ofLocations (locations : List Path) (signature : String) : Settings :=
  { locations := .ofList (locations.map Path.normal), signature }

@[simp] theorem Settings.signature_ofLocations (locations : List Path) (signature : String) :
    (Settings.ofLocations locations signature).signature = signature := rfl

end ModuleAtlas
