import ModuleAtlas.Catalog.Build
import ModuleAtlas.Text.Column

/-!
# The report of a build as text

Two lines for each location: what was done with it and how many modules it has, and what the scan
counted.  The second line is left out for a location that was kept.

## Main definitions

* `BuildReport.lines` — the lines.
-/

namespace ModuleAtlas

/-- The word for what a build does with a location. -/
def Action.word : Action → String
  | .scanned => "scanned"
  | .validated => "validated"
  | .kept => "kept"

/-- What a scan counted, in words. -/
def ScanStats.words (s : ScanStats) : String :=
  s!"{s.parsed} parsed, {s.reused} reused" ++
    (if s.failed = 0 then "" else s!", {s.failed} unreadable")

/-- The lines on a location that has the given number of modules. -/
def LocationReport.lines (r : LocationReport) (location : Path) (modules : Nat) : List String :=
  let first := Text.rightColumn 10 r.action.word
  let second := Text.rightColumn 10 ""
  s!"{first} {location} ({modules} modules)"
    :: (if r.action = .kept then [] else [s!"{second} {r.stats.words}"])

/-- The lines on a build of the given catalog. -/
def BuildReport.lines (r : BuildReport) (c : Catalog) : List String :=
  (r.locations.toList.flatMap fun p => p.2.lines p.1 (((c.location p.1).map Tree.fileCount).getD 0))
    ++ (if r.persisted then ["✓ snapshot written"] else [])

end ModuleAtlas
