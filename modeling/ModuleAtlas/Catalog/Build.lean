import ModuleAtlas.Catalog.Basic
import ModuleAtlas.Scan.Basic

/-!
# Building a catalog

A build brings the tree of every location up to date and writes the record.  Its targets are the
configured locations and those that have a tree already.  A target without a tree is scanned, as is
every target of a clean build; one with a tree is scanned against that tree if the build validates,
and kept otherwise.  Every scan that succeeds is published, whatever becomes of the others.

## Main definitions

* `BuildOptions`, `Action` — what is asked for, and what is done with a location.
* `Catalog.targets`, `Catalog.action`, `Catalog.previous` — the plan.
* `Outcome`, `Catalog.scanTarget`, `Catalog.publishAll`, `Catalog.report` — the scans and what comes
  of them.
* `Catalog.build`, `Catalog.openWith` — a build, and a catalog that starts with one.
-/

namespace ModuleAtlas

/-- What a build is asked for. -/
structure BuildOptions where
  /-- Whether nothing recorded may be used. -/
  clean : Bool := false
  /-- Whether locations that have a tree are scanned against it. -/
  validate : Bool := false
  deriving DecidableEq, Repr

/-- What a build does with a location. -/
inductive Action where
  /-- The location is scanned, and nothing recorded is used. -/
  | scanned
  /-- The location is scanned against its tree. -/
  | validated
  /-- The tree is kept. -/
  | kept
  deriving DecidableEq, Repr

/-- What a build did with a location. -/
structure LocationReport where
  /-- The action. -/
  action : Action
  /-- What its scan counted; nothing if the tree was kept. -/
  stats : ScanStats := {}
  deriving DecidableEq, Repr

/-- What a build did. -/
structure BuildReport where
  /-- What it did with each location. -/
  locations : SortedMap Path LocationReport := ∅
  /-- Whether the record was written. -/
  persisted : Bool := false
  deriving DecidableEq

namespace BuildReport

/-- The number of files that were read. -/
def parsed (r : BuildReport) : Nat := r.locations.values.foldr (fun l sum => l.stats.parsed + sum) 0

/-- The number of files whose recorded data was kept. -/
def reused (r : BuildReport) : Nat := r.locations.values.foldr (fun l sum => l.stats.reused + sum) 0

end BuildReport

/-- What became of the scan of a location. -/
structure Outcome where
  /-- The location. -/
  location : Path
  /-- Whether it was scanned anew or validated. -/
  action : Action
  /-- The tree and the counts. -/
  result : Except Failure (Tree × ScanStats)

namespace Catalog

/-! ### The plan -/

/-- The locations of a build: those configured and those that have a tree. -/
def targets (c : Catalog) : List Path := (c.settings.locations.union (.ofList c.locations)).toList

/-- What a build does with a location. -/
def action (c : Catalog) (o : BuildOptions) (p : Path) : Action :=
  if o.clean || (c.location p).isNone then .scanned else if o.validate then .validated else .kept

/-- The tree that the scan of a location may use.  It is the one that the catalog has before the
build.  The program looks for it when it starts the scan, when the trees of other scans may be
published already; that makes a difference only between locations of which one is the normal form of
another, so not where all keys are in normal form. -/
def previous (c : Catalog) (o : BuildOptions) (p : Path) : Option Tree :=
  if c.action o p = .validated then c.location p else none

/-! ### The scans -/

/-- Scans a location as the plan says. -/
def scanTarget (c : Catalog) (o : BuildOptions) (d : Disk) (reader : SourceReader)
    (p : Path) : Outcome :=
  ⟨p, c.action o p,
    (d.scan p (c.previous o p) c.settings.extensions reader).mapError
      (·.within s!"Failed to scan location {p}")⟩

/-- The scans of a build. -/
def scans (c : Catalog) (o : BuildOptions) (d : Disk) (reader : SourceReader := amdReader) :
    List Outcome :=
  (c.targets.filter fun p => c.action o p ≠ .kept).map (c.scanTarget o d reader)

/-- The catalog with the tree of a scan that succeeded. -/
def publishOutcome (c : Catalog) (s : Outcome) : Catalog :=
  match s.result with
  | .ok (t, _) => c.put s.location t
  | .error _ => c

/-- The catalog with the trees of all scans that succeeded, in the order in which they come. -/
def publishAll (c : Catalog) (l : List Outcome) : Catalog := l.foldl publishOutcome c

/-- The failures of scans. -/
def failures (l : List Outcome) : List Failure :=
  l.filterMap fun s =>
    match s.result with
    | .ok _ => none
    | .error f => some f

/-- The failure of a build some of whose scans failed. -/
def failureOf (l : List Failure) : Failure :=
  .ofMessage (s!"Failed to build {l.length} locations:\n"
    ++ "\n".intercalate (l.map fun f => "  " ++ f.chain))

/-- The report on the locations that are kept. -/
def keptReport (c : Catalog) (o : BuildOptions) : SortedMap Path LocationReport :=
  .ofList ((c.targets.filter fun p => c.action o p = .kept).map fun p => (p, ⟨.kept, {}⟩))

/-- The report with a scan that succeeded. -/
def addOutcome (m : SortedMap Path LocationReport) (s : Outcome) : SortedMap Path LocationReport :=
  match s.result with
  | .ok (_, stats) => m.insert s.location ⟨s.action, stats⟩
  | .error _ => m

/-- The report on all locations, given the scans. -/
def report (c : Catalog) (o : BuildOptions) (l : List Outcome) : SortedMap Path LocationReport :=
  l.foldl addOutcome (c.keptReport o)

/-! ### The build -/

/-- A build whose scans have the given outcomes and publish in the order `published`: what it
returns, the catalog after it, and the disk after it. -/
def finish (c : Catalog) (o : BuildOptions) (outcomes published : List Outcome) (d : Disk) :
    Except Failure BuildReport × Catalog × Disk :=
  let after := c.publishAll published
  match failures outcomes with
  | [] =>
    match after.persist d with
    | (.ok persisted, d) => (.ok ⟨c.report o outcomes, persisted⟩, after, d)
    | (.error f, d) => (.error f, after, d)
  | l => (.error (failureOf l), after, d)

/-- Brings every location up to date and writes the record. -/
def build (c : Catalog) (o : BuildOptions) (d : Disk) (reader : SourceReader := amdReader) :
    Except Failure BuildReport × Catalog × Disk :=
  let outcomes := c.scans o d reader
  c.finish o outcomes outcomes d

/-- The catalog of the given settings after one build, which starts from the record unless it is
clean. -/
def openWith (settings : Settings) (o : BuildOptions) (d : Disk)
    (reader : SourceReader := amdReader) : Except Failure Catalog × Disk :=
  let loaded : OnDisk Failure Catalog :=
    if o.clean then pure { settings } else do return (← loadSnapshot { settings }).2
  match loaded d with
  | (.error f, d) => (.error f, d)
  | (.ok c, d) =>
    match c.build o d reader with
    | (.error f, _, d) => (.error f, d)
    | (.ok _, c, d) => (.ok c, d)

theorem action_clean (c : Catalog) {o : BuildOptions} (h : o.clean = true) (p : Path) :
    c.action o p = .scanned := by simp [action, h]

@[simp] theorem publishAll_nil (c : Catalog) : c.publishAll [] = c := rfl

@[simp] theorem failures_nil : failures [] = [] := rfl

end Catalog

end ModuleAtlas
