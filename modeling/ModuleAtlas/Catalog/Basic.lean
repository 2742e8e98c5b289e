import ModuleAtlas.Catalog.Settings
import ModuleAtlas.Namespace.Basic
import ModuleAtlas.Snapshot

/-!
# Catalogs

A catalog holds the tree of every location that it knows.  It takes over the record of an earlier
run if that was written under the same signature, trees can be published and edited one location at
a time, and a name space is filled with the trees that aliases stand for.

## Main definitions

* `Catalog` — the settings and the trees.
* `Catalog.location`, `Catalog.locations`, `Catalog.publish`, `Catalog.update` — one location at a
  time.
* `Catalog.snapshot`, `Catalog.loadSnapshot`, `Catalog.persist` — the record.
* `Catalog.mapAliases` — filling a name space.
-/

namespace ModuleAtlas

/-- The trees of the locations. -/
structure Catalog where
  /-- What the catalog scans and where its record is kept. -/
  settings : Settings
  /-- The tree of each location. -/
  trees : SortedMap Path Tree := ∅
  deriving DecidableEq

namespace Catalog

/-! ### Locations -/

/-- The tree of a location, which may be spelt in any way. -/
def location (c : Catalog) (p : Path) : Option Tree := c.trees.find? p.normal

/-- The locations that have a tree, in order. -/
def locations (c : Catalog) : List Path := c.trees.keys

/-- The catalog with a tree for a location as it is spelt. -/
def put (c : Catalog) (p : Path) (t : Tree) : Catalog := { c with trees := c.trees.insert p t }

/-- The catalog with a tree for a location. -/
def publish (c : Catalog) (p : Path) (t : Tree) : Catalog := c.put p.normal t

/-- Edits the tree of a location, if it has one.  The edit tells a result beside the changed
tree. -/
def update {α : Type} (c : Catalog) (p : Path) (edit : Tree → α × Tree) : Option α × Catalog :=
  match c.location p with
  | none => (none, c)
  | some t => (some (edit t).1, c.publish p (edit t).2)

/-! ### The record -/

/-- The record of the catalog. -/
def snapshot (c : Catalog) : Snapshot := .new c.settings.signature c.trees

/-- The catalog with the trees of a record, if that counts under the signature of the catalog. -/
def adopt (c : Catalog) (s : Option Snapshot) : Option Catalog :=
  (s.filter fun s => s.isValidFor c.settings.signature).map fun s => { c with trees := s.locations }

/-- Takes over the record of an earlier run if there is one that counts, and tells whether there
was. -/
def loadSnapshot (c : Catalog) : OnDisk Failure (Bool × Catalog) :=
  match c.settings.snapshot with
  | none => pure (false, c)
  | some p => do
    match c.adopt (← Snapshot.load p) with
    | none => return (false, c)
    | some adopted => return (true, adopted)

/-- Writes the record, and tells whether there is a file for it. -/
def persist (c : Catalog) : OnDisk Failure Bool :=
  match c.settings.snapshot with
  | none => pure false
  | some p => do
    c.snapshot.save p
    return true

/-! ### Name spaces -/

/-- Mounts trees at aliases, in order, and stops at the first error, which it returns with what was
mounted before.  An alias whose location has no tree is an error if `strict` is set, and left out
otherwise. -/
def mapAliases (c : Catalog) (strict : Bool) : Namespace → List (String × Path) →
    Option Error × Namespace
  | ns, [] => (none, ns)
  | ns, (name, p) :: rest =>
    match c.location p with
    | some t =>
      match ns.attach name t with
      | .error e => (some e, ns)
      | .ok ns => c.mapAliases strict ns rest
    | none => if strict then (some (.missingAlias name p.text), ns) else c.mapAliases strict ns rest

@[simp] theorem settings_put (c : Catalog) (p : Path) (t : Tree) :
    (c.put p t).settings = c.settings := rfl

@[simp] theorem mapAliases_nil (c : Catalog) (strict : Bool) (ns : Namespace) :
    c.mapAliases strict ns [] = (none, ns) := rfl

@[simp] theorem adopt_none (c : Catalog) : c.adopt none = none := rfl

end Catalog

end ModuleAtlas
