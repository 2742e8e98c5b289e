import ModuleAtlas.Error
import ModuleAtlas.ModuleId
import ModuleAtlas.Path.Normal
import ModuleAtlas.SortedMap

/-!
# Path configurations

A configuration names the locations to scan by aliases.  Locations are relative to a base directory,
which is itself relative to the place of the configuration file.

## Main definitions

* `Config` — the configuration as written.
* `Config.validate` — the configuration with its extensions in normal form, or what is wrong with
  it.
* `Config.base`, `Config.aliases`, `Config.locations` — the places that it stands for.
-/

namespace ModuleAtlas

/-- A path configuration. -/
structure Config where
  /-- The directory to which the locations are relative. -/
  baseDir : Option Path := none
  /-- The directory that keeps the record of the dependency data. -/
  cacheDir : Option Path := none
  /-- The extensions of source files, with or without their dots. -/
  extensions : List String := ["js"]
  /-- The locations by their aliases. -/
  paths : SortedMap String Path := ∅
  /-- The directory of the configuration file. -/
  origin : Option Path := none
  deriving DecidableEq

namespace Config

/-- The configuration of a directory without a file. -/
def inDir (dir : Path) : Config := { origin := some dir }

/-- The configuration in which `name` stands for `location`. -/
def withPath (c : Config) (name : String) (location : Path) : Config :=
  { c with paths := c.paths.insert name location }

/-! ### Validation -/

/-- What is wrong with an alias, if anything. -/
def aliasProblem (name : String) (location : Path) : Option Error :=
  if segments name = [] then some (.configuration s!"Alias '{name}' has no name segments")
  else if location.text = "" then some (.configuration s!"Alias '{name}' has an empty location")
  else none

/-- An extension without its leading dots. -/
def trimDots (extension : String) : String := String.ofList (extension.toList.dropWhile (· = '.'))

/-- The extensions without leading dots, each once, or what is wrong with them. -/
def cleanExtensions (l : List String) : Except Error (List String) :=
  let trimmed := l.map trimDots
  if trimmed.contains "" then .error (.configuration "Empty entry in extensions")
  else
    match trimmed with
    | [] => .error (.configuration "At least one source extension is required")
    | l => .ok (l.foldl (fun kept e => if kept.contains e then kept else kept ++ [e]) [])

/-- The configuration with its extensions cleaned, or the first thing that is wrong with it. -/
def validate (c : Config) : Except Error Config :=
  match c.paths.toList.findSome? fun p => aliasProblem p.1 p.2 with
  | some e => .error e
  | none => (cleanExtensions c.extensions).map fun extensions => { c with extensions }

/-! ### Places -/

/-- The directory to which the locations are relative, in normal form. -/
def base (c : Config) : Path :=
  let origin := c.origin.getD ⟨"."⟩
  match c.baseDir with
  | some dir => (origin.join dir).normal
  | none => origin.normal

/-- The locations by their aliases, in normal form. -/
def aliases (c : Config) : SortedMap String Path :=
  c.paths.mapValues fun _ location => (c.base.join location).normal

/-- The distinct locations. -/
def locations (c : Config) : SortedSet Path := .ofList c.aliases.values

@[simp] theorem origin_inDir (dir : Path) : (inDir dir).origin = some dir := rfl

@[simp] theorem paths_withPath (c : Config) (name : String) (location : Path) :
    (c.withPath name location).paths = c.paths.insert name location := rfl

theorem keys_aliases (c : Config) : c.aliases.keys = c.paths.keys := by
  simp [aliases, SortedMap.keys, SortedMap.mapValues]

end Config

end ModuleAtlas
