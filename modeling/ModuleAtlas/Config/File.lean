import ModuleAtlas.Config.Basic
import ModuleAtlas.Toml.Reader

/-!
# Configuration files

The four fields of a configuration file: two directories, a list of extensions and a table of paths.
The table is written under a header, inline, or by dotted keys, but in one of these ways only.
Nothing is assigned twice, and a file with anything else is refused.

## Main definitions

* `Draft` — the fields assigned so far.
* `Config.ofStatements`, `Config.read` — the configuration that statements or a text describe.
-/

namespace ModuleAtlas

/-- The table of paths while a file is read. -/
inductive PathTable where
  /-- Nothing is said about paths so far. -/
  | absent
  /-- The entries come one by one, by dotted keys. -/
  | dotted (entries : SortedMap String Path)
  /-- The table has a header and is the one that is open. -/
  | headed (entries : SortedMap String Path)
  /-- The table is complete. -/
  | closed (entries : SortedMap String Path)

/-- The fields of a configuration file that are assigned so far. -/
structure Draft where
  /-- The base directory. -/
  baseDir : Option Path := none
  /-- The cache directory. -/
  cacheDir : Option Path := none
  /-- The extensions. -/
  extensions : Option (List String) := none
  /-- The table of paths. -/
  paths : PathTable := .absent

namespace PathTable

/-- The entries of the table. -/
def entries : PathTable → SortedMap String Path
  | absent => ∅
  | dotted m => m
  | headed m => m
  | closed m => m

end PathTable

/-- The text of a value. -/
def Toml.Value.text? : Toml.Value → Option String
  | .text s => some s
  | _ => none

/-- The texts of an array. -/
def Toml.Value.texts? : Toml.Value → Option (List String)
  | .array l => l.mapM Toml.Value.text?
  | _ => none

namespace Draft

/-- The map with a new entry; refuses a key that is there. -/
def insertNew (m : SortedMap String Path) (k : String) (v : Toml.Value) :
    Option (SortedMap String Path) := do
  let s ← v.text?
  if m.contains k then none else some (m.insert k ⟨s⟩)

/-- The entries of an inline table of paths. -/
def inlinePaths : List (List String × Toml.Value) → Option (SortedMap String Path) :=
  List.foldlM (fun m e => match e with
    | ([k], v) => insertNew m k v
    | _ => none) ∅

/-- The draft after an assignment outside of the table of paths. -/
def assignField (d : Draft) (key : List String) (v : Toml.Value) : Option Draft :=
  match key with
  | ["base_dir"] =>
    if d.baseDir.isSome then none else v.text?.map fun s => { d with baseDir := some ⟨s⟩ }
  | ["cache_dir"] =>
    if d.cacheDir.isSome then none else v.text?.map fun s => { d with cacheDir := some ⟨s⟩ }
  | ["extensions"] =>
    if d.extensions.isSome then none else v.texts?.map fun l => { d with extensions := some l }
  | ["paths"] =>
    match d.paths, v with
    | .absent, .table entries => (inlinePaths entries).map fun m => { d with paths := .closed m }
    | _, _ => none
  | ["paths", name] =>
    match d.paths with
    | .absent => (insertNew ∅ name v).map fun m => { d with paths := .dotted m }
    | .dotted m => (insertNew m name v).map fun m => { d with paths := .dotted m }
    | _ => none
  | _ => none

/-- The draft after a statement. -/
def step (d : Draft) : Toml.Statement → Option Draft
  | .element _ => none
  | .header key =>
    match key, d.paths with
    | ["paths"], .absent => some { d with paths := .headed ∅ }
    | _, _ => none
  | .assign key v =>
    match d.paths, key with
    | .headed m, [name] => (insertNew m name v).map fun m => { d with paths := .headed m }
    | .headed _, _ => none
    | _, key => d.assignField key v

end Draft

namespace Config

/-- The configuration that statements describe. -/
def ofStatements (l : List Toml.Statement) : Option Config :=
  (l.foldlM Draft.step {}).map fun d =>
    { baseDir := d.baseDir, cacheDir := d.cacheDir, extensions := d.extensions.getD ["js"],
      paths := d.paths.entries }

/-- The configuration that the text of a file describes. -/
def read (text : String) : Option Config := (Toml.parse text).bind ofStatements

@[simp] theorem ofStatements_nil : ofStatements [] = some {} := rfl

end Config

end ModuleAtlas
