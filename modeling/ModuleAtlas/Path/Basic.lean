import ModuleAtlas.Text.Split

/-!
# Paths

A path is kept as it is spelt.  What it denotes are its components: the root if it starts with a
slash, a leading `.`, each `..`, and names; repeated slashes, later `.` and a slash at the end add
nothing.  Paths are compared component by component, the root before `.` before `..` before names,
so that two spellings with the same components are one key of a map.

## Main definitions

* `Component`, `Path`, `Path.components` — paths and what they denote.
* `Path.join`, `Path.parent`, `Path.fileName`, `Path.withFileName` — the spelling of related paths.
* `Path.displayName` — the name of the place.
-/

namespace ModuleAtlas

/-- A component of a path. -/
inductive Component where
  /-- The root directory. -/
  | root
  /-- The directory itself. -/
  | current
  /-- The directory above. -/
  | parent
  /-- An entry of a directory. -/
  | name (s : String)
  deriving DecidableEq, Repr

/-- A path as it is spelt. -/
structure Path where
  /-- The spelling. -/
  text : String
  deriving DecidableEq, Repr, Inhabited

namespace Component

/-- The spelling of a component. -/
def text : Component → String
  | root => "/"
  | current => "."
  | parent => ".."
  | name s => s

/-- The place of a component among those of other kinds. -/
def rank : Component → Nat
  | root => 0
  | current => 1
  | parent => 2
  | name _ => 3

/-- The spelling of a name, which tells names apart; nothing for components of another kind. -/
def label : Component → String
  | name s => s
  | _ => ""

/-- The order of components: by kind, and names by their characters. -/
instance : Ord Component := ⟨compareLex (compareOn rank) (compareOn label)⟩

instance : Std.TransOrd Component :=
  inferInstanceAs (Std.TransCmp (compareLex (compareOn rank) (compareOn label)))

instance : Std.LawfulEqOrd Component where
  eq_of_compare {a b} h := by
    have h : compareLex (compareOn rank) (compareOn label) a b = .eq := h
    simp only [compareLex, compareOn, Ordering.then_eq_eq, Std.LawfulEqOrd.compare_eq_iff_eq] at h
    cases a <;> cases b <;> simp_all [rank, label]

end Component

namespace Path

/-- Whether a path starts at the root. -/
def isAbsolute (p : Path) : Bool := "/".isPrefixOf p.text

/-- The pieces between the slashes of a path. -/
def pieces (p : Path) : List String := Text.splitAt '/' p.text

/-- The component that a piece denotes, except at the start of a path. -/
def pieceComponent? (s : String) : Option Component :=
  if s = "" || s = "." then none else if s = ".." then some .parent else some (.name s)

/-- The components that the first piece denotes; `more` tells whether a slash follows it. -/
def headComponents (s : String) (more : Bool) : List Component :=
  if s = "" then (if more then [.root] else [])
  else if s = "." then [.current]
  else (pieceComponent? s).toList

/-- The components of a path. -/
def components (p : Path) : List Component :=
  match p.pieces with
  | [] => []
  | s :: rest => headComponents s (!rest.isEmpty) ++ rest.filterMap pieceComponent?

/-- The order of paths: component by component. -/
instance : Ord Path := ⟨compareOn components⟩

instance : Std.TransOrd Path := inferInstanceAs (Std.TransCmp (compareOn components))

/-- The path `q` as seen from the directory `p`. -/
def join (p q : Path) : Path :=
  if q.isAbsolute then q
  else if p.text = "" || p.text.toList.getLast? = some '/' then ⟨p.text ++ q.text⟩
  else ⟨p.text ++ "/" ++ q.text⟩

/-- The path spelt by components one after the other. -/
def ofComponents (l : List Component) : Path := l.foldl (fun p c => p.join ⟨c.text⟩) ⟨""⟩

/-- The last component, if it is a name. -/
def fileName (p : Path) : Option String :=
  match p.components.getLast? with
  | some (.name s) => some s
  | _ => none

/-- Pieces without those at the end that denote nothing. -/
def trimPieces (l : List String) : List String :=
  (l.reverse.dropWhile fun s => (pieceComponent? s).isNone).reverse

/-- The path that the first piece and later pieces spell. -/
def ofPieces : String → List String → Path
  | "", [] => ⟨"/"⟩
  | s, rest => ⟨"/".intercalate (s :: rest)⟩

/-- The path without its last component, unless it has none or that is the root. -/
def parent (p : Path) : Option Path :=
  match p.pieces with
  | [] => none
  | s :: rest =>
    match (trimPieces rest).reverse with
    | _ :: before => some (ofPieces s (trimPieces before.reverse))
    | [] => if s = "" then none else some ⟨""⟩

/-- The path with its last component replaced by `name`, or with `name` added if the last component
is no name. -/
def withFileName (p : Path) (name : String) : Path :=
  if p.fileName.isSome then (p.parent.getD p).join ⟨name⟩ else p.join ⟨name⟩

/-- The name of the place: the last component if it is a name, and the whole spelling otherwise. -/
def displayName (p : Path) : String := p.fileName.getD p.text

instance : ToString Path := ⟨Path.text⟩

theorem join_of_isAbsolute {q : Path} (h : q.isAbsolute = true) (p : Path) : p.join q = q := by
  simp [join, h]

@[simp] theorem ofComponents_nil : ofComponents [] = ⟨""⟩ := rfl

end Path

end ModuleAtlas
