import ModuleAtlas.Deps
import ModuleAtlas.Error
import ModuleAtlas.Millis
import ModuleAtlas.ModuleId
import ModuleAtlas.SortedMap

/-!
# Trees of modules

The modules of a location form a tree of names, kept as a table of nodes.  A node is known by its
place in the table, the root is the node at place 0, and a new node goes to the end, so places never
change their meaning.  Every node knows its children by name and its parent.  A node that has a time
of modification is backed by a source file; any other node is a directory.

## Main definitions

* `Node`, `Tree` — the table and its rows.
* `Tree.child?`, `Tree.get?` — descending from a node by names.
* `Tree.addChild`, `Tree.ensurePath`, `Tree.setDeps` — the ways to change a tree.
-/

namespace ModuleAtlas

/-- A segment of the name space of a location. -/
structure Node where
  /-- The segment. -/
  name : String
  /-- The place of the parent; the root has none. -/
  parent : Option Nat := none
  /-- The places of the children, by their names. -/
  children : SortedMap String Nat := ∅
  /-- What the source file declares. -/
  deps : Deps := {}
  /-- The time of the source file, if there is one. -/
  modified : Option Millis := none
  /-- The time of the file when it was first seen with these dependencies. -/
  depsModified : Option Millis := none
  deriving DecidableEq

/-- Whether a source file backs the node. -/
def Node.isFile (n : Node) : Bool := n.modified.isSome

/-- A table of nodes. -/
structure Tree where
  /-- The rows of the table. -/
  nodes : Array Node
  deriving DecidableEq

namespace Tree

/-- The place of the root. -/
abbrev root : Nat := 0

/-- The tree of a root without children. -/
def new (name : String) : Tree := ⟨#[{ name }]⟩

/-- The number of nodes. -/
def size (t : Tree) : Nat := t.nodes.size

/-- The node at a place. -/
def node? (t : Tree) (id : Nat) : Option Node := t.nodes[id]?

/-- The node at a place that a link leads to; a place beyond the table is a fault of the link. -/
def node (t : Tree) (id : Nat) : Except Fault Node :=
  match t.node? id with
  | some n => .ok n
  | none => .error (.outOfRange t.size id)

/-! ### Descending -/

/-- The child of a node by its name. -/
def child? (t : Tree) (id : Nat) (name : String) : Option Nat :=
  (t.node? id).bind fun n => n.children.find? name

/-- The node reached from `id` by the given names. -/
def descend? (t : Tree) (id : Nat) (names : List String) : Option Nat := names.foldlM t.child? id

/-- The node reached from `id` by the segments of a path.  A path without segments leads nowhere
else, even from a place beyond the table. -/
def get? (t : Tree) (id : Nat) (path : String) : Option Nat := t.descend? id (segments path)

/-! ### Changes -/

/-- The error for a place beyond the table. -/
def notFound (id : Nat) : Error := .nodeNotFound s!"#{id}"

/-- The tree with `n` in place of the node at `id`. -/
def withNode (t : Tree) (id : Nat) (n : Node) : Tree := ⟨t.nodes.setIfInBounds id n⟩

/-- The tree with a new row that no node has for a child yet. -/
def append (t : Tree) (n : Node) : Tree := ⟨t.nodes.push n⟩

/-- Adds a directory without children below `parent`, and returns its place. -/
def addChild (t : Tree) (parent : Nat) (name : String) : Except Error (Tree × Nat) :=
  match t.node? parent with
  | none => .error (notFound parent)
  | some p =>
    if p.children.contains name then .error (.duplicateName p.name name)
    else
      let linked := { p with children := p.children.insert name t.size }
      .ok ((t.withNode parent linked).append { name, parent := some parent }, t.size)

/-- Descends from `id` by the given names, adding the directories that are not there yet. -/
def ensurePath (t : Tree) (id : Nat) : List String → Except Error (Tree × Nat)
  | [] => .ok (t, id)
  | name :: names =>
    match t.child? id name with
    | some c => t.ensurePath c names
    | none =>
      match t.addChild id name with
      | .error e => .error e
      | .ok (u, c) => u.ensurePath c names

/-- Records the dependencies and both times of a node. -/
def setDeps (t : Tree) (id : Nat) (deps : Deps) (modified depsModified : Millis) :
    Except Error Tree :=
  match t.node? id with
  | none => .error (notFound id)
  | some n =>
    .ok (t.withNode id
      { n with deps, modified := some modified, depsModified := some depsModified })

/-! ### Counts -/

/-- The number of nodes that source files back. -/
def fileCount (t : Tree) : Nat := t.nodes.countP Node.isFile

/-! ### How changes show in the table -/

@[simp] theorem size_new (name : String) : (new name).size = 1 := rfl

@[simp] theorem size_withNode (t : Tree) (id : Nat) (n : Node) :
    (t.withNode id n).size = t.size := by
  simp [withNode, size]

@[simp] theorem size_append (t : Tree) (n : Node) : (t.append n).size = t.size + 1 := by
  simp [append, size]

theorem node?_withNode (t : Tree) (id : Nat) (n : Node) (i : Nat) :
    (t.withNode id n).node? i = if id = i then (t.node? i).map fun _ => n else t.node? i := by
  by_cases h : id = i
  · subst h
    by_cases hi : id < t.nodes.size <;> simp [withNode, node?, hi]
  · simp [withNode, node?, Array.getElem?_setIfInBounds_ne h, h]

theorem node?_append (t : Tree) (n : Node) (i : Nat) :
    (t.append n).node? i = if i = t.size then some n else t.node? i :=
  Array.getElem?_push

@[simp] theorem get?_of_segments_eq_nil {path : String} (h : segments path = [])
    (t : Tree) (id : Nat) : t.get? id path = some id := by simp [get?, h, descend?]

end Tree

end ModuleAtlas
