import ModuleAtlas.Namespace.Basic
import ModuleAtlas.Tree.Walk

/-!
# Positions in a name space

A position combines a directory of aliases with a node of a mounted tree, either of which may be
missing.  A step to a child follows both: a tree mounted in the child directory goes before the
node's own child.  A child that is no directory bears the name that its node tells.

## Main definitions

* `Place` — a node of a tree.
* `View`, `View.child`, `View.descend` — positions and the steps between them.
* `View.childNames`, `View.children` — what lies below a position.
* `Namespace.view`, `Namespace.resolve` — the position at the top, and that of a module id.
-/

namespace ModuleAtlas

/-- A node of a tree. -/
structure Place where
  /-- The tree. -/
  tree : Tree
  /-- The place of the node in it. -/
  id : Nat

namespace Place

/-- The row of the node. -/
def node (p : Place) : Except Fault Node := p.tree.node p.id

/-- The child by its name. -/
def child? (p : Place) (name : String) : Option Place := (p.tree.child? p.id name).map (⟨p.tree, ·⟩)

end Place

/-- A position in a name space. -/
structure View where
  /-- The segment that leads here; nothing at the top. -/
  name : String
  /-- The directory of aliases, if aliases lead here. -/
  dir : Option Dir
  /-- The node, if one of a mounted tree is found here. -/
  place : Option Place

namespace View

/-- The directory of aliases below by its name. -/
def dirBelow (v : View) (name : String) : Option Dir := v.dir.bind fun d => d.child? name

/-- The node below by its name: the root of a tree mounted there, or else the child of the node
here. -/
def placeBelow (v : View) (name : String) : Option Place :=
  match (v.dirBelow name).bind Dir.mount with
  | some tree => some ⟨tree, Tree.root⟩
  | none => v.place.bind fun p => p.child? name

/-- The child by its name, if there is one. -/
def child (v : View) (name : String) : Except Fault (Option View) :=
  match v.dirBelow name, v.placeBelow name with
  | none, none => .ok none
  | some d, place => .ok (some ⟨name, some d, place⟩)
  | none, some p => p.node.map fun n => some ⟨n.name, none, some p⟩

/-- The position reached by a list of segments, if there is one. -/
def descend (v : View) : List String → Except Fault (Option View)
  | [] => .ok (some v)
  | s :: rest =>
    match v.child s with
    | .error f => .error f
    | .ok none => .ok none
    | .ok (some c) => c.descend rest

/-- The row of the node, if there is a node. -/
def node? (v : View) : Except Fault (Option Node) :=
  match v.place with
  | none => .ok none
  | some p => p.node.map some

/-- The names of the children, of directories and of nodes. -/
def childNames (v : View) : Except Fault (SortedSet String) :=
  let aliases := (v.dir.map fun d => d.children.map (·.1)).getD []
  v.node?.map fun n => .ofList (aliases ++ (n.map fun n => n.children.keys).getD [])

/-- The children, in the order of their names. -/
def children (v : View) : Except Fault (List View) := do
  let names ← v.childNames
  let found ← names.toList.mapM v.child
  return found.filterMap id

/-- What the module here declares; nothing where there is no node. -/
def deps (v : View) : Except Fault Deps := v.node?.map fun n => (n.map Node.deps).getD {}

/-- The time of the source file, if there is one. -/
def modified (v : View) : Except Fault (Option Millis) := v.node?.map fun n => n.bind Node.modified

/-- The time of the source file when these dependencies were first seen. -/
def depsModified (v : View) : Except Fault (Option Millis) :=
  v.node?.map fun n => n.bind Node.depsModified

/-- Whether a source file is found here. -/
def isFile (v : View) : Except Fault Bool := v.node?.map fun n => n.any Node.isFile

@[simp] theorem descend_nil (v : View) : v.descend [] = .ok (some v) := rfl

theorem descend_cons_of_child {v c : View} {s : String} (h : v.child s = .ok (some c))
    (rest : List String) : v.descend (s :: rest) = c.descend rest := by simp [descend, h]

end View

namespace Namespace

/-- The position at the top. -/
def view (ns : Namespace) : View := ⟨"", some ns.root, none⟩

/-- The position of a module id, if there is one. -/
def resolve (ns : Namespace) (id : String) : Except Fault (Option View) :=
  ns.view.descend (segments id)

theorem resolve_of_segments_eq_nil {id : String} (h : segments id = []) (ns : Namespace) :
    ns.resolve id = .ok (some ns.view) := by simp [resolve, h]

end Namespace

end ModuleAtlas
