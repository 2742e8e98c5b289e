import ModuleAtlas.Tree.Basic

/-!
# Integrity of a tree

A table that was read from a file is checked link by link: there is a root without a parent, every
link leads to a node that knows its parent and bears the name of the link, no node is linked twice,
and in the end every node but the root is linked.

## Main definitions

* `Link`, `Tree.links` — the links from parents to children, in the order of the table.
* `Damage`, `Damage.error` — what can be wrong.
* `Tree.check` — the first damage, if there is any.
-/

namespace ModuleAtlas

/-- A link from a parent to a child. -/
structure Link where
  /-- The place of the parent. -/
  parent : Nat
  /-- The name of the child. -/
  name : String
  /-- The place of the child. -/
  child : Nat
  deriving DecidableEq, Repr

/-- What is wrong with a table. -/
inductive Damage where
  /-- The table is empty. -/
  | noRoot
  /-- The root has a parent. -/
  | rootHasParent
  /-- A link leads beyond the table. -/
  | outOfRange (name : String) (index : Nat)
  /-- A link leads to a node of another parent or another name. -/
  | unlinked (name : String)
  /-- Two links lead to one node, or a link leads to the root. -/
  | attachedTwice (name : String)
  /-- No link leads to some node. -/
  | unreachable
  deriving DecidableEq, Repr

/-- The text of a damage. -/
def Damage.reason : Damage → String
  | noRoot => "missing root node"
  | rootHasParent => "root node has a parent"
  | outOfRange name index => s!"child '{name}' index {index} out of range"
  | unlinked name => s!"child '{name}' is not linked to its parent"
  | attachedTwice name => s!"node '{name}' is attached twice"
  | unreachable => "unreachable nodes"

/-- The error for a damaged table. -/
def Damage.error (d : Damage) : Error := .other s!"Corrupt node tree: {d.reason}"

namespace Tree

/-- The links of the node `n` at place `id`. -/
def linksOf (n : Node) (id : Nat) : List Link := n.children.toList.map fun p => ⟨id, p.1, p.2⟩

/-- All links, in the order of the table and of the names. -/
def links (t : Tree) : List Link := t.nodes.toList.zipIdx.flatMap fun p => linksOf p.1 p.2

/-- Checks a link and marks the node that it leads to. -/
def follow (t : Tree) (marks : Array Bool) (l : Link) : Except Damage (Array Bool) :=
  match t.node? l.child with
  | none => .error (.outOfRange l.name l.child)
  | some n =>
    if n.parent ≠ some l.parent ∨ n.name ≠ l.name then .error (.unlinked l.name)
    else if marks[l.child]? = some true then .error (.attachedTwice l.name)
    else .ok (marks.setIfInBounds l.child true)

/-- Marks the nodes that links lead to, from marks to begin with. -/
def followAll (t : Tree) (marks : Array Bool) : List Link → Except Damage (Array Bool)
  | [] => .ok marks
  | l :: rest =>
    match t.follow marks l with
    | .error d => .error d
    | .ok marks => t.followAll marks rest

/-- Checks the links of a table. -/
def check (t : Tree) : Except Damage Unit :=
  match t.node? root with
  | none => .error .noRoot
  | some r =>
    if r.parent.isSome then .error .rootHasParent
    else
      match t.followAll ((Array.replicate t.size false).setIfInBounds root true) t.links with
      | .error d => .error d
      | .ok marks => if marks.all id then .ok () else .error .unreachable

/-- Whether nothing is wrong with the table. -/
def isIntact (t : Tree) : Bool := (t.check).isOk

@[simp] theorem check_new (name : String) : (new name).check = .ok () := by
  simp [check, new, node?, links, linksOf, followAll, size]

end Tree

end ModuleAtlas
