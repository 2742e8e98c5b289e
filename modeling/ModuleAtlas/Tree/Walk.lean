import ModuleAtlas.Tree.Basic

/-!
# Walks of a tree

The path of a node is read by climbing to the root, and all nodes are listed from the root
downwards.  A table may come from a file and hold any links, so each walk ends with a fault where a
link leads beyond the table, and where more links are followed than there are nodes.

## Main definitions

* `Tree.climb`, `Tree.pathOf` — the names from the root down to a node, and the path they form.
* `Tree.below`, `Tree.preorder` — the nodes below a place, each before its children.
* `Tree.childNames` — the names of the children of a node, as the children themselves tell them.
-/

namespace ModuleAtlas.Tree

/-- The names from the root down to a node, which `steps` links upwards have to reach.  The root's
own name is no part of them. -/
def climb (t : Tree) : Nat → Nat → Except Fault (List String)
  | 0, _ => .error .endless
  | steps + 1, id =>
    match t.node? id with
    | none => .ok []
    | some n =>
      match n.parent with
      | none => .ok []
      | some p =>
        match t.climb steps p with
        | .error f => .error f
        | .ok names => .ok (names ++ [n.name])

/-- The path of a node from the root. -/
def pathOf (t : Tree) (id : Nat) : Except Fault String := (t.climb (t.size + 1) id).map joinSegments

/-- The node at a place and all nodes below it, each before its children and children in the order
of their names; `depth` bounds the levels. -/
def below (t : Tree) : Nat → Nat → Except Fault (List Nat)
  | 0, _ => .error .endless
  | depth + 1, id =>
    match t.node id with
    | .error f => .error f
    | .ok n => (n.children.values.mapM (t.below depth)).map fun l => id :: l.flatten

/-- All nodes that links from the root reach, each before its children. -/
def preorder (t : Tree) : Except Fault (List Nat) := t.below (t.size + 1) root

/-- The names of the children of a node, as the children themselves tell them. -/
def childNames (t : Tree) (n : Node) : Except Fault (List String) :=
  n.children.values.mapM fun c => (t.node c).map Node.name

@[simp] theorem pathOf_new (name : String) (id : Nat) : (new name).pathOf id = .ok "" := by
  have h : (new name).climb 2 id = .ok [] := by
    rcases id with _ | id <;> simp [climb, node?, new]
  simp [pathOf, h, Except.map, joinSegments]

end ModuleAtlas.Tree
