import ModuleAtlas.Tree.Basic

/-!
# Name spaces

A name space mounts trees under alias names.  An alias may have several segments; the segments
before the last one form directories that need no tree of their own, and a tree may be mounted below
another one.  Directories without a tree and without children do not stay.

## Main definitions

* `Dir` — a directory: the tree mounted there, and the directories below by their names.
* `Dir.at?`, `Dir.attach`, `Dir.detach` — looking up, mounting and removing at a list of segments.
* `Dir.bindings` — all mounted trees, in the order of their segments.
* `Namespace`, with `attach`, `detach`, `tree?`, `aliases` — the same for alias names.
-/

namespace ModuleAtlas

/-- A directory of a name space. -/
inductive Dir where
  /-- The tree mounted at a directory, if there is one, and the directories below it in name
  order. -/
  | mk (mount : Option Tree) (children : List (String × Dir))

namespace Dir

/-- The tree that is mounted here. -/
def mount : Dir → Option Tree
  | mk mount _ => mount

/-- The directories below, in the order of their names. -/
def children : Dir → List (String × Dir)
  | mk _ children => children

/-- The directory without a tree and without children. -/
def vacant : Dir := mk none []

instance : Inhabited Dir := ⟨vacant⟩

/-- Whether nothing is mounted here or below. -/
def isVacant (d : Dir) : Bool := d.mount.isNone && d.children.isEmpty

/-- The directory below by its name. -/
def child? (d : Dir) (name : String) : Option Dir := Ordered.lookup name d.children

/-- The directory reached by a list of segments. -/
def at? (d : Dir) (place : List String) : Option Dir := place.foldlM child? d

/-- The directory with `t` mounted at the given segments, in place of what was mounted there. -/
def attach (t : Tree) : List String → Dir → Dir
  | [], d => mk (some t) d.children
  | s :: rest, d =>
    mk d.mount (Ordered.bind s (attach t rest ((d.child? s).getD vacant)) d.children)

/-- The directory without the tree at the given segments, and without directories that this leaves
vacant. -/
def detach : List String → Dir → Dir
  | [], d => mk none d.children
  | s :: rest, d =>
    match d.child? s with
    | none => d
    | some below =>
      let remaining := detach rest below
      mk d.mount
        (if remaining.isVacant then Ordered.unbind s d.children
        else Ordered.bind s remaining d.children)

mutual

/-- The trees mounted below a directory at the given segments, each with its segments. -/
def bindings (place : List String) : Dir → List (List String × Tree)
  | mk _ children => bindingsOf place children

/-- The trees mounted at or below directories in the order of their names. -/
def bindingsOf (place : List String) : List (String × Dir) → List (List String × Tree)
  | [] => []
  | (s, d) :: rest =>
    let here := place ++ [s]
    d.mount.toList.map (here, ·) ++ d.bindings here ++ bindingsOf place rest

end

@[simp] theorem mount_mk (mount : Option Tree) (children : List (String × Dir)) :
    (mk mount children).mount = mount := rfl

@[simp] theorem children_mk (mount : Option Tree) (children : List (String × Dir)) :
    (mk mount children).children = children := rfl

@[simp] theorem at?_nil (d : Dir) : d.at? [] = some d := rfl

@[simp] theorem at?_cons (d : Dir) (s : String) (rest : List String) :
    d.at? (s :: rest) = (d.child? s).bind fun c => c.at? rest := by
  simp [at?, List.foldlM_cons]

@[simp] theorem bindings_vacant (place : List String) : vacant.bindings place = [] := by
  simp [vacant, bindings, bindingsOf]

end Dir

/-- A view of trees under alias names. -/
structure Namespace where
  /-- The directory above all aliases. -/
  root : Dir := .vacant

namespace Namespace

instance : EmptyCollection Namespace := ⟨{}⟩

instance : Inhabited Namespace := ⟨∅⟩

/-- Mounts `t` at an alias, in place of what was mounted there.  An alias needs a segment. -/
def attach (ns : Namespace) (name : String) (t : Tree) : Except Error Namespace :=
  if (segments name).isEmpty then .error (.configuration s!"Alias name '{name}' is empty")
  else .ok ⟨ns.root.attach t (segments name)⟩

/-- The tree mounted at an alias. -/
def tree? (ns : Namespace) (name : String) : Option Tree :=
  (ns.root.at? (segments name)).bind Dir.mount

/-- Removes what is mounted at an alias. -/
def detach (ns : Namespace) (name : String) : Namespace := ⟨ns.root.detach (segments name)⟩

/-- The mounted trees with the segments of their aliases, in the order of the segments. -/
def bindings (ns : Namespace) : List (List String × Tree) := ns.root.bindings []

/-- The aliases at which trees are mounted, in the order of their segments. -/
def aliases (ns : Namespace) : List String := ns.bindings.map fun b => joinSegments b.1

@[simp] theorem aliases_empty : (∅ : Namespace).aliases = [] := by
  simp [aliases, bindings, EmptyCollection.emptyCollection]

theorem attach_of_segments_eq_nil {name : String} (h : segments name = [])
    (ns : Namespace) (t : Tree) :
    ns.attach name t = .error (.configuration s!"Alias name '{name}' is empty") := by
  simp [attach, h]

end Namespace

end ModuleAtlas
