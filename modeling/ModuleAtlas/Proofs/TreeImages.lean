import ModuleAtlas.Proofs.TreeLinks

/-!
# Images of trees

Nodes can be changed in what they record, each by itself, with all names and links left as they are.
The ways down such an image are those of the tree, and descending with additions and recording do to
the image what they do to the tree.  So what an image leaves out of the records has no influence on
the rest.

## Main definitions

* `Node.KeepsLinks` — a change of nodes that leaves names and links as they are.
* `Tree.mapNodes` — the image of a tree.
* `Tree.frame` — the tree without dependencies and their times.

## Main results

* `Tree.ensurePath_mapNodes` — descending with additions in an image.
* `Tree.exists_ensurePath_of_mapNodes_eq`, `Tree.exists_setDeps_of_mapNodes_eq` — **trees with one
  image are changed into trees with one image.**
-/

namespace ModuleAtlas

/-- A change of nodes that leaves names and links as they are, and new directories as well. -/
structure Node.KeepsLinks (f : Node → Node) : Prop where
  /-- The name stays. -/
  name : ∀ n, (f n).name = n.name
  /-- The links stay. -/
  children : ∀ n, (f n).children = n.children
  /-- It does not depend on the links. -/
  link : ∀ n children, f { n with children } = { f n with children }
  /-- New directories stay. -/
  fresh : ∀ name parent, f { name, parent } = { name, parent }

namespace Tree

/-- The tree with each of its nodes changed. -/
def mapNodes (f : Node → Node) (t : Tree) : Tree := ⟨t.nodes.map f⟩

variable {f : Node → Node}

theorem size_mapNodes (f : Node → Node) (t : Tree) : (t.mapNodes f).size = t.size := Array.size_map

theorem node?_mapNodes (f : Node → Node) (t : Tree) (i : Nat) :
    (t.mapNodes f).node? i = (t.node? i).map f :=
  Array.getElem?_map

theorem mapNodes_withNode (f : Node → Node) (t : Tree) (i : Nat) (n : Node) :
    (t.withNode i n).mapNodes f = (t.mapNodes f).withNode i (f n) := by
  rw [withNode, mapNodes, Array.map_setIfInBounds]
  rfl

theorem mapNodes_append (f : Node → Node) (t : Tree) (n : Node) :
    (t.append n).mapNodes f = (t.mapNodes f).append (f n) := by
  rw [append, mapNodes, Array.map_push]
  rfl

/-- Nodes at one place of trees with one image have one image. -/
theorem map_node?_of_mapNodes_eq {t u : Tree} (h : t.mapNodes f = u.mapNodes f) (i : Nat) :
    (t.node? i).map f = (u.node? i).map f := by rw [← node?_mapNodes, h, node?_mapNodes]

section

variable (hf : Node.KeepsLinks f)

include hf

theorem child?_mapNodes (t : Tree) (i : Nat) (s : String) :
    (t.mapNodes f).child? i s = t.child? i s := by
  rw [child?, node?_mapNodes, child?]
  cases t.node? i with
  | none => rfl
  | some n =>
    show (f n).children.find? s = n.children.find? s
    rw [hf.children]

theorem descend?_mapNodes (t : Tree) (i : Nat) (path : List String) :
    (t.mapNodes f).descend? i path = t.descend? i path := by
  have hchild : (t.mapNodes f).child? = t.child? := by
    funext j s
    exact child?_mapNodes hf t j s
  rw [descend?, hchild, descend?]

theorem addChild_mapNodes (t : Tree) (i : Nat) (s : String) :
    (t.mapNodes f).addChild i s = (t.addChild i s).map fun p => (p.1.mapNodes f, p.2) := by
  rw [addChild, addChild, node?_mapNodes]
  cases t.node? i with
  | none => rfl
  | some p =>
    simp only [Option.map_some, hf.children]
    split
    · rw [hf.name]
      rfl
    · have himage : f { p with children := p.children.insert s t.size }
          = { f p with children := p.children.insert s t.size } := hf.link p _
      simp only [Except.map, mapNodes_append, mapNodes_withNode, size_mapNodes, himage,
        hf.fresh s (some i)]

/-- Descending with additions does to an image what it does to the tree. -/
theorem ensurePath_mapNodes (path : List String) : ∀ (t : Tree) (i : Nat),
    (t.mapNodes f).ensurePath i path = (t.ensurePath i path).map fun p =>
      (p.1.mapNodes f, p.2) := by
  induction path with
  | nil => intro t i; rfl
  | cons s path ih =>
    intro t i
    rw [ensurePath, ensurePath, child?_mapNodes hf]
    cases t.child? i s with
    | some c => exact ih t c
    | none =>
      simp only [addChild_mapNodes hf]
      cases t.addChild i s with
      | error e => rfl
      | ok p => exact ih p.1 p.2

/-- Trees with one image have one image when a path is ensured, and the path leads to one place. -/
theorem exists_ensurePath_of_mapNodes_eq {t u : Tree} (h : t.mapNodes f = u.mapNodes f) {i j : Nat}
    {path : List String} {t' : Tree} (ht : t.ensurePath i path = .ok (t', j)) :
    ∃ u', u.ensurePath i path = .ok (u', j) ∧ t'.mapNodes f = u'.mapNodes f := by
  have hu := ensurePath_mapNodes hf path u i
  rw [← h, ensurePath_mapNodes hf, ht] at hu
  cases hp : u.ensurePath i path with
  | error e => rw [hp] at hu; cases hu
  | ok p =>
    rw [hp] at hu
    obtain ⟨u', k⟩ := p
    obtain ⟨himage, rfl⟩ : t'.mapNodes f = u'.mapNodes f ∧ j = k := Prod.mk.inj (Except.ok.inj hu)
    exact ⟨u', rfl, himage⟩

end

/-- They have one image when what is recorded has. -/
theorem exists_setDeps_of_mapNodes_eq {t u : Tree} (h : t.mapNodes f = u.mapNodes f) {i : Nat}
    {deps deps' : Deps} {modified a b : Millis}
    (hrecord : ∀ m n : Node, f m = f n → f (m.recording deps modified a) =
      f (n.recording deps' modified b)) {t' : Tree} (ht : t.setDeps i deps modified a = .ok t') :
    ∃ u', u.setDeps i deps' modified b = .ok u' ∧ t'.mapNodes f = u'.mapNodes f := by
  have hnode := map_node?_of_mapNodes_eq h i
  cases hm : t.node? i with
  | none =>
    rw [setDeps, hm] at ht
    cases ht
  | some m =>
    obtain rfl := Except.ok.inj ((setDeps_eq hm deps modified a).symm.trans ht)
    cases hn : u.node? i with
    | none =>
      rw [hm, hn] at hnode
      cases hnode
    | some n =>
      rw [hm, hn] at hnode
      refine ⟨_, setDeps_eq hn deps' modified b, ?_⟩
      rw [mapNodes_withNode, mapNodes_withNode, h, hrecord m n (Option.some.inj hnode)]

end Tree

/-! ### Frames -/

/-- The node without its dependencies and their time. -/
def Node.frame (n : Node) : Node := { n with deps := {}, depsModified := none }

/-- The tree without dependencies and their times: the names, the links and the times of the
files. -/
def Tree.frame (t : Tree) : Tree := t.mapNodes Node.frame

theorem Node.keepsLinks_frame : Node.KeepsLinks Node.frame where
  name := fun _ => rfl
  children := fun _ => rfl
  link := fun _ _ => rfl
  fresh := fun _ _ => rfl

theorem Node.frame_recording {m n : Node} (h : m.frame = n.frame) (deps deps' : Deps)
    (modified a b : Millis) :
    (m.recording deps modified a).frame = (n.recording deps' modified b).frame := by
  obtain ⟨hname, hparent, hchildren, -, -, -⟩ := Node.mk.inj h
  simp only [recording, frame, hname, hparent, hchildren]

end ModuleAtlas
