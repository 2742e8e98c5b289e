import Mathlib.Data.List.Induction
import ModuleAtlas.Proofs.MapLaws
import ModuleAtlas.Tree.Integrity

/-!
# Links of a tree

A table of nodes is linked when every link from a parent to a child is answered by the child, which
knows its parent and bears the name of the link, and the root has no parent.  In a linked table no
two paths from the root lead to one node, however the nodes are ordered, and whatever cycles there
are off the root.

A table grows when directories are added: all nodes stay what they were, and every new link leads to
a new node.  Growth leaves untouched what the source files at all paths have recorded.

## Main definitions

* `Tree.Linked` — links and back links agree.
* `Tree.Grows` — one table arises from another by adding directories.
* `Node.record`, `Node.recording` — what is recorded about a source file, and recording it.
* `Tree.fileAt` — the file at a path.

## Main results

* `Tree.linked_of_check` — a table that passes its check is linked.
* `Tree.Linked.descend?_injective` — **a node of a linked table has one path.**
* `Tree.exists_ensurePath` — descending with additions succeeds, and the table grows.
* `Tree.fileAt_recording_self`, `Tree.fileAt_recording_of_ne` — recording changes one path.
-/

namespace ModuleAtlas

/-- What is recorded about a source file: its dependencies and both times. -/
def Node.record (n : Node) : Deps × Option Millis × Option Millis :=
  (n.deps, n.modified, n.depsModified)

/-- The node with what a source file declares, and its times. -/
def Node.recording (n : Node) (deps : Deps) (modified depsModified : Millis) : Node :=
  { n with deps, modified := some modified, depsModified := some depsModified }

theorem Node.isFile_eq_of_record {m n : Node} (h : m.record = n.record) : m.isFile = n.isFile := by
  have hm : m.modified = n.modified := congrArg (·.2.1) h
  rw [isFile, hm, isFile]

namespace Tree

/-! ### Descending -/

@[simp] theorem descend?_nil (t : Tree) (i : Nat) : t.descend? i [] = some i := rfl

theorem descend?_cons (t : Tree) (i : Nat) (s : String) (path : List String) :
    t.descend? i (s :: path) = (t.child? i s).bind fun j => t.descend? j path := by
  rw [descend?, List.foldlM_cons]
  rfl

theorem descend?_append (t : Tree) (i : Nat) (path more : List String) :
    t.descend? i (path ++ more) = (t.descend? i path).bind fun j => t.descend? j more := by
  rw [descend?, List.foldlM_append]
  rfl

theorem descend?_concat (t : Tree) (i : Nat) (path : List String) (s : String) :
    t.descend? i (path ++ [s]) = (t.descend? i path).bind fun j => t.child? j s := by
  rw [descend?_append]
  congr 1
  funext j
  rw [descend?_cons]
  cases t.child? j s <;> rfl

/-- A node with a child is in the table. -/
theorem exists_node?_of_child? {t : Tree} {i j : Nat} {s : String} (h : t.child? i s = some j) :
    ∃ n, t.node? i = some n ∧ n.children.find? s = some j := Option.bind_eq_some_iff.1 h

theorem child?_of_node? {t : Tree} {i : Nat} {n : Node} (h : t.node? i = some n) (s : String) :
    t.child? i s = n.children.find? s := by rw [child?, h]; rfl

/-- The children of a node are those that its row lists. -/
theorem child?_eq_some_iff_mem {t : Tree} {i j : Nat} {n : Node} (h : t.node? i = some n)
    {s : String} : t.child? i s = some j ↔ (s, j) ∈ n.children.toList := by
  rw [child?_of_node? h, SortedMap.find?_eq_some_iff_mem]

theorem child?_of_node?_eq_none {t : Tree} {i : Nat} (h : t.node? i = none) (s : String) :
    t.child? i s = none := by rw [child?, h]; rfl

theorem node?_eq_none_iff {t : Tree} {i : Nat} : t.node? i = none ↔ t.size ≤ i := by
  rw [node?, Array.getElem?_eq_none_iff, size]

theorem lt_size_of_node? {t : Tree} {i : Nat} {n : Node} (h : t.node? i = some n) : i < t.size := by
  by_contra hi
  rw [node?_eq_none_iff.2 (Nat.le_of_not_lt hi)] at h
  simp at h

/-! ### Linked tables -/

/-- Links and back links agree, and the root has no parent. -/
structure Linked (t : Tree) : Prop where
  /-- There is a root, and it has no parent. -/
  root : ∃ n, t.node? root = some n ∧ n.parent = none
  /-- A child knows its parent and bears the name of the link. -/
  child : ∀ {i : Nat} {s : String} {j : Nat}, t.child? i s = some j →
    ∃ n, t.node? j = some n ∧ n.parent = some i ∧ n.name = s

theorem linked_new (name : String) : (new name).Linked where
  root := ⟨{ name }, rfl, rfl⟩
  child := by
    intro i s j h
    obtain ⟨n, hn, hs⟩ := exists_node?_of_child? h
    rcases i with _ | i
    · have hn : ({ name } : Node) = n := Option.some.inj hn
      subst hn
      simp at hs
    · simp [node?, new] at hn

/-- A way down a linked table ends in the table. -/
theorem Linked.exists_node?_of_descend? {t : Tree} (ht : t.Linked) {i : Nat} {n : Node}
    (hi : t.node? i = some n) {path : List String} {j : Nat} (h : t.descend? i path = some j) :
    ∃ m, t.node? j = some m := by
  rcases List.eq_nil_or_concat path with rfl | ⟨above, s, rfl⟩
  · obtain rfl : i = j := Option.some.inj h
    exact ⟨n, hi⟩
  · rw [List.concat_eq_append, descend?_concat] at h
    obtain ⟨k, -, hk⟩ := Option.bind_eq_some_iff.1 h
    obtain ⟨m, hm, -⟩ := ht.child hk
    exact ⟨m, hm⟩

/-- **A node of a linked table has one path.** -/
theorem Linked.descend?_injective {t : Tree} (ht : t.Linked) :
    ∀ {path other : List String} {i : Nat}, t.descend? Tree.root path = some i →
      t.descend? Tree.root other = some i → path = other := by
  obtain ⟨r, hr, hparent⟩ := ht.root
  intro path
  -- the last steps agree, since the node tells its name and its parent
  induction path using List.reverseRecOn with
  | nil =>
    intro other i h₁ h₂
    obtain rfl : Tree.root = i := Option.some.inj h₁
    rcases List.eq_nil_or_concat other with rfl | ⟨above, s, rfl⟩
    · rfl
    · rw [List.concat_eq_append, descend?_concat] at h₂
      obtain ⟨k, -, hk⟩ := Option.bind_eq_some_iff.1 h₂
      obtain ⟨n, hn, hp, -⟩ := ht.child hk
      rw [hr] at hn
      rw [← Option.some.inj hn, hparent] at hp
      simp at hp
  | append_singleton path s ih =>
    intro other i h₁ h₂
    rw [descend?_concat] at h₁
    obtain ⟨k, hk, hs⟩ := Option.bind_eq_some_iff.1 h₁
    obtain ⟨n, hn, hp, hname⟩ := ht.child hs
    rcases List.eq_nil_or_concat other with rfl | ⟨above, s', rfl⟩
    · -- no link leads to the root
      obtain rfl : Tree.root = i := Option.some.inj h₂
      rw [hr] at hn
      rw [← Option.some.inj hn, hparent] at hp
      simp at hp
    · rw [List.concat_eq_append, descend?_concat] at h₂
      obtain ⟨k', hk', hs'⟩ := Option.bind_eq_some_iff.1 h₂
      obtain ⟨n', hn', hp', hname'⟩ := ht.child hs'
      rw [hn] at hn'
      obtain rfl : n = n' := Option.some.inj hn'
      rw [hp] at hp'
      obtain rfl : k = k' := Option.some.inj hp'
      rw [ih hk hk', ← hname, ← hname', List.concat_eq_append]

/-! ### The check -/

/-- A link of a node is listed among all links. -/
theorem mem_links {t : Tree} {i j : Nat} {s : String} (h : t.child? i s = some j) :
    ⟨i, s, j⟩ ∈ t.links := by
  obtain ⟨n, hn, hs⟩ := exists_node?_of_child? h
  have hmem : (n, i) ∈ t.nodes.toList.zipIdx := by
    rw [List.mem_zipIdx_iff_getElem?, Array.getElem?_toList]
    exact hn
  have hlink : (⟨i, s, j⟩ : Link) ∈ linksOf n i :=
    List.mem_map.2 ⟨(s, j), SortedMap.find?_eq_some_iff_mem.1 hs, rfl⟩
  exact List.mem_flatMap.2 ⟨(n, i), hmem, hlink⟩

/-- A link that is followed leads to a node that answers it. -/
theorem answered_of_follow {t : Tree} {marks after : Array Bool} {l : Link}
    (h : t.follow marks l = .ok after) :
    ∃ n, t.node? l.child = some n ∧ n.parent = some l.parent ∧ n.name = l.name := by
  unfold follow at h
  split at h
  · simp at h
  · next n hn =>
    split at h
    · simp at h
    · next hlink =>
      rw [not_or, not_not, not_not] at hlink
      exact ⟨n, hn, hlink.1, hlink.2⟩

theorem answered_of_followAll {t : Tree} {l : Link} :
    ∀ {links : List Link} {marks after : Array Bool},
    t.followAll marks links = .ok after → l ∈ links →
      ∃ n, t.node? l.child = some n ∧ n.parent = some l.parent ∧ n.name = l.name := by
  intro links
  induction links with
  | nil => intro marks after _ hl; simp at hl
  | cons l' links ih =>
    intro marks after h hl
    rw [followAll] at h
    split at h
    · simp at h
    · next marks' hf =>
      rcases List.mem_cons.1 hl with rfl | hl
      · exact answered_of_follow hf
      · exact ih h hl

/-- **A table that passes its check is linked.** -/
theorem linked_of_check {t : Tree} (h : t.check = .ok ()) : t.Linked := by
  unfold check at h
  split at h
  · simp at h
  · next r hr =>
    split at h
    · simp at h
    · next hparent =>
      split at h
      · simp at h
      · next marks hf =>
        refine ⟨⟨r, hr, ?_⟩, ?_⟩
        · simpa using hparent
        · intro i s j hchild
          exact answered_of_followAll hf (mem_links hchild)

theorem linked_of_isIntact {t : Tree} (h : t.isIntact = true) : t.Linked := by
  apply linked_of_check
  unfold isIntact at h
  cases hc : t.check with
  | error d => rw [hc] at h; simp [Except.isOk, Except.toBool] at h
  | ok u => rfl

/-! ### Growth -/

/-- One table arises from another by adding directories: every node keeps its name, its parent, its
record and its children, new nodes are directories, and new links lead to new nodes. -/
structure Grows (t u : Tree) : Prop where
  /-- Old nodes stay, apart from further children. -/
  node : ∀ {i : Nat} {n : Node}, t.node? i = some n →
    ∃ m, u.node? i = some m ∧ m.name = n.name ∧ m.parent = n.parent ∧ m.record = n.record
  /-- New nodes are directories. -/
  fresh : ∀ {i : Nat} {m : Node}, t.node? i = none → u.node? i = some m → m.isFile = false
  /-- Old links stay. -/
  kept : ∀ {i : Nat} {s : String} {j : Nat}, t.child? i s = some j → u.child? i s = some j
  /-- New links lead to new nodes. -/
  added : ∀ {i : Nat} {s : String} {j : Nat}, u.child? i s = some j →
    t.child? i s = some j ∨ t.node? j = none

theorem Grows.refl (t : Tree) : t.Grows t where
  node := fun h => ⟨_, h, rfl, rfl, rfl⟩
  fresh := fun hnone hsome => by rw [hnone] at hsome; simp at hsome
  kept := id
  added := .inl

/-- What is new later is new from the start. -/
theorem Grows.node?_eq_none {t u : Tree} (h : t.Grows u) {i : Nat} (hi : u.node? i = none) :
    t.node? i = none := by
  cases ht : t.node? i with
  | none => rfl
  | some n =>
    obtain ⟨m, hm, -⟩ := h.node ht
    rw [hi] at hm
    simp at hm

theorem Grows.trans {t u v : Tree} (h₁ : t.Grows u) (h₂ : u.Grows v) : t.Grows v where
  node := by
    intro i n hn
    obtain ⟨m, hm, hname, hparent, hrecord⟩ := h₁.node hn
    obtain ⟨k, hk, hname', hparent', hrecord'⟩ := h₂.node hm
    exact ⟨k, hk, hname'.trans hname, hparent'.trans hparent, hrecord'.trans hrecord⟩
  fresh := by
    intro i m hnone hm
    cases hu : u.node? i with
    | none => exact h₂.fresh hu hm
    | some n =>
      obtain ⟨k, hk, -, -, hrecord⟩ := h₂.node hu
      rw [hm] at hk
      rw [Node.isFile_eq_of_record (Option.some.inj hk ▸ hrecord)]
      exact h₁.fresh hnone hu
  kept := fun h => h₂.kept (h₁.kept h)
  added := by
    intro i s j h
    rcases h₂.added h with h | h
    · exact h₁.added h
    · exact .inr (h₁.node?_eq_none h)

/-- Old paths stay. -/
theorem Grows.descend? {t u : Tree} (h : t.Grows u) {path : List String} :
    ∀ {i j : Nat}, t.descend? i path = some j → u.descend? i path = some j := by
  induction path with
  | nil => intro i j hj; exact hj
  | cons s path ih =>
    intro i j hj
    rw [descend?_cons] at hj ⊢
    obtain ⟨k, hk, hj⟩ := Option.bind_eq_some_iff.1 hj
    rw [h.kept hk]
    exact ih hj

/-- A path of the grown table is an old one, or it leads to a new node. -/
theorem Grows.descend?_cases {t u : Tree} (h : t.Grows u) {path : List String} :
    ∀ {i j : Nat}, u.descend? i path = some j →
      t.descend? i path = some j ∨ (path ≠ [] ∧ t.node? j = none) := by
  induction path using List.reverseRecOn with
  | nil => intro i j hj; exact .inl hj
  | append_singleton path s ih =>
    intro i j hj
    rw [descend?_concat] at hj ⊢
    obtain ⟨k, hk, hj⟩ := Option.bind_eq_some_iff.1 hj
    rcases h.added hj with hold | hnew
    · -- the last link is old, so the node it starts from is too
      rcases ih hk with hk | ⟨-, hk⟩
      · rw [hk]
        exact .inl hold
      · rw [child?_of_node?_eq_none hk] at hold
        simp at hold
    · exact .inr ⟨by simp, hnew⟩

/-! ### Files at paths -/

/-- The node at a path from the root, if a source file backs it. -/
def fileAt (t : Tree) (path : List String) : Option Node :=
  ((t.descend? root path).bind t.node?).filter Node.isFile

theorem fileAt_of_descend? {t : Tree} {path : List String} {i : Nat}
    (h : t.descend? root path = some i) : t.fileAt path = (t.node? i).filter Node.isFile := by
  rw [fileAt, h]
  rfl

theorem exists_of_fileAt {t : Tree} {path : List String} {n : Node} (h : t.fileAt path = some n) :
    ∃ i, t.descend? root path = some i ∧ t.node? i = some n ∧ n.isFile = true := by
  obtain ⟨hn, hfile⟩ := Option.filter_eq_some_iff.1 h
  obtain ⟨i, hi, hn⟩ := Option.bind_eq_some_iff.1 hn
  exact ⟨i, hi, hn, hfile⟩

/-- Growth changes no record. -/
theorem Grows.record_fileAt {t u : Tree} (ht : t.Linked) (h : t.Grows u) (path : List String) :
    (u.fileAt path).map Node.record = (t.fileAt path).map Node.record := by
  obtain ⟨r, hr, -⟩ := ht.root
  cases htp : t.descend? root path with
  | some i =>
    obtain ⟨n, hn⟩ := ht.exists_node?_of_descend? hr htp
    obtain ⟨m, hm, -, -, hrecord⟩ := h.node hn
    rw [fileAt_of_descend? htp, fileAt_of_descend? (h.descend? htp), hn, hm, Option.filter_some,
      Option.filter_some, Node.isFile_eq_of_record hrecord]
    split
    · rw [Option.map_some, Option.map_some, hrecord]
    · rfl
  | none =>
    have hnone : t.fileAt path = none := by rw [fileAt, htp]; rfl
    cases hup : u.descend? root path with
    | none => rw [hnone, fileAt, hup]; rfl
    | some j =>
      rcases h.descend?_cases hup with hold | ⟨-, hnew⟩
      · rw [htp] at hold
        simp at hold
      · rw [hnone, fileAt_of_descend? hup]
        cases huj : u.node? j with
        | none => rfl
        | some m => rw [Option.filter_some, h.fresh hnew huj]; rfl

/-! ### Adding directories -/

/-- The table with a new directory `s` below the node `p` at place `i`. -/
def withChild (t : Tree) (i : Nat) (p : Node) (s : String) : Tree :=
  (t.withNode i { p with children := p.children.insert s t.size }).append
    { name := s, parent := some i }

theorem addChild_eq {t : Tree} {i : Nat} {p : Node} {s : String} (hp : t.node? i = some p)
    (hs : t.child? i s = none) : t.addChild i s = .ok (t.withChild i p s, t.size) := by
  rw [child?_of_node? hp] at hs
  have hcontains : p.children.contains s = false := SortedMap.contains_eq_false_iff.2 hs
  simp only [addChild, hp, hcontains]
  rfl

theorem node?_withChild {t : Tree} {i : Nat} {p : Node} (hp : t.node? i = some p)
    (s : String) (j : Nat) :
    (t.withChild i p s).node? j =
      if j = t.size then some { name := s, parent := some i }
      else if i = j then some { p with children := p.children.insert s t.size }
      else t.node? j := by
  rw [withChild, node?_append, size_withNode, node?_withNode]
  split
  · rfl
  · split
    · next h => rw [← h, hp]; rfl
    · rfl

theorem child?_withChild {t : Tree} {i : Nat} {p : Node} (hp : t.node? i = some p) (s : String)
    (j : Nat) (s' : String) :
    (t.withChild i p s).child? j s' = if i = j ∧ s' = s then some t.size else t.child? j s' := by
  have hi : i < t.size := lt_size_of_node? hp
  by_cases hj : j = t.size
  · -- the new node has no children, and was not there before
    have hnew : (t.withChild i p s).node? j = some { name := s, parent := some i } := by
      rw [node?_withChild hp, if_pos hj]
    have hout : t.node? j = none := node?_eq_none_iff.2 (by omega)
    rw [child?_of_node? hnew, child?_of_node?_eq_none hout, if_neg (by omega)]
    rfl
  · by_cases hij : i = j
    · have hlinked : (t.withChild i p s).node? j
          = some { p with children := p.children.insert s t.size } := by
        rw [node?_withChild hp, if_neg hj, if_pos hij]
      rw [child?_of_node? hlinked, SortedMap.find?_insert, ← hij, child?_of_node? hp]
      simp only [Std.LawfulEqOrd.compare_eq_iff_eq, true_and]
    · have hsame : (t.withChild i p s).node? j = t.node? j := by
        rw [node?_withChild hp, if_neg hj, if_neg hij]
      rw [child?, hsame, if_neg fun h => hij h.1]
      rfl

theorem linked_withChild {t : Tree} (ht : t.Linked) {i : Nat} {p : Node}
    (hp : t.node? i = some p) (s : String) : (t.withChild i p s).Linked where
  root := by
    obtain ⟨r, hr, hparent⟩ := ht.root
    have hpos : root ≠ t.size := by have := lt_size_of_node? hr; omega
    by_cases hi : i = root
    · have hpr : p = r := by rw [hi, hr] at hp; exact (Option.some.inj hp).symm
      refine ⟨{ p with children := p.children.insert s t.size }, ?_, ?_⟩
      · rw [node?_withChild hp, if_neg hpos, if_pos hi]
      · rw [hpr]
        exact hparent
    · exact ⟨r, by rw [node?_withChild hp, if_neg hpos, if_neg hi, hr], hparent⟩
  child := by
    intro j s' k h
    rw [child?_withChild hp] at h
    split at h
    · -- the new link leads to the new node
      next hnew =>
      obtain rfl : t.size = k := Option.some.inj h
      exact ⟨{ name := s, parent := some i }, by rw [node?_withChild hp, if_pos rfl],
        by rw [hnew.1], hnew.2.symm⟩
    · -- an old link leads to an old node, whose name and parent stay
      obtain ⟨n, hn, hparent, hname⟩ := ht.child h
      have hk : k ≠ t.size := by have := lt_size_of_node? hn; omega
      by_cases hik : i = k
      · have hpn : p = n := by rw [hik, hn] at hp; exact (Option.some.inj hp).symm
        refine ⟨{ p with children := p.children.insert s t.size }, ?_, ?_, ?_⟩
        · rw [node?_withChild hp, if_neg hk, if_pos hik]
        · rw [hpn]
          exact hparent
        · rw [hpn]
          exact hname
      · exact ⟨n, by rw [node?_withChild hp, if_neg hk, if_neg hik, hn], hparent, hname⟩

theorem grows_withChild {t : Tree} {i : Nat} {p : Node} {s : String} (hp : t.node? i = some p)
    (hs : t.child? i s = none) : t.Grows (t.withChild i p s) where
  node := by
    intro j n hn
    have hj : j ≠ t.size := by have := lt_size_of_node? hn; omega
    by_cases hij : i = j
    · have hpn : p = n := by rw [hij, hn] at hp; exact (Option.some.inj hp).symm
      refine ⟨{ p with children := p.children.insert s t.size }, ?_, ?_⟩
      · rw [node?_withChild hp, if_neg hj, if_pos hij]
      · rw [hpn]
        exact ⟨rfl, rfl, rfl⟩
    · exact ⟨n, by rw [node?_withChild hp, if_neg hj, if_neg hij, hn], rfl, rfl, rfl⟩
  fresh := by
    intro j m hnone hm
    rw [node?_withChild hp] at hm
    split at hm
    · rw [← Option.some.inj hm]
      rfl
    · split at hm
      · next hij => rw [← hij, hp] at hnone; simp at hnone
      · rw [hnone] at hm
        simp at hm
  kept := by
    intro j s' k h
    rw [child?_withChild hp, if_neg ?_, h]
    rintro ⟨rfl, rfl⟩
    rw [hs] at h
    simp at h
  added := by
    intro j s' k h
    rw [child?_withChild hp] at h
    split at h
    · obtain rfl : t.size = k := Option.some.inj h
      exact .inr (node?_eq_none_iff.2 (Nat.le_refl _))
    · exact .inl h

/-- Descending with additions succeeds in a linked table, and the table grows. -/
theorem exists_ensurePath {path : List String} : ∀ {t : Tree} {i : Nat} {n : Node}, t.Linked →
    t.node? i = some n → ∃ u j, t.ensurePath i path = .ok (u, j) ∧ u.Linked ∧ t.Grows u ∧
      u.descend? i path = some j := by
  induction path with
  | nil =>
    intro t i n ht _
    exact ⟨t, i, rfl, ht, .refl t, rfl⟩
  | cons s path ih =>
    intro t i n ht hn
    cases hs : t.child? i s with
    | some c =>
      obtain ⟨m, hm, -⟩ := ht.child hs
      obtain ⟨u, j, he, hu, hgrows, hdescend⟩ := ih ht hm
      refine ⟨u, j, ?_, hu, hgrows, ?_⟩
      · simp only [ensurePath, hs, he]
      · rw [descend?_cons, hgrows.kept hs]
        exact hdescend
    | none =>
      -- the descent goes on from the new directory
      have hadded := grows_withChild hn hs
      have hnew : (t.withChild i n s).node? t.size = some { name := s, parent := some i } := by
        rw [node?_withChild hn, if_pos rfl]
      obtain ⟨u, j, he, hu, hgrows, hdescend⟩ := ih (linked_withChild ht hn s) hnew
      refine ⟨u, j, ?_, hu, hadded.trans hgrows, ?_⟩
      · simp only [ensurePath, hs, addChild_eq hn hs, he]
      · have hlink : (t.withChild i n s).child? i s = some t.size := by
          rw [child?_withChild hn, if_pos ⟨rfl, rfl⟩]
        rw [descend?_cons, hgrows.kept hlink]
        exact hdescend

/-! ### Recording -/

theorem setDeps_eq {t : Tree} {i : Nat} {n : Node} (hn : t.node? i = some n) (deps : Deps)
    (modified depsModified : Millis) :
    t.setDeps i deps modified depsModified
      = .ok (t.withNode i (n.recording deps modified depsModified)) := by
  simp only [setDeps, hn]
  rfl

theorem child?_withNode {t : Tree} {i : Nat} {n m : Node} (hn : t.node? i = some n)
    (hm : m.children = n.children) (j : Nat) (s : String) :
    (t.withNode i m).child? j s = t.child? j s := by
  rw [child?, node?_withNode]
  split
  · next hij =>
    subst hij
    rw [hn, child?_of_node? hn, ← hm]
    rfl
  · rfl

theorem descend?_withNode {t : Tree} {i : Nat} {n m : Node} (hn : t.node? i = some n)
    (hm : m.children = n.children) (j : Nat) (path : List String) :
    (t.withNode i m).descend? j path = t.descend? j path := by
  have hchild : (t.withNode i m).child? = t.child? := by
    funext k s
    exact child?_withNode hn hm k s
  rw [descend?, hchild, descend?]

theorem linked_withNode {t : Tree} (ht : t.Linked) {i : Nat} {n m : Node} (hn : t.node? i = some n)
    (hm : m.children = n.children) (hname : m.name = n.name) (hparent : m.parent = n.parent) :
    (t.withNode i m).Linked where
  root := by
    obtain ⟨r, hr, hrp⟩ := ht.root
    rw [node?_withNode]
    split
    · next hi =>
      rw [hi, hr] at hn
      rw [← Option.some.inj hn, hrp] at hparent
      exact ⟨m, by rw [hr]; rfl, hparent⟩
    · exact ⟨r, hr, hrp⟩
  child := by
    intro j s k h
    rw [child?_withNode hn hm] at h
    obtain ⟨c, hc, hcp, hcn⟩ := ht.child h
    rw [node?_withNode]
    split
    · next hi =>
      rw [hi, hc] at hn
      rw [← Option.some.inj hn] at hname hparent
      exact ⟨m, by rw [hc]; rfl, hparent.trans hcp, hname.trans hcn⟩
    · exact ⟨c, hc, hcp, hcn⟩

/-- What is recorded at a path is the file there. -/
theorem fileAt_recording_self {t : Tree} {path : List String} {i : Nat} {n : Node}
    (hpath : t.descend? root path = some i) (hn : t.node? i = some n) (deps : Deps)
    (modified depsModified : Millis) :
    (t.withNode i (n.recording deps modified depsModified)).fileAt path
      = some (n.recording deps modified depsModified) := by
  rw [fileAt, descend?_withNode (m := n.recording deps modified depsModified) hn rfl, hpath]
  show Option.filter _ (node? _ i) = _
  rw [node?_withNode, if_pos rfl, hn]
  rfl

/-- Recording at one path leaves the files at all others. -/
theorem fileAt_recording_of_ne {t : Tree} (ht : t.Linked) {path other : List String} {i : Nat}
    {n : Node} (hpath : t.descend? root path = some i) (hn : t.node? i = some n)
    (hne : path ≠ other) (deps : Deps) (modified depsModified : Millis) :
    (t.withNode i (n.recording deps modified depsModified)).fileAt other = t.fileAt other := by
  rw [fileAt, descend?_withNode (m := n.recording deps modified depsModified) hn rfl]
  cases hother : t.descend? root other with
  | none => rw [fileAt, hother]; rfl
  | some j =>
    have hij : i ≠ j := by
      intro hij
      exact hne (ht.descend?_injective hpath (hij ▸ hother))
    rw [fileAt_of_descend? hother]
    show Option.filter _ (node? _ j) = _
    rw [node?_withNode, if_neg hij]

end Tree

end ModuleAtlas
