import Mathlib.Data.List.Infix
import Mathlib.Logic.Function.Basic
import ModuleAtlas.Proofs.TreeShape

/-!
# Trees as maps from paths

A tree stands for a map from paths to what is recorded about a source file, where a directory is a
path at which nothing is recorded.  With a path, all its beginnings are in the map.  The places of
the table are handles on paths: from a new tree, whatever is called on it, every place has a path
and every path a place, each call changes the map at the paths it is about and nowhere else, a call
that fails leaves the tree as it was, and a place keeps its path.

## Main definitions

* `FileData`, `Node.data?` — what is recorded about a source file, and the record of a node.
* `PathMap`, `PathMap.PrefixClosed`, `PathMap.ensure` — maps from paths, and their missing
  directories.
* `Tree.entries`, `Tree.pathTo?` — the map that a tree stands for, and the path of a place.
* `Tree.ensureFrom` — descending with additions in place.
* `Tree.Call`, `Tree.perform`, `Tree.run` — calls that change a tree, failing ones included.
* `Tree.Orderly`, `Tree.Answers` — the invariant of the table, and what a call is to do to the map.

## Main results

* `Tree.ensureFrom_eq` — in place or not, descending with additions does the same.
* `Tree.Linked.entries_withChild`, `Tree.Linked.entries_recording`, `Tree.Orderly.exists_ensurePath`
  — each change as one of the map.
* `Tree.Orderly.perform` — a call keeps the invariant, answers as it should, and keeps the paths of
  places.
* `Tree.run_implements_pathMap` — **a tree implements a prefix-closed map from paths.**
-/

namespace ModuleAtlas

/-! ### Records -/

/-- What is recorded about a source file. -/
structure FileData where
  /-- What the file declares. -/
  deps : Deps
  /-- The time of the file. -/
  modified : Millis
  /-- The time of the file when it was first seen with these dependencies. -/
  depsModified : Millis
  deriving DecidableEq

namespace Node

/-- What is recorded at a node; nothing at a directory. -/
def data? (n : Node) : Option FileData :=
  n.modified.bind fun modified => n.depsModified.map fun depsModified =>
    ⟨n.deps, modified, depsModified⟩

/-- The record of a node at which the given data are recorded; at a directory all fields are
empty. -/
def recordOf : Option FileData → Deps × Option Millis × Option Millis
  | none => ({}, none, none)
  | some f => (f.deps, some f.modified, some f.depsModified)

/-- The node holds all data of a file or nothing at all. -/
def Tidy (n : Node) : Prop := n.record = recordOf n.data?

theorem data?_eq_of_record {m n : Node} (h : m.record = n.record) : m.data? = n.data? := by
  obtain ⟨hdeps, htimes⟩ := Prod.mk.inj h
  obtain ⟨hmodified, hdepsModified⟩ := Prod.mk.inj htimes
  rw [data?, hdeps, hmodified, hdepsModified, data?]

theorem Tidy.of_record {m n : Node} (hn : n.Tidy) (h : m.record = n.record) : m.Tidy := by
  rw [Tidy, h, data?_eq_of_record h]
  exact hn

theorem tidy_recording (n : Node) (deps : Deps) (modified depsModified : Millis) :
    (n.recording deps modified depsModified).Tidy := rfl

end Node

/-! ### Maps from paths -/

/-- A map from paths to what is recorded about a source file; at a directory nothing is recorded. -/
abbrev PathMap := List String → Option (Option FileData)

namespace PathMap

/-- The root is there, and with a path all its beginnings are. -/
structure PrefixClosed (m : PathMap) : Prop where
  /-- The root is there. -/
  root : m [] ≠ none
  /-- The directory of a path is there. -/
  above : ∀ {path : List String} {s : String}, m (path ++ [s]) ≠ none → m path ≠ none

/-- The map with the missing beginnings of a path as directories. -/
def ensure (m : PathMap) (path : List String) : PathMap := fun q =>
  (m q).or (if q <+: path then some none else none)

theorem ensure_of_ne_none {m : PathMap} {q : List String} (h : m q ≠ none) (path : List String) :
    m.ensure path q = m q := by
  obtain ⟨e, he⟩ := Option.ne_none_iff_exists'.1 h
  rw [ensure, he, Option.some_or]

theorem ensure_of_eq_none {m : PathMap} {q : List String} (h : m q = none) (path : List String) :
    m.ensure path q = if q <+: path then some none else none := by
  rw [ensure, h, Option.none_or]

theorem PrefixClosed.of_prefix {m : PathMap} (hm : m.PrefixClosed) {path q : List String}
    (hq : q <+: path) (h : m path ≠ none) : m q ≠ none := by
  induction path using List.reverseRecOn with
  | nil => rwa [List.prefix_nil.1 hq]
  | append_singleton path s ih =>
    rcases List.prefix_concat_iff.1 hq with rfl | hq
    · exact h
    · exact ih hq (hm.above h)

theorem PrefixClosed.ensure_eq_self {m : PathMap} (hm : m.PrefixClosed) {path : List String}
    (h : m path ≠ none) : m.ensure path = m := by
  funext q
  by_cases hq : m q = none
  · have hprefix : ¬ q <+: path := fun hprefix => hm.of_prefix hprefix h hq
    rw [ensure_of_eq_none hq, if_neg hprefix, hq]
  · exact ensure_of_ne_none hq path

/-- Below a directory that is there, a single path is missing. -/
theorem PrefixClosed.ensure_concat {m : PathMap} (hm : m.PrefixClosed) {path : List String}
    {s : String} (h : m path ≠ none) (hs : m (path ++ [s]) = none) :
    m.ensure (path ++ [s]) = Function.update m (path ++ [s]) (some none) := by
  funext q
  by_cases hq : q = path ++ [s]
  · rw [hq, Function.update_self, ensure_of_eq_none hs, if_pos List.prefix_rfl]
  · rw [Function.update_of_ne hq]
    by_cases hnone : m q = none
    · have hprefix : ¬ q <+: path ++ [s] := by
        intro hprefix
        rcases List.prefix_concat_iff.1 hprefix with he | hprefix
        · exact hq he
        · exact hm.of_prefix hprefix h hnone
      rw [ensure_of_eq_none hnone, if_neg hprefix, hnone]
    · exact ensure_of_ne_none hnone _

/-- What is missing above a path is missing on the way to any path below. -/
theorem ensure_ensure (m : PathMap) {path below : List String} (h : path <+: below) :
    (m.ensure path).ensure below = m.ensure below := by
  funext q
  show ((m q).or _).or _ = (m q).or _
  rw [Option.or_assoc]
  by_cases hq : q <+: path
  · rw [if_pos hq, if_pos (hq.trans h), Option.some_or]
  · rw [if_neg hq, Option.none_or]

end PathMap

namespace Tree

variable {t u : Tree} {i : Nat}

/-! ### The map of a tree -/

/-- The map that a tree stands for: the records of the nodes at their paths. -/
def entries (t : Tree) : PathMap := fun path => ((t.descend? root path).bind t.node?).map Node.data?

/-- The path of a place, read by climbing to the root; nothing for a place beyond the table. -/
def pathTo? (t : Tree) (i : Nat) : Option (List String) :=
  if i < t.size then (t.climb (t.size + 1) i).toOption else none

/-- Links agree, all nodes are reached, and every node holds all data of a file or nothing at
all. -/
structure Orderly (t : Tree) : Prop where
  /-- Links and back links agree. -/
  linked : t.Linked
  /-- Every node is reached from the root. -/
  covered : t.Covered
  /-- Every node is a directory or holds all of a file's data. -/
  tidy : ∀ {i : Nat} {n : Node}, t.node? i = some n → n.Tidy

theorem pathTo?_eq_none (h : t.size ≤ i) : t.pathTo? i = none := if_neg (by omega)

namespace Orderly

variable (ht : t.Orderly)

include ht

theorem check : t.check = .ok () := check_eq_ok_iff.2 ⟨ht.linked, ht.covered.attached⟩

/-- The path of a place is the way to it from the root. -/
theorem pathTo?_eq_some_iff {i : Nat} {path : List String} :
    t.pathTo? i = some path ↔ t.descend? Tree.root path = some i := by
  constructor
  · intro h
    rw [pathTo?] at h
    split at h
    · next hi =>
      cases hclimb : t.climb (t.size + 1) i with
      | error f => rw [hclimb] at h; simp [Except.toOption] at h
      | ok names =>
        rw [hclimb] at h
        obtain rfl : names = path := Option.some.inj h
        exact descend?_of_climb ht.linked ht.covered.attached hi hclimb
    · simp at h
  · intro h
    have hlength := ht.linked.length_lt_size h
    rw [pathTo?, if_pos (ht.linked.lt_size_of_descend? h), ht.linked.climb_eq h (by omega)]
    rfl

theorem exists_pathTo? {i : Nat} (hi : i < t.size) : ∃ path, t.pathTo? i = some path := by
  obtain ⟨path, hpath⟩ := ht.covered i hi
  exact ⟨path, ht.pathTo?_eq_some_iff.2 hpath⟩

theorem isSome_pathTo?_iff {i : Nat} : (t.pathTo? i).isSome ↔ i < t.size := by
  constructor
  · intro h
    obtain ⟨path, hpath⟩ := Option.isSome_iff_exists.1 h
    exact ht.linked.lt_size_of_descend? (ht.pathTo?_eq_some_iff.1 hpath)
  · intro hi
    obtain ⟨path, hpath⟩ := ht.exists_pathTo? hi
    rw [hpath]
    rfl

/-- The node at a place with a path is what the map holds at the path. -/
theorem exists_node?_of_pathTo? {i : Nat} {path : List String} (h : t.pathTo? i = some path) :
    ∃ n, t.node? i = some n ∧ t.entries path = some n.data? := by
  have hpath := ht.pathTo?_eq_some_iff.1 h
  obtain ⟨n, hn⟩ := ht.linked.exists_node?_of_path hpath
  refine ⟨n, hn, ?_⟩
  rw [entries, hpath, Option.bind_some, hn, Option.map_some]

/-- The paths of the map are those of the places. -/
theorem entries_ne_none_iff {path : List String} : t.entries path ≠ none ↔
    ∃ i, t.pathTo? i = some path := by
  constructor
  · intro h
    cases hpath : t.descend? Tree.root path with
    | none => rw [entries, hpath] at h; exact absurd rfl h
    | some i => exact ⟨i, ht.pathTo?_eq_some_iff.2 hpath⟩
  · rintro ⟨i, hi⟩
    obtain ⟨n, -, hentry⟩ := ht.exists_node?_of_pathTo? hi
    rw [hentry]
    simp

theorem entries_ne_none {i : Nat} {path : List String} (h : t.descend? Tree.root path = some i) :
    t.entries path ≠ none := ht.entries_ne_none_iff.2 ⟨i, ht.pathTo?_eq_some_iff.2 h⟩

theorem prefixClosed : t.entries.PrefixClosed where
  root := ht.entries_ne_none rfl
  above := by
    intro path s h
    obtain ⟨i, hi⟩ := ht.entries_ne_none_iff.1 h
    have hpath := ht.pathTo?_eq_some_iff.1 hi
    rw [descend?_concat] at hpath
    obtain ⟨p, hp, -⟩ := Option.bind_eq_some_iff.1 hpath
    exact ht.entries_ne_none hp

end Orderly

/-- Where a node has no child of a name, the map has no path. -/
theorem entries_concat_eq_none {i : Nat} {path : List String} {s : String}
    (hpath : t.descend? root path = some i) (hs : t.child? i s = none) :
    t.entries (path ++ [s]) = none := by
  rw [entries, descend?_concat, hpath, Option.bind_some, hs]
  rfl

theorem orderly_new (name : String) : (new name).Orderly where
  linked := linked_new name
  covered := by
    intro i hi
    rw [size_new] at hi
    obtain rfl : i = 0 := by omega
    exact ⟨[], rfl⟩
  tidy := by
    intro i n h
    have hi := lt_size_of_node? h
    rw [size_new] at hi
    obtain rfl : i = 0 := by omega
    obtain rfl : ({ name } : Node) = n := Option.some.inj h
    rfl

/-! ### Adding one directory -/

/-- A new directory has the path of its parent and its name, and all other paths stay. -/
theorem Linked.descend?_withChild (ht : t.Linked) {i : Nat} {p : Node} {path : List String}
    {s : String} (hpath : t.descend? Tree.root path = some i) (hp : t.node? i = some p)
    (hs : t.child? i s = none) (q : List String) : (t.withChild i p s).descend? Tree.root q
      = if q = path ++ [s] then some t.size else t.descend? Tree.root q := by
  have hgrows := grows_withChild hp hs
  have hlinked := linked_withChild ht hp s
  have hnew : (t.withChild i p s).descend? Tree.root (path ++ [s]) = some t.size := by
    rw [descend?_concat, hgrows.descend? hpath, Option.bind_some, child?_withChild hp,
      if_pos ⟨rfl, rfl⟩]
  split
  · next hq => rw [hq, hnew]
  · next hq =>
    cases hu : (t.withChild i p s).descend? Tree.root q with
    | none =>
      cases hold : t.descend? Tree.root q with
      | none => rfl
      | some j => rw [hgrows.descend? hold] at hu; simp at hu
    | some j =>
      rcases hgrows.descend?_cases hu with hold | ⟨-, hout⟩
      · rw [hold]
      · -- the one place that is new has one path
        have hj : j = t.size := by
          have hlt := hlinked.lt_size_of_descend? hu
          have hle := node?_eq_none_iff.1 hout
          rw [withChild, size_append, size_withNode] at hlt
          omega
        exact absurd (hlinked.descend?_injective (hj ▸ hu) hnew) hq

theorem data?_withChild {i : Nat} {p : Node} (hp : t.node? i = some p) (s : String) {j : Nat}
    (hj : j ≠ t.size) :
    ((t.withChild i p s).node? j).map Node.data? = (t.node? j).map Node.data? := by
  rw [node?_withChild hp, if_neg hj]
  split
  · next hij => rw [← hij, hp]; rfl
  · rfl

/-- A new directory is one new path, at which nothing is recorded. -/
theorem Linked.entries_withChild (ht : t.Linked) {i : Nat} {p : Node} {path : List String}
    {s : String} (hpath : t.descend? Tree.root path = some i) (hp : t.node? i = some p)
    (hs : t.child? i s = none) :
    (t.withChild i p s).entries = Function.update t.entries (path ++ [s]) (some none) := by
  funext q
  rw [entries, ht.descend?_withChild hpath hp hs]
  split
  · next hq =>
    rw [hq, Function.update_self, Option.bind_some, node?_withChild hp, if_pos rfl]
    rfl
  · next hq =>
    rw [Function.update_of_ne hq, entries]
    cases hold : t.descend? Tree.root q with
    | none => rfl
    | some j =>
      have hlt := ht.lt_size_of_descend? hold
      exact data?_withChild hp s (by omega)

theorem Orderly.withChild (ht : t.Orderly) {i : Nat} {p : Node} {s : String}
    (hp : t.node? i = some p) (hs : t.child? i s = none) : (t.withChild i p s).Orderly where
  linked := linked_withChild ht.linked hp s
  covered := by
    obtain ⟨path, hpath⟩ := ht.covered i (lt_size_of_node? hp)
    intro j hj
    rw [Tree.withChild, size_append, size_withNode] at hj
    by_cases hnew : j = t.size
    · exact ⟨path ++ [s], by rw [ht.linked.descend?_withChild hpath hp hs, if_pos rfl, hnew]⟩
    · obtain ⟨q, hq⟩ := ht.covered j (by omega)
      exact ⟨q, (grows_withChild hp hs).descend? hq⟩
  tidy := by
    intro j n hn
    rw [node?_withChild hp] at hn
    split at hn
    · rw [← Option.some.inj hn]
      rfl
    · split at hn
      · rw [← Option.some.inj hn]
        exact (ht.tidy hp).of_record rfl
      · exact ht.tidy hn

/-! ### Adding what is missing -/

/-- From the end of a path, descending with additions succeeds; the table grows, the map gains what
is missing on the way, and the node at the end has the full path. -/
theorem Orderly.exists_ensurePath (names : List String) :
    ∀ {t : Tree} {i : Nat} {path : List String}, t.Orderly →
      t.descend? Tree.root path = some i → ∃ u j, t.ensurePath i names = .ok (u, j) ∧
        u.Orderly ∧ t.Grows u ∧ u.descend? Tree.root (path ++ names) = some j ∧
          u.entries = t.entries.ensure (path ++ names) := by
  induction names with
  | nil =>
    intro t i path ht hpath
    rw [List.append_nil]
    exact ⟨t, i, rfl, ht, .refl t, hpath,
      (ht.prefixClosed.ensure_eq_self (ht.entries_ne_none hpath)).symm⟩
  | cons s names ih =>
    intro t i path ht hpath
    have hsplit : path ++ s :: names = path ++ [s] ++ names := by simp
    rw [hsplit]
    cases hs : t.child? i s with
    | some c =>
      have hchild : t.descend? Tree.root (path ++ [s]) = some c := by
        rw [descend?_concat, hpath]
        exact hs
      obtain ⟨u, j, he, hu, hgrows, hdescend, hentries⟩ := ih ht hchild
      exact ⟨u, j, by simp only [ensurePath, hs, he], hu, hgrows, hdescend, hentries⟩
    | none =>
      -- the first addition is the first missing path, and the descent goes on from there
      obtain ⟨p, hp⟩ := ht.linked.exists_node?_of_path hpath
      have hnew : (t.withChild i p s).descend? Tree.root (path ++ [s]) = some t.size := by
        rw [ht.linked.descend?_withChild hpath hp hs, if_pos rfl]
      have hfirst : (t.withChild i p s).entries = t.entries.ensure (path ++ [s]) := by
        rw [ht.linked.entries_withChild hpath hp hs,
          ht.prefixClosed.ensure_concat (ht.entries_ne_none hpath)
            (entries_concat_eq_none hpath hs)]
      obtain ⟨u, j, he, hu, hgrows, hdescend, hentries⟩ := ih (ht.withChild hp hs) hnew
      refine ⟨u, j, ?_, hu, (grows_withChild hp hs).trans hgrows, hdescend, ?_⟩
      · simp only [ensurePath, hs, addChild_eq hp hs, he]
      · rw [hentries, hfirst, PathMap.ensure_ensure _ (List.prefix_append _ _)]

/-- Descending with additions in place: the directories that were added before a failure would
stay. -/
def ensureFrom (t : Tree) (id : Nat) : List String → Tree × Except Error Nat
  | [] => (t, .ok id)
  | name :: names =>
    match t.child? id name with
    | some c => t.ensureFrom c names
    | none =>
      match t.addChild id name with
      | .error e => (t, .error e)
      | .ok (u, c) => u.ensureFrom c names

/-- Below a node without children every addition succeeds. -/
theorem exists_ensureFrom (names : List String) :
    ∀ {t : Tree} {i : Nat} {n : Node}, t.node? i = some n → n.children = ∅ →
      ∃ u j, t.ensureFrom i names = (u, .ok j) ∧ t.ensurePath i names = .ok (u, j) := by
  induction names with
  | nil => intro t i n _ _; exact ⟨t, i, rfl, rfl⟩
  | cons s names ih =>
    intro t i n hn hchildren
    have hs : t.child? i s = none := by rw [child?_of_node? hn, hchildren, SortedMap.find?_empty]
    have hnew : (t.withChild i n s).node? t.size = some { name := s, parent := some i } := by
      rw [node?_withChild hn, if_pos rfl]
    obtain ⟨u, j, hfrom, hpath⟩ := ih hnew rfl
    exact ⟨u, j, by simp only [ensureFrom, hs, addChild_eq hn hs, hfrom],
      by simp only [ensurePath, hs, addChild_eq hn hs, hpath]⟩

/-- In any table a failure comes before the first addition, so that in place or not, descending with
additions does the same. -/
theorem ensureFrom_eq {names : List String} : ∀ {t : Tree} {i : Nat}, t.ensureFrom i names =
    match t.ensurePath i names with
    | .ok (u, j) => (u, .ok j)
    | .error e => (t, .error e) := by
  induction names with
  | nil => intro t i; rfl
  | cons s names ih =>
    intro t i
    cases hs : t.child? i s with
    | some c => simp only [ensureFrom, ensurePath, hs, ih]
    | none =>
      cases hn : t.node? i with
      | none => simp only [ensureFrom, ensurePath, hs, addChild, hn]
      | some n =>
        have hnew : (t.withChild i n s).node? t.size = some { name := s, parent := some i } := by
          rw [node?_withChild hn, if_pos rfl]
        obtain ⟨u, j, hfrom, hpath⟩ := exists_ensureFrom names hnew rfl
        simp only [ensureFrom, ensurePath, hs, addChild_eq hn hs, hfrom, hpath]

/-! ### Recording -/

theorem descend?_recording {i : Nat} {n : Node} (hn : t.node? i = some n) (f : FileData) (j : Nat)
    (path : List String) :
    (t.withNode i (n.recording f.deps f.modified f.depsModified)).descend? j path =
      t.descend? j path :=
  descend?_withNode (m := n.recording f.deps f.modified f.depsModified) hn rfl j path

/-- Recording changes the map at one path. -/
theorem Linked.entries_recording (ht : t.Linked) {i : Nat} {n : Node} {path : List String}
    (hpath : t.descend? Tree.root path = some i) (hn : t.node? i = some n) (f : FileData) :
    (t.withNode i (n.recording f.deps f.modified f.depsModified)).entries
      = Function.update t.entries path (some (some f)) := by
  funext q
  rw [entries, descend?_recording hn]
  by_cases hq : q = path
  · rw [hq, Function.update_self, hpath, Option.bind_some, node?_withNode, if_pos rfl, hn]
    rfl
  · rw [Function.update_of_ne hq, entries]
    cases hold : t.descend? Tree.root q with
    | none => rfl
    | some j =>
      have hij : i ≠ j := fun hij => hq (ht.descend?_injective hold (hij ▸ hpath))
      rw [Option.bind_some, node?_withNode, if_neg hij, Option.bind_some]

theorem Orderly.recording (ht : t.Orderly) {i : Nat} {n : Node} (hn : t.node? i = some n)
    (f : FileData) : (t.withNode i (n.recording f.deps f.modified f.depsModified)).Orderly where
  linked := linked_withNode ht.linked hn rfl rfl rfl
  covered := by
    intro j hj
    rw [size_withNode] at hj
    obtain ⟨path, hpath⟩ := ht.covered j hj
    exact ⟨path, (descend?_recording hn f _ _).trans hpath⟩
  tidy := by
    intro j m hm
    rw [node?_withNode] at hm
    split at hm
    · obtain ⟨-, -, rfl⟩ := Option.map_eq_some_iff.1 hm
      exact n.tidy_recording f.deps f.modified f.depsModified
    · exact ht.tidy hm

/-! ### Calls -/

/-- A call that changes a tree. -/
inductive Call where
  /-- Adds a directory below a place. -/
  | add (parent : Nat) (name : String)
  /-- Descends from a place with additions. -/
  | ensure (start : Nat) (names : List String)
  /-- Records what a source file declares, and its times. -/
  | record (id : Nat) (data : FileData)

/-- The tree after a call, and the answer: the place that was added or reached, or why the call
failed. -/
def perform (t : Tree) : Call → Tree × Except Error (Option Nat)
  | .add parent name =>
    match t.addChild parent name with
    | .ok (u, i) => (u, .ok (some i))
    | .error e => (t, .error e)
  | .ensure start names => ((t.ensureFrom start names).1, (t.ensureFrom start names).2.map some)
  | .record id f =>
    match t.setDeps id f.deps f.modified f.depsModified with
    | .ok u => (u, .ok none)
    | .error e => (t, .error e)

/-- The tree after several calls, of which some may fail. -/
def run (t : Tree) (calls : List Call) : Tree := calls.foldl (fun t c => (t.perform c).1) t

/-- What a call is to do to the map of a tree, and how it is to answer. -/
inductive Answers (t : Tree) : Call → Tree × Except Error (Option Nat) → Prop where
  /-- A directory is added where the map has no path yet, at a place of its own. -/
  | added {p i : Nat} {s : String} {path : List String} {u : Tree}
      (parent : t.pathTo? p = some path) (missing : t.entries (path ++ [s]) = none)
      (entries : u.entries = Function.update t.entries (path ++ [s]) (some none))
      (new : t.pathTo? i = none) (place : u.pathTo? i = some (path ++ [s])) :
      Answers t (.add p s) (u, .ok (some i))
  /-- A path that is there is not added again. -/
  | taken {p : Nat} {s : String} {path : List String} {n : Node} (parent : t.pathTo? p = some path)
      (there : t.entries (path ++ [s]) ≠ none) (node : t.node? p = some n) :
      Answers t (.add p s) (t, .error (.duplicateName n.name s))
  /-- Nothing is added below a place beyond the table. -/
  | nowhere {p : Nat} {s : String} (beyond : t.pathTo? p = none) :
      Answers t (.add p s) (t, .error (notFound p))
  /-- From a place with a path all that is missing is added. -/
  | ensured {p j : Nat} {names path : List String} {u : Tree} (start : t.pathTo? p = some path)
      (entries : u.entries = t.entries.ensure (path ++ names))
      (place : u.pathTo? j = some (path ++ names)) :
      Answers t (.ensure p names) (u, .ok (some j))
  /-- Without names there is nothing to do, even beyond the table. -/
  | unmoved {p : Nat} (beyond : t.pathTo? p = none) : Answers t (.ensure p []) (t, .ok (some p))
  /-- There is no way down from a place beyond the table. -/
  | lost {p : Nat} {names : List String} (beyond : t.pathTo? p = none) (names_ne : names ≠ []) :
      Answers t (.ensure p names) (t, .error (notFound p))
  /-- The record at one path is replaced. -/
  | recorded {i : Nat} {f : FileData} {path : List String} {u : Tree}
      (node : t.pathTo? i = some path)
      (entries : u.entries = Function.update t.entries path (some (some f))) :
      Answers t (.record i f) (u, .ok none)
  /-- Nothing is recorded beyond the table. -/
  | unknown {i : Nat} {f : FileData} (beyond : t.pathTo? i = none) :
      Answers t (.record i f) (t, .error (notFound i))

/-- A call that fails leaves the tree as it was. -/
theorem Answers.eq_of_error {c : Call} {e : Error} (h : t.Answers c (u, .error e)) : u = t := by
  cases h <;> rfl

/-- An addition finds no place exactly if the place has no path. -/
theorem Answers.notFound_iff {p : Nat} {s : String} {result : Tree × Except Error (Option Nat)}
    (h : t.Answers (.add p s) result) : result.2 = .error (notFound p) ↔ t.pathTo? p = none := by
  cases h with
  | added parent => simp [parent]
  | taken parent => simp [parent, notFound]
  | nowhere beyond => simp [beyond]

/-- Below a place with a path, an addition finds a duplicate exactly if the path is there. -/
theorem Answers.duplicateName_iff {p : Nat} {s : String} {path : List String}
    {result : Tree × Except Error (Option Nat)} (h : t.Answers (.add p s) result)
    (hpath : t.pathTo? p = some path) :
    (∃ parent, result.2 = .error (.duplicateName parent s)) ↔ t.entries (path ++ [s]) ≠ none := by
  cases h with
  | added parent missing =>
    rw [hpath] at parent
    rw [← Option.some.inj parent] at missing
    simp [missing]
  | taken parent there =>
    rw [hpath] at parent
    rw [← Option.some.inj parent] at there
    simp [there]
  | nowhere beyond =>
    rw [hpath] at beyond
    simp at beyond

/-- Descending with additions succeeds from a place with a path. -/
theorem Answers.exists_of_ensure {p : Nat} {names path : List String}
    {result : Tree × Except Error (Option Nat)} (h : t.Answers (.ensure p names) result)
    (hpath : t.pathTo? p = some path) : ∃ j, result.2 = .ok (some j) := by
  cases h with
  | ensured => exact ⟨_, rfl⟩
  | unmoved => exact ⟨_, rfl⟩
  | lost beyond =>
    rw [hpath] at beyond
    simp at beyond

/-- The table is orderly, and every place has the path that it had before. -/
structure Continues (t u : Tree) : Prop where
  /-- The table is orderly. -/
  orderly : u.Orderly
  /-- A place keeps its path. -/
  path : ∀ {i : Nat} {path : List String}, t.pathTo? i = some path → u.pathTo? i = some path

theorem Orderly.continues_self (ht : t.Orderly) : t.Continues t := ⟨ht, id⟩

theorem Orderly.continues_of_descend? (ht : t.Orderly) (hu : u.Orderly)
    (h : ∀ {i : Nat} {path : List String}, t.descend? Tree.root path = some i →
      u.descend? Tree.root path = some i) : t.Continues u where
  orderly := hu
  path := fun hi => hu.pathTo?_eq_some_iff.2 (h (ht.pathTo?_eq_some_iff.1 hi))

theorem Orderly.perform_add (ht : t.Orderly) (p : Nat) (s : String) :
    t.Continues (t.perform (.add p s)).1 ∧ t.Answers (.add p s) (t.perform (.add p s)) := by
  cases hn : t.node? p with
  | none =>
    simp only [perform, addChild, hn]
    exact ⟨ht.continues_self, .nowhere (pathTo?_eq_none (node?_eq_none_iff.1 hn))⟩
  | some n =>
    obtain ⟨path, hpath⟩ := ht.exists_pathTo? (lt_size_of_node? hn)
    have hdescend := ht.pathTo?_eq_some_iff.1 hpath
    cases hs : t.child? p s with
    | some c =>
      have hcontains : n.children.contains s = true := by
        rw [child?_of_node? hn] at hs
        rw [SortedMap.contains, hs]
        rfl
      have hthere : t.entries (path ++ [s]) ≠ none :=
        ht.entries_ne_none (by rw [descend?_concat, hdescend]; exact hs)
      simp only [perform, addChild, hn, hcontains, if_true]
      exact ⟨ht.continues_self, .taken hpath hthere hn⟩
    | none =>
      have hu := ht.withChild hn hs
      have hplace : (t.withChild p n s).descend? Tree.root (path ++ [s]) = some t.size := by
        rw [ht.linked.descend?_withChild hdescend hn hs, if_pos rfl]
      simp only [perform, addChild_eq hn hs]
      exact ⟨ht.continues_of_descend? hu (grows_withChild hn hs).descend?,
        .added hpath (entries_concat_eq_none hdescend hs)
          (ht.linked.entries_withChild hdescend hn hs) (pathTo?_eq_none (Nat.le_refl _))
          (hu.pathTo?_eq_some_iff.2 hplace)⟩

theorem Orderly.perform_ensure (ht : t.Orderly) (p : Nat) (names : List String) :
    t.Continues (t.perform (.ensure p names)).1 ∧
      t.Answers (.ensure p names) (t.perform (.ensure p names)) := by
  cases hn : t.node? p with
  | none =>
    have hbeyond : t.pathTo? p = none := pathTo?_eq_none (node?_eq_none_iff.1 hn)
    cases names with
    | nil => exact ⟨ht.continues_self, .unmoved hbeyond⟩
    | cons s names =>
      simp only [perform, ensureFrom, child?_of_node?_eq_none hn, addChild, hn]
      exact ⟨ht.continues_self, .lost hbeyond (List.cons_ne_nil _ _)⟩
  | some n =>
    obtain ⟨path, hpath⟩ := ht.exists_pathTo? (lt_size_of_node? hn)
    obtain ⟨u, j, he, hu, hgrows, hdescend, hentries⟩ :=
      Orderly.exists_ensurePath names ht (ht.pathTo?_eq_some_iff.1 hpath)
    simp only [perform, ensureFrom_eq, he]
    exact ⟨ht.continues_of_descend? hu hgrows.descend?,
      .ensured hpath hentries (hu.pathTo?_eq_some_iff.2 hdescend)⟩

theorem Orderly.perform_record (ht : t.Orderly) (i : Nat) (f : FileData) :
    t.Continues (t.perform (.record i f)).1 ∧
      t.Answers (.record i f) (t.perform (.record i f)) := by
  cases hn : t.node? i with
  | none =>
    simp only [perform, setDeps, hn]
    exact ⟨ht.continues_self, .unknown (pathTo?_eq_none (node?_eq_none_iff.1 hn))⟩
  | some n =>
    obtain ⟨path, hpath⟩ := ht.exists_pathTo? (lt_size_of_node? hn)
    simp only [perform, setDeps_eq hn]
    exact ⟨ht.continues_of_descend? (ht.recording hn f) fun h =>
      (descend?_recording hn f _ _).trans h,
      .recorded hpath (ht.linked.entries_recording (ht.pathTo?_eq_some_iff.1 hpath) hn f)⟩

/-- A call keeps the invariant and the paths of places, and answers as it should. -/
theorem Orderly.perform (ht : t.Orderly) (c : Call) :
    t.Continues (t.perform c).1 ∧ t.Answers c (t.perform c) := by
  cases c with
  | add p s => exact ht.perform_add p s
  | ensure p names => exact ht.perform_ensure p names
  | record i f => exact ht.perform_record i f

theorem Orderly.run (ht : t.Orderly) (calls : List Call) : t.Continues (t.run calls) := by
  induction calls generalizing t with
  | nil => exact ht.continues_self
  | cons c calls ih =>
    have hstep := (ht.perform c).1
    have hrest := ih hstep.orderly
    exact ⟨hrest.orderly, fun h => hrest.path (hstep.path h)⟩

/-! ### The map that a run implements -/

/-- The table is sound, and its places and their records are a prefix-closed map from paths. -/
structure Implements (t : Tree) (m : PathMap) : Prop where
  /-- The table passes its check. -/
  check : t.check = .ok ()
  /-- With a path all its beginnings are in the map. -/
  closed : m.PrefixClosed
  /-- The places of the table are those that have a path. -/
  places : ∀ i, (t.pathTo? i).isSome ↔ i < t.size
  /-- Every path of the map is the path of one place. -/
  paths : ∀ path, m path ≠ none ↔ ∃! i, t.pathTo? i = some path
  /-- A node holds what the map holds at its path. -/
  records : ∀ i path, t.pathTo? i = some path →
    ∃ n entry, t.node? i = some n ∧ m path = some entry ∧ n.record = Node.recordOf entry

theorem Orderly.implements (ht : t.Orderly) : t.Implements t.entries where
  check := ht.check
  closed := ht.prefixClosed
  places := fun _ => ht.isSome_pathTo?_iff
  paths := by
    intro path
    rw [ht.entries_ne_none_iff]
    refine ⟨?_, ExistsUnique.exists⟩
    rintro ⟨i, hi⟩
    refine ⟨i, hi, fun j hj => ?_⟩
    have hpath := ht.pathTo?_eq_some_iff.1 hi
    rw [ht.pathTo?_eq_some_iff.1 hj] at hpath
    exact Option.some.inj hpath
  records := by
    intro i path h
    obtain ⟨n, hn, hentry⟩ := ht.exists_node?_of_pathTo? h
    exact ⟨n, n.data?, hn, hentry, ht.tidy hn⟩

/-- After any calls on a new tree, failed ones included, the table implements a prefix-closed map
from paths.  Every call answers as it should on the map, where descending with additions is the same
in place or not.  An addition fails with `notFound` beyond the table, and otherwise with a duplicate
name exactly if the path is there; descending with additions succeeds from every place of the table;
a call that fails changes nothing; and a place keeps its path whatever is called later. -/
theorem run_implements_pathMap (name : String) (calls : List Call) :
    let t := (new name).run calls
    t.Implements t.entries ∧ (∀ c, t.Answers c (t.perform c)) ∧
      (∀ p names, t.ensureFrom p names =
        match t.ensurePath p names with
        | .ok (u, j) => (u, .ok j)
        | .error e => (t, .error e)) ∧
      (∀ p s, (t.perform (.add p s)).2 = .error (notFound p) ↔ t.size ≤ p) ∧
      (∀ p s path, t.pathTo? p = some path →
        ((∃ parent, (t.perform (.add p s)).2 = .error (.duplicateName parent s)) ↔
          t.entries (path ++ [s]) ≠ none)) ∧
      (∀ p names, p < t.size → ∃ j, (t.perform (.ensure p names)).2 = .ok (some j)) ∧
      (∀ c e, (t.perform c).2 = .error e → (t.perform c).1 = t) ∧
      ∀ more i path, t.pathTo? i = some path → (t.run more).pathTo? i = some path := by
  intro t
  have ht : t.Orderly := ((orderly_new name).run calls).orderly
  refine ⟨ht.implements, fun c => (ht.perform c).2, fun _ _ => ensureFrom_eq, ?_, ?_, ?_, ?_, ?_⟩
  · intro p s
    rw [(ht.perform (.add p s)).2.notFound_iff, ← Option.not_isSome_iff_eq_none,
      ht.isSome_pathTo?_iff, Nat.not_lt]
  · intro p s path hpath
    exact (ht.perform (.add p s)).2.duplicateName_iff hpath
  · intro p names hp
    obtain ⟨path, hpath⟩ := ht.exists_pathTo? hp
    exact (ht.perform (.ensure p names)).2.exists_of_ensure hpath
  · intro c e he
    have hanswer := (ht.perform c).2
    rw [← Prod.mk.eta (p := t.perform c), he] at hanswer
    exact hanswer.eq_of_error
  · intro more i path h
    exact (ht.run more).path h

end Tree

end ModuleAtlas
