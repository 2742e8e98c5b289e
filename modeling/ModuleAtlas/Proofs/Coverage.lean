import Mathlib.Data.Fintype.EquivFin
import Mathlib.Data.List.Perm.Basic
import Mathlib.Logic.Relation
import ModuleAtlas.Proofs.TreeShape

/-!
# Coverage of checked tables

The check of a table looks at each link by itself.  It is meant to make sure that every node is
reached from the root in one way, so that listing from the root gives every node once and climbing
ends at every node.  This follows exactly if no node is its own ancestor: a cycle of nodes that name
each other as parent and child passes the check, though nothing above leads to it.

## Main definitions

* `Tree.ParentOf`, `Tree.Acyclic` — the links upwards, and that they do not run in a circle.
* `Tree.WellReached` — what the check is meant to make sure of.

## Main results

* `Tree.covered_iff_acyclic` — in an attached table every node is reached exactly if there is no
  circle.
* `Tree.wellReached_iff_acyclic` — **the check keeps its promise exactly for tables without
  circles.**
* `Tree.not_wellReached_selfNested` — a table that passes its check and is not covered.
-/

namespace ModuleAtlas.Tree

variable {t : Tree}

/-! ### Links upwards -/

/-- The node at `i` names the node at `p` as its parent. -/
def ParentOf (t : Tree) (p i : Nat) : Prop := ∃ n, t.node? i = some n ∧ n.parent = some p

/-- No node is its own ancestor. -/
def Acyclic (t : Tree) : Prop := ∀ i, ¬ Relation.TransGen t.ParentOf i i

/-- Links upwards that lower a rank do not run in a circle. -/
theorem acyclic_of_lt {rank : Nat → Nat} (h : ∀ p i, t.ParentOf p i → rank p < rank i) :
    t.Acyclic := by
  have hlt : ∀ {p i}, Relation.TransGen t.ParentOf p i → rank p < rank i := by
    intro p i hpi
    induction hpi with
    | single hpi => exact h _ _ hpi
    | tail _ hpi ih => exact Nat.lt_trans ih (h _ _ hpi)
  intro i hi
  exact Nat.lt_irrefl _ (hlt hi)

/-- The parent of a node with a path has the path without its last segment. -/
theorem Linked.exists_concat_of_parentOf (ht : t.Linked) {p i : Nat} (h : t.ParentOf p i)
    {path : List String} (hpath : t.descend? Tree.root path = some i) :
    ∃ above s, path = above ++ [s] ∧
      t.descend? Tree.root above = some p := by
  obtain ⟨n, hn, hparent⟩ := h
  rcases List.eq_nil_or_concat path with rfl | ⟨above, s, rfl⟩
  · obtain ⟨r, hr, hnone⟩ := ht.root
    rw [← Option.some.inj hpath, hr] at hn
    rw [← Option.some.inj hn, hnone] at hparent
    simp at hparent
  · rw [List.concat_eq_append, descend?_concat] at hpath
    obtain ⟨q, hq, hs⟩ := Option.bind_eq_some_iff.1 hpath
    obtain ⟨m, hm, hqm, -⟩ := ht.child hs
    rw [hn] at hm
    rw [← Option.some.inj hm, hparent] at hqm
    exact ⟨above, s, List.concat_eq_append, Option.some.inj hqm ▸ hq⟩

/-- An ancestor of a node with a path has a shorter path. -/
theorem Linked.exists_shorter_of_transGen (ht : t.Linked) {j i : Nat}
    (h : Relation.TransGen t.ParentOf j i) {path : List String}
    (hpath : t.descend? Tree.root path = some i) :
    ∃ above, t.descend? Tree.root above = some j ∧ above.length < path.length := by
  induction h using Relation.TransGen.head_induction_on with
  | single h =>
    obtain ⟨above, s, rfl, habove⟩ := ht.exists_concat_of_parentOf h hpath
    exact ⟨above, habove, by simp⟩
  | head h _ ih =>
    obtain ⟨below, hbelow, hlt⟩ := ih
    obtain ⟨above, s, rfl, habove⟩ := ht.exists_concat_of_parentOf h hbelow
    rw [List.length_append, List.length_singleton] at hlt
    exact ⟨above, habove, by omega⟩

/-- In an attached table every node is reached exactly if there is no circle. -/
theorem covered_iff_acyclic (ht : t.Linked) (hattached : t.Attached) : t.Covered ↔ t.Acyclic := by
  constructor
  · intro hcovered i hcycle
    obtain ⟨p, -, n, hn, -⟩ := Relation.TransGen.tail'_iff.1 hcycle
    obtain ⟨path, hpath⟩ := hcovered i (lt_size_of_node? hn)
    -- the node would have two paths of different lengths
    obtain ⟨above, habove, hlt⟩ := ht.exists_shorter_of_transGen hcycle hpath
    rw [ht.descend?_injective habove hpath] at hlt
    exact absurd hlt (Nat.lt_irrefl _)
  · intro hacyclic
    -- without circles the links upwards are well-founded, for the table is finite
    let above : Fin t.size → Fin t.size → Prop := fun p i => Relation.TransGen t.ParentOf p i
    have hirrefl : Std.Irrefl above := ⟨fun i => hacyclic i⟩
    have htrans : IsTrans (Fin t.size) above := ⟨fun _ _ _ => Relation.TransGen.trans⟩
    have hwf : WellFounded above := Finite.wellFounded_of_trans_of_irrefl above
    suffices h : ∀ i : Fin t.size, ∃ path, t.descend? root path = some i.1 from fun i hi =>
        h ⟨i, hi⟩
    intro i
    induction i using hwf.induction with
    | _ i ih =>
      by_cases hroot : i.1 = root
      · exact ⟨[], congrArg some hroot.symm⟩
      · obtain ⟨p, s, hs⟩ := hattached i hroot i.2
        obtain ⟨n, hn, hparent, -⟩ := ht.child hs
        obtain ⟨m, hm, -⟩ := exists_node?_of_child? hs
        obtain ⟨path, hpath⟩ := ih ⟨p, lt_size_of_node? hm⟩ (.single ⟨n, hn, hparent⟩)
        refine ⟨path ++ [s], ?_⟩
        rw [descend?_concat, hpath]
        exact hs

/-! ### What the check is meant to make sure of -/

/-- Every node is reached from the root, in one way, listing from the root gives all nodes once
each, with all the files among them, and climbing ends. -/
structure WellReached (t : Tree) : Prop where
  /-- Every node has one path. -/
  reached : ∀ i, i < t.size → ∃! path, t.descend? root path = some i
  /-- Listing from the root gives all nodes, and meets all files. -/
  preorder : ∃ l, t.preorder = .ok l ∧ l.Perm (List.range t.size) ∧
    t.fileCount = l.countP fun i => (t.node? i).any Node.isFile
  /-- Climbing ends, and tells a path. -/
  pathOf : ∀ i, ∃ path, t.pathOf i = .ok path

theorem countP_getElem? {α : Type} (f : α → Bool) (l : List α) :
    ((List.range l.length).countP fun i => l[i]?.any f) = l.countP f := by
  induction l with
  | nil => rfl
  | cons a l ih =>
    rw [List.length_cons, List.range_succ_eq_map, List.countP_cons, List.countP_map,
      List.countP_cons, ← ih]
    congr 1

theorem fileCount_eq (t : Tree) :
    t.fileCount = (List.range t.size).countP fun i => (t.node? i).any Node.isFile := by
  have h := countP_getElem? Node.isFile t.nodes.toList
  rw [Array.length_toList] at h
  rw [fileCount, ← Array.countP_toList, ← h]
  simp only [Array.getElem?_toList]
  rfl

theorem Covered.wellReached (hcovered : t.Covered) (ht : t.Linked) : t.WellReached where
  reached := by
    intro i hi
    obtain ⟨path, hpath⟩ := hcovered i hi
    exact ⟨path, hpath, fun other hother => ht.descend?_injective hother hpath⟩
  preorder := by
    obtain ⟨l, hl, hnodup, hmem⟩ := ht.exists_preorder
    have hperm : l.Perm (List.range t.size) := by
      rw [List.perm_ext_iff_of_nodup hnodup List.nodup_range]
      intro i
      rw [hmem, List.mem_range]
      constructor
      · rintro ⟨path, hpath⟩
        exact ht.lt_size_of_descend? hpath
      · exact hcovered i
    refine ⟨l, hl, hperm, ?_⟩
    rw [fileCount_eq]
    exact (hperm.countP_eq _).symm
  pathOf := by
    intro i
    by_cases hi : i < t.size
    · obtain ⟨path, hpath⟩ := hcovered i hi
      exact ⟨_, ht.pathOf_eq hpath⟩
    · have hnone : t.node? i = none := node?_eq_none_iff.2 (by omega)
      exact ⟨"", by simp only [Tree.pathOf, climb, hnone]; rfl⟩

/-- The check of a table keeps its promise exactly for tables without circles. -/
theorem wellReached_iff_acyclic (h : t.check = .ok ()) : t.WellReached ↔ t.Acyclic := by
  obtain ⟨ht, hattached⟩ := check_eq_ok_iff.1 h
  rw [← covered_iff_acyclic ht hattached]
  constructor
  · intro hreached i hi
    obtain ⟨path, hpath, -⟩ := hreached.reached i hi
    exact ⟨path, hpath⟩
  · intro hcovered
    exact hcovered.wellReached ht

/-- A table whose last row is the child of the root, and the parent of the row in between. -/
def lateParent : Tree :=
  ⟨#[{ name := "src", children := .ofList [("a", 2)] },
    { name := "b", parent := some 2, modified := some 5 },
    { name := "a", parent := some 0, children := .ofList [("b", 1)] }]⟩

theorem wellReached_lateParent :
    lateParent.check = .ok () ∧ lateParent.Acyclic ∧ lateParent.WellReached := by
  have hcheck : lateParent.check = .ok () := by decide +kernel
  have hdepth : ∀ p i, lateParent.ParentOf p i → [0, 2, 1].getD p 0 < [0, 2, 1].getD i 0 := by
    rintro p i ⟨n, hn, hp⟩
    match i with
    | 0 => obtain rfl := Option.some.inj hn; nomatch hp
    | 1 => obtain rfl := Option.some.inj hn; obtain rfl := Option.some.inj hp; decide
    | 2 => obtain rfl := Option.some.inj hn; obtain rfl := Option.some.inj hp; decide
    | i + 3 => simp [lateParent, node?] at hn
  have hacyclic := acyclic_of_lt hdepth
  exact ⟨hcheck, hacyclic, (wellReached_iff_acyclic hcheck).2 hacyclic⟩

/-- A table with a file that names itself as its parent and its child. -/
def selfNested : Tree :=
  ⟨#[{ name := "src" },
    { name := "a", parent := some 1, children := .ofList [("a", 1)], modified := some 5 }]⟩

/-- The table passes its check, though its file is not reached from the root, is not listed, and has
no path. -/
theorem not_wellReached_selfNested :
    selfNested.check = .ok () ∧ selfNested.preorder = .ok [0] ∧ selfNested.fileCount = 1 ∧
      selfNested.pathOf 1 = .error .endless ∧ ¬ selfNested.WellReached := by
  have hpreorder : selfNested.preorder = .ok [0] := by decide +kernel
  refine ⟨by decide +kernel, hpreorder, by decide +kernel, by decide +kernel, ?_⟩
  intro h
  obtain ⟨l, hl, hperm, -⟩ := h.preorder
  rw [hpreorder] at hl
  obtain rfl := Except.ok.inj hl
  exact absurd hperm.length_eq (by decide)

end ModuleAtlas.Tree
