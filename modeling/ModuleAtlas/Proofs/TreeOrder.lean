import ModuleAtlas.Proofs.ByteOrder
import ModuleAtlas.Proofs.Coverage
import ModuleAtlas.Proofs.PathMap
import ModuleAtlas.Proofs.Positions

/-!
# The order of the nodes

The listing from the root goes through the nodes in the order of their paths, where a path comes
before all that it is the beginning of, and names count by their bytes.  It is what a loop over a
stack of places gives, which lists the place on top and puts its children there instead, and which
ends after as many steps as there are nodes.

Where all names are segments of ids, the text of a path tells the path.  So the node that looking up
a text finds is the one whose path, as climbing tells it, is the text without its meaningless
segments.

## Main definitions

* `Tree.unwind` — the listing as a loop over a stack.
* `Tree.Before` — two places with increasing paths from a common place.
* `Tree.PathSorted` — all places once each, in the order of their paths, and parents before
  children.

## Main results

* `Tree.pairwise_below` — the listing below a place is in the order of the paths from there.
* `Tree.unwind_eq` — the loop and the recursion list the same.
* `Tree.Linked.pathOf_of_get?` — a node that is found has the path that was looked for.
* `Tree.run_pathSorted` — **from a new tree, whatever is called, the listing is in the order of the
  paths, and looking up and climbing undo each other.**
-/

namespace ModuleAtlas

/-- Steps give a list of results only if each of them has a result. -/
theorem exists_of_mapM_eq_ok {ε α β : Type} {f : α → Except ε β} {l : List α} : ∀ {bs : List β},
    l.mapM f = .ok bs → ∀ a ∈ l, ∃ b, f a = .ok b := by
  induction l with
  | nil => simp
  | cons a l ih =>
    intro bs h a' ha'
    rw [List.mapM_cons] at h
    cases ha : f a with
    | error e => rw [ha] at h; cases h
    | ok b =>
      cases hl : l.mapM f with
      | error e => rw [ha, hl] at h; cases h
      | ok bs' =>
        rcases List.mem_cons.1 ha' with rfl | ha'
        · exact ⟨b, ha⟩
        · exact ih hl a' ha'

/-- A list of results is that of the results of the steps. -/
theorem exists_map_of_mapM_eq_ok {ε α β : Type} [Nonempty β] {f : α → Except ε β} {l : List α}
    {bs : List β} (h : l.mapM f = .ok bs) : ∃ g : α → β, bs = l.map g ∧
      ∀ a ∈ l, f a = .ok (g a) := by
  have hstep : ∀ a ∈ l, ∃ b, f a = .ok b ∧ f a = .ok b := by
    intro a ha
    obtain ⟨b, hb⟩ := exists_of_mapM_eq_ok h a ha
    exact ⟨b, hb, hb⟩
  obtain ⟨g, hmap, hg⟩ := exists_mapM_eq_ok hstep
  rw [h] at hmap
  exact ⟨g, Except.ok.inj hmap, hg⟩

/-- In a list in some order, the one of two entries that cannot go second goes first. -/
theorem idxOf_lt_of_pairwise {α : Type} [DecidableEq α] {R : α → α → Prop} {l : List α}
    (hl : l.Pairwise R) {a b : α} (ha : a ∈ l) (hne : a ≠ b) (hab : ¬ R b a) :
    l.idxOf a < l.idxOf b := by
  rcases Nat.lt_trichotomy (l.idxOf a) (l.idxOf b) with hlt | heq | hgt
  · exact hlt
  · exact absurd (List.idxOf_inj ha |>.1 heq) hne
  · have ha := List.idxOf_lt_length_of_mem ha
    have hR := List.pairwise_iff_getElem.1 hl (l.idxOf b) (l.idxOf a) (by omega) ha hgt
    rw [List.getElem_idxOf, List.getElem_idxOf] at hR
    exact absurd hR hab

namespace Tree

variable {t : Tree} {depth i : Nat} {l : List Nat}

/-! ### What is listed below a place -/

/-- What is listed below a node are the node and the listings below its children, in the order of
their names. -/
theorem exists_lists_of_below (h : t.below (depth + 1) i = .ok l) :
    ∃ (n : Node) (lists : String × Nat → List Nat), t.node? i = some n ∧
      l = i :: n.children.toList.flatMap lists ∧
        ∀ p ∈ n.children.toList, t.below depth p.2 = .ok (lists p) := by
  cases hn : t.node? i with
  | none => simp [below, node, hn] at h
  | some n =>
    simp only [below, node, hn, SortedMap.values, List.mapM_map] at h
    cases hmap : n.children.toList.mapM (t.below depth ∘ Prod.snd) with
    | error f => simp [hmap, Except.map] at h
    | ok all =>
      obtain ⟨lists, rfl, hlists⟩ := exists_map_of_mapM_eq_ok hmap
      rw [hmap] at h
      refine ⟨n, lists, rfl, ?_, hlists⟩
      rw [List.flatMap_def]
      exact (Except.ok.inj h).symm

/-- A way down from a child is one from the node. -/
theorem descend?_cons_of_mem_children {n : Node} (hn : t.node? i = some n) {p : String × Nat}
    (hp : p ∈ n.children.toList) (path : List String) :
    t.descend? i (p.1 :: path) = t.descend? p.2 path := by
  rw [descend?_cons, (child?_eq_some_iff_mem hn).2 hp, Option.bind_some]

/-- What is listed below a place is reached from there. -/
theorem exists_descend?_of_mem_below : ∀ {i : Nat} {l : List Nat}, t.below depth i = .ok l →
    ∀ j ∈ l,
    ∃ path, t.descend? i path = some j := by
  induction depth with
  | zero => intro i l h; simp [below] at h
  | succ depth ih =>
    intro i l h j hj
    obtain ⟨n, lists, hn, rfl, hlists⟩ := exists_lists_of_below h
    rcases List.mem_cons.1 hj with rfl | hj
    · exact ⟨[], rfl⟩
    · obtain ⟨p, hp, hj⟩ := List.mem_flatMap.1 hj
      obtain ⟨path, hpath⟩ := ih (hlists p hp) j hj
      exact ⟨p.1 :: path, by rw [descend?_cons_of_mem_children hn hp, hpath]⟩

/-! ### The order of the listing -/

/-- Two places are reached from a common place, the first along a smaller path. -/
def Before (t : Tree) (i j k : Nat) : Prop :=
  ∃ path other, t.descend? i path = some j ∧ t.descend? i other = some k ∧ compare path other = .lt

/-- Places in order below a child are in order below the node. -/
theorem Before.of_child {n : Node} (hn : t.node? i = some n) {p : String × Nat}
    (hp : p ∈ n.children.toList) {j k : Nat} (h : t.Before p.2 j k) : t.Before i j k := by
  obtain ⟨path, other, hj, hk, hlt⟩ := h
  refine ⟨p.1 :: path, p.1 :: other, ?_, ?_, ?_⟩
  · rw [descend?_cons_of_mem_children hn hp, hj]
  · rw [descend?_cons_of_mem_children hn hp, hk]
  · exact (Ordered.compare_append [p.1] path other).trans hlt

/-- The listing below a place is in the order of the paths from there. -/
theorem pairwise_below : ∀ {i : Nat} {l : List Nat}, t.below depth i = .ok l →
    l.Pairwise (t.Before i) := by
  induction depth with
  | zero => intro i l h; simp [below] at h
  | succ depth ih =>
    intro i l h
    obtain ⟨n, lists, hn, rfl, hlists⟩ := exists_lists_of_below h
    rw [List.pairwise_cons, List.pairwise_flatMap]
    refine ⟨?_, ?_, ?_⟩
    · -- the way to the node itself is empty
      intro j hj
      obtain ⟨p, hp, hj⟩ := List.mem_flatMap.1 hj
      obtain ⟨path, hpath⟩ := exists_descend?_of_mem_below (hlists p hp) j hj
      refine ⟨[], p.1 :: path, rfl, ?_, Ordered.compare_append_of_ne_nil [] (List.cons_ne_nil _ _)⟩
      rw [descend?_cons_of_mem_children hn hp, hpath]
    · intro p hp
      exact (ih (hlists p hp)).imp fun h => h.of_child hn hp
    · -- the ways through different children differ in the name they begin with
      apply n.children.increasing.imp_of_mem
      intro p q hp hq hlt j hj k hk
      obtain ⟨path, hpath⟩ := exists_descend?_of_mem_below (hlists p hp) j hj
      obtain ⟨other, hother⟩ := exists_descend?_of_mem_below (hlists q hq) k hk
      refine ⟨p.1 :: path, q.1 :: other, ?_, ?_,
        Ordered.compare_append_cons_of_lt [] hlt path other⟩
      · rw [descend?_cons_of_mem_children hn hp, hpath]
      · rw [descend?_cons_of_mem_children hn hq, hother]

/-! ### A loop over a stack -/

/-- The listing as a loop over a stack: the place on top is listed, and its children go there
instead, the first of them on top; `steps` bounds the places that are listed. -/
def unwind (t : Tree) : Nat → List Nat → Except Fault (List Nat)
  | _, [] => .ok []
  | 0, _ :: _ => .error .endless
  | steps + 1, i :: stack =>
    match t.node i with
    | .error f => .error f
    | .ok n => (t.unwind steps (n.children.values ++ stack)).map (i :: ·)

/-- From a list of places the loop goes through the listings below them, if it does so for each
place. -/
theorem unwind_append {children : List (String × Nat)} {lists : String × Nat → List Nat}
    (h : ∀ p ∈ children, ∀ steps stack, t.unwind ((lists p).length + steps) (p.2 :: stack)
      = (t.unwind steps stack).map (lists p ++ ·)) (steps : Nat) (stack : List Nat) :
    t.unwind ((children.flatMap lists).length + steps) (children.map Prod.snd ++ stack)
      = (t.unwind steps stack).map (children.flatMap lists ++ ·) := by
  induction children with
  | nil =>
    simp only [List.flatMap_nil, List.length_nil, Nat.zero_add, List.map_nil, List.nil_append]
    cases t.unwind steps stack <;> rfl
  | cons p children ih =>
    have hrest := ih fun q hq => h q (List.mem_cons_of_mem _ hq)
    simp only [List.flatMap_cons, List.length_append, Nat.add_assoc, List.map_cons,
      List.cons_append]
    rw [h p List.mem_cons_self, hrest]
    cases t.unwind steps stack with
    | error f => rfl
    | ok rest => simp only [Except.map, List.append_assoc]

/-- The loop lists what is below the place on top, and goes on with the rest of the stack. -/
theorem unwind_of_below : ∀ {i : Nat} {l : List Nat}, t.below depth i = .ok l → ∀ steps stack,
    t.unwind (l.length + steps) (i :: stack) = (t.unwind steps stack).map (l ++ ·) := by
  induction depth with
  | zero => intro i l h; simp [below] at h
  | succ depth ih =>
    intro i l h steps stack
    obtain ⟨n, lists, hn, rfl, hlists⟩ := exists_lists_of_below h
    have hchildren := unwind_append (fun p hp => ih (hlists p hp)) steps stack
    rw [List.length_cons, Nat.add_right_comm]
    simp only [unwind, node, hn, SortedMap.values, hchildren]
    cases t.unwind steps stack with
    | error f => rfl
    | ok rest => rfl

/-- The loop and the recursion list the same, and the loop takes a step for each place that is
listed. -/
theorem unwind_eq (h : t.preorder = .ok l) : t.unwind l.length [root] = .ok l := by
  have hloop := unwind_of_below h 0 []
  rw [Nat.add_zero] at hloop
  rw [hloop]
  simp [unwind, Except.map]

/-! ### Paths -/

/-- All places of a table, once each and in the order of their paths. -/
structure PathSorted (t : Tree) (l : List Nat) : Prop where
  /-- Every place is listed once. -/
  perm : l.Perm (List.range t.size)
  /-- The paths increase strictly, name by name in the order of their bytes. -/
  ordered : l.Pairwise fun i j => ∃ path other, t.pathTo? i = some path ∧ t.pathTo? j = some other ∧
    path.map textBytes < other.map textBytes
  /-- A parent goes before its children. -/
  parent : ∀ p i, t.ParentOf p i → l.idxOf p < l.idxOf i

/-- Among places in the order of their paths a parent goes before its children. -/
theorem Linked.idxOf_lt_of_parentOf (ht : t.Linked) (hl : l.Pairwise (t.Before Tree.root)) {p : Nat}
    {path : List String} (hpath : t.descend? Tree.root path = some i) (h : t.ParentOf p i)
    (hp : p ∈ l) : l.idxOf p < l.idxOf i := by
  obtain ⟨above, s, rfl, habove⟩ := ht.exists_concat_of_parentOf h hpath
  have hlt : compare above (above ++ [s]) = .lt :=
    Ordered.compare_append_of_ne_nil above (List.cons_ne_nil s [])
  apply idxOf_lt_of_pairwise hl hp
  · rintro rfl
    rw [← ht.descend?_injective habove hpath] at hlt
    simp at hlt
  · rintro ⟨path, other, hi, hp, hgt⟩
    rw [ht.descend?_injective hi hpath, ht.descend?_injective hp habove] at hgt
    rw [Std.OrientedCmp.gt_of_lt hlt] at hgt
    simp at hgt

/-- The listing from the root is in the order of the paths. -/
theorem Orderly.exists_pathSorted (ht : t.Orderly) :
    ∃ l, t.preorder = .ok l ∧ t.unwind t.size [Tree.root] = .ok l ∧ t.PathSorted l := by
  obtain ⟨l, hl, hperm, -⟩ := (ht.covered.wellReached ht.linked).preorder
  have hbefore : l.Pairwise (t.Before Tree.root) := pairwise_below hl
  have hlength : l.length = t.size := hperm.length_eq.trans List.length_range
  refine ⟨l, hl, hlength ▸ unwind_eq hl, hperm, ?_, ?_⟩
  · apply hbefore.imp
    rintro i j ⟨path, other, hi, hj, hlt⟩
    exact ⟨path, other, ht.pathTo?_eq_some_iff.2 hi, ht.pathTo?_eq_some_iff.2 hj,
      map_textBytes_lt_of_compare hlt⟩
  · rintro p i ⟨n, hn, hparent⟩
    have h : t.ParentOf p i := ⟨n, hn, hparent⟩
    obtain ⟨path, hpath⟩ := ht.covered i (lt_size_of_node? hn)
    obtain ⟨above, -, -, habove⟩ := ht.linked.exists_concat_of_parentOf h hpath
    have hp : p ∈ l := hperm.mem_iff.2 (List.mem_range.2 (ht.linked.lt_size_of_descend? habove))
    exact ht.linked.idxOf_lt_of_parentOf hbefore hpath h hp

/-! ### Looking up and climbing -/

/-- A node that is found has the path that was looked for, without the meaningless segments. -/
theorem Linked.pathOf_of_get? (ht : t.Linked) {path : String} (h : t.get? Tree.root path = some i) :
    i < t.size ∧ t.pathOf i = .ok (normalizeId path) :=
  ⟨ht.lt_size_of_descend? h, ht.pathOf_eq h⟩

/-- Where the nodes below the root have segments of ids as names, these are the names that lead to
them. -/
theorem Linked.properlyNamed (ht : t.Linked)
    (hnames : ∀ i n, i ≠ Tree.root → t.node? i = some n → ProperSegment n.name) :
    t.ProperlyNamed := by
  intro p s i hs
  obtain ⟨n, hn, hparent, rfl⟩ := ht.child hs
  refine hnames i n ?_ hn
  rintro rfl
  obtain ⟨r, hr, hnone⟩ := ht.root
  rw [hr] at hn
  rw [← Option.some.inj hn, hnone] at hparent
  simp at hparent

/-- Where all names are segments of ids, a node is found under its path, however that is spelt. -/
theorem Orderly.get?_of_pathOf (ht : t.Orderly) (hnames : t.ProperlyNamed) {path : String}
    (hi : i < t.size) (h : t.pathOf i = .ok (normalizeId path)) :
    t.get? Tree.root path = some i := by
  obtain ⟨names, hdescend⟩ := ht.covered i hi
  rw [ht.linked.pathOf_eq hdescend] at h
  have hsegments : names = segments path :=
    joinSegments_injective (hnames.of_descend? hdescend) (fun _ => properSegment_of_mem_segments)
      (Except.ok.inj h)
  rw [get?, ← hsegments, hdescend]

/-- **From a new tree, whatever is called and whether or not it fails, the listing from the root
gives every place once, in the order of the paths and each parent before its children, and the loop
over a stack gives the same in as many steps as there are places.  Looking up finds only nodes with
the path that is looked for, without its meaningless segments; and where all names below the root
are segments of ids, it finds all of them.**  A place beyond the table is never found, though its
path is that of the root. -/
theorem run_pathSorted (name : String) (calls : List Call) :
    let t := (new name).run calls
    (∃ l, t.preorder = .ok l ∧ t.unwind t.size [root] = .ok l ∧ t.PathSorted l) ∧
      (∀ path i, t.get? root path = some i → i < t.size ∧ t.pathOf i = .ok (normalizeId path)) ∧
        ((∀ i n, i ≠ root → t.node? i = some n → ProperSegment n.name) →
          ∀ path i, t.get? root path = some i ↔ i < t.size ∧
          t.pathOf i = .ok (normalizeId path)) := by
  intro t
  have ht : t.Orderly := ((orderly_new name).run calls).orderly
  refine ⟨ht.exists_pathSorted, fun _ _ => ht.linked.pathOf_of_get?, ?_⟩
  intro hnames path i
  refine ⟨ht.linked.pathOf_of_get?, ?_⟩
  rintro ⟨hi, h⟩
  exact ht.get?_of_pathOf (ht.linked.properlyNamed hnames) hi h

/-- A name with a slash has a path that does not lead back to it. -/
example :
    let t := (new "src").run [.ensure 0 ["b", "c"], .add 0 "a", .add 0 "b",
      .add 1 "a", .add 4 "é/z"]
    t.preorder = .ok [0, 3, 1, 4, 5, 2] ∧ t.get? root "./b//c" = some 2 ∧ t.pathOf 2 = .ok "b/c" ∧
      t.pathOf 5 = .ok "b/a/é/z" ∧ t.get? root "b/a/é/z" = none := by with_unfolding_all decide

end Tree

end ModuleAtlas
