import Mathlib.Data.Fintype.Card
import Mathlib.Data.List.Nodup
import Mathlib.Tactic.Choose
import ModuleAtlas.Proofs.TreeLinks
import ModuleAtlas.Tree.Walk

/-!
# Shape of linked tables

In a linked table the nodes that can be reached from the root form a tree: a path is shorter than
the table, climbing from its end tells the path again, and listing downwards meets each reached node
once.  None of this depends on what links there are off the root.

A table passes its check exactly when it is linked and every node but the root has a link that leads
to it.

## Main definitions

* `Tree.Attached` — every node but the root is the child of some node.
* `Tree.Covered` — every node is reached from the root.

## Main results

* `Tree.Linked.length_lt_size` — paths are shorter than the table.
* `Tree.Linked.climb_eq`, `Tree.descend?_of_climb` — climbing and descending undo each other.
* `Tree.Linked.exists_preorder` — **listing from the root ends, and lists the reached nodes once
  each.**
* `Tree.check_eq_ok_iff` — **what the check of a table amounts to.**
-/

namespace ModuleAtlas

/-- A list of steps without faults gives the list of their results. -/
theorem mapM_eq_ok {ε α β : Type} {f : α → Except ε β} {g : α → β} {l : List α}
    (h : ∀ a ∈ l, f a = .ok (g a)) : l.mapM f = .ok (l.map g) := by
  induction l with
  | nil => rfl
  | cons a l ih =>
    rw [List.mapM_cons, h a List.mem_cons_self, ih fun b hb => h b (List.mem_cons_of_mem _ hb)]
    rfl

/-- Steps that all succeed, each with a result as asked for, give a list of such results. -/
theorem exists_mapM_eq_ok {ε α β : Type} [Nonempty β] {f : α → Except ε β} {P : α → β → Prop}
    {l : List α} (h : ∀ a ∈ l, ∃ b, f a = .ok b ∧ P a b) : ∃ g : α → β, l.mapM f = .ok (l.map g) ∧
      ∀ a ∈ l, P a (g a) := by
  have hstep : ∀ a, ∃ b, a ∈ l → f a = .ok b ∧ P a b := by
    intro a
    by_cases ha : a ∈ l
    · obtain ⟨b, hb⟩ := h a ha
      exact ⟨b, fun _ => hb⟩
    · exact ⟨Classical.arbitrary β, fun hmem => absurd hmem ha⟩
  choose g hg using hstep
  exact ⟨g, mapM_eq_ok fun a ha => (hg a ha).1, fun a ha => (hg a ha).2⟩

namespace Tree

variable {t : Tree}

/-! ### Paths -/

/-- A path ends at a node of the table. -/
theorem Linked.exists_node?_of_path (ht : t.Linked) {path : List String} {i : Nat}
    (h : t.descend? Tree.root path = some i) : ∃ n, t.node? i = some n := by
  obtain ⟨r, hr, -⟩ := ht.root
  exact ht.exists_node?_of_descend? hr h

/-- Every part of a way down from its start leads somewhere. -/
theorem exists_descend?_take {i j : Nat} {path : List String}
    (h : t.descend? i path = some j) (k : Nat) : ∃ m, t.descend? i (path.take k) = some m := by
  rw [← List.take_append_drop k path, descend?_append] at h
  obtain ⟨m, hm, -⟩ := Option.bind_eq_some_iff.1 h
  exact ⟨m, hm⟩

theorem Linked.lt_size_of_descend? (ht : t.Linked) {path : List String} {i : Nat}
    (h : t.descend? Tree.root path = some i) : i < t.size := by
  obtain ⟨n, hn⟩ := ht.exists_node?_of_path h
  exact lt_size_of_node? hn

/-- Paths are shorter than the table, since the nodes on a path differ from each other. -/
theorem Linked.length_lt_size (ht : t.Linked) {path : List String} {i : Nat}
    (h : t.descend? Tree.root path = some i) : path.length < t.size := by
  choose place hplace using exists_descend?_take h
  have hinjective : Function.Injective fun k : Fin (path.length + 1) =>
      (⟨place k, ht.lt_size_of_descend? (hplace k)⟩ : Fin t.size) := by
    intro k l hkl
    have hplaces : place k = place l := congrArg Fin.val hkl
    have htake : path.take k = path.take l := ht.descend?_injective (hplace k) (hplaces ▸ hplace l)
    have hlength := congrArg List.length htake
    rw [List.length_take, List.length_take] at hlength
    apply Fin.ext
    omega
  have hcard := Fintype.card_le_of_injective _ hinjective
  rw [Fintype.card_fin, Fintype.card_fin] at hcard
  exact hcard

/-! ### Attached and covered tables -/

/-- Every node but the root is the child of some node. -/
def Attached (t : Tree) : Prop := ∀ i, i ≠ root → i < t.size → ∃ p s, t.child? p s = some i

/-- Every node is reached from the root. -/
def Covered (t : Tree) : Prop := ∀ i, i < t.size → ∃ path, t.descend? root path = some i

theorem Covered.attached (h : t.Covered) : t.Attached := by
  intro i hroot hi
  obtain ⟨path, hpath⟩ := h i hi
  rcases List.eq_nil_or_concat path with rfl | ⟨above, s, rfl⟩
  · exact absurd (Option.some.inj hpath).symm hroot
  · rw [List.concat_eq_append, descend?_concat] at hpath
    obtain ⟨p, -, hs⟩ := Option.bind_eq_some_iff.1 hpath
    exact ⟨p, s, hs⟩

/-! ### Climbing -/

/-- Climbing from the end of a path tells the path. -/
theorem Linked.climb_eq (ht : t.Linked) {path : List String} : ∀ {steps i : Nat},
    t.descend? Tree.root path = some i → path.length < steps → t.climb steps i = .ok path := by
  induction path using List.reverseRecOn with
  | nil =>
    intro steps i h hsteps
    obtain ⟨k, rfl⟩ : ∃ k, steps = k + 1 := ⟨steps - 1, by omega⟩
    obtain ⟨r, hr, hparent⟩ := ht.root
    obtain rfl : Tree.root = i := Option.some.inj h
    simp only [climb, hr, hparent]
  | append_singleton path s ih =>
    intro steps i h hsteps
    rw [List.length_append, List.length_singleton] at hsteps
    obtain ⟨k, rfl⟩ : ∃ k, steps = k + 1 := ⟨steps - 1, by omega⟩
    rw [descend?_concat] at h
    obtain ⟨p, hp, hs⟩ := Option.bind_eq_some_iff.1 h
    obtain ⟨n, hn, hparent, rfl⟩ := ht.child hs
    simp only [climb, hn, hparent, ih hp (show path.length < k by omega)]

theorem Linked.pathOf_eq (ht : t.Linked) {path : List String} {i : Nat}
    (h : t.descend? Tree.root path = some i) : t.pathOf i = .ok (joinSegments path) := by
  have hlength := ht.length_lt_size h
  rw [pathOf, ht.climb_eq h (by omega)]
  rfl

/-- Climbing from an attached node of a linked table leads along one of its paths. -/
theorem descend?_of_climb (ht : t.Linked) (hattached : t.Attached) {steps : Nat} :
    ∀ {i : Nat} {path : List String}, i < t.size → t.climb steps i = .ok path →
      t.descend? Tree.root path = some i := by
  induction steps with
  | zero => intro i path _ h; simp [climb] at h
  | succ steps ih =>
    intro i path hi h
    by_cases hroot : i = Tree.root
    · obtain ⟨r, hr, hparent⟩ := ht.root
      simp only [climb, hroot, hr, hparent] at h
      rw [← Except.ok.inj h, hroot]
      rfl
    · obtain ⟨p, s, hs⟩ := hattached i hroot hi
      obtain ⟨n, hn, hparent, rfl⟩ := ht.child hs
      obtain ⟨m, hm, -⟩ := exists_node?_of_child? hs
      simp only [climb, hn, hparent] at h
      split at h
      · simp at h
      · next names hnames =>
        rw [← Except.ok.inj h, descend?_concat, ih (lt_size_of_node? hm) hnames]
        exact hs

/-! ### Listing downwards -/

/-- Two paths to one node go on with the same name after what they share. -/
theorem Linked.name_eq_of_descend? (ht : t.Linked) {path more more' : List String} {s s' : String}
    {j : Nat} (h : t.descend? Tree.root (path ++ [s] ++ more) = some j)
    (h' : t.descend? Tree.root (path ++ [s'] ++ more') = some j) : s = s' := by
  have hpaths := ht.descend?_injective h h'
  rw [List.append_assoc, List.append_assoc, List.append_right_inj] at hpaths
  exact (List.cons.inj hpaths).1

/-- Below a node that is reached from the root the listing ends, and lists what the node reaches. -/
theorem Linked.exists_below (ht : t.Linked) {depth : Nat} : ∀ {path : List String} {i : Nat},
    t.descend? Tree.root path = some i → t.size ≤ path.length + depth →
      ∃ l, t.below depth i = .ok l ∧ l.Nodup ∧ ∀ j, j ∈ l ↔ ∃ more, t.descend? i more = some j := by
  -- each level adds a segment to the path, which stays shorter than the table
  induction depth with
  | zero =>
    intro path i hi hsize
    have := ht.length_lt_size hi
    omega
  | succ depth ih =>
    intro path i hi hsize
    obtain ⟨n, hn⟩ := ht.exists_node?_of_path hi
    have hchild : ∀ {s : String} {c : Nat}, (s, c) ∈ n.children.toList → t.child? i s = some c :=
      (child?_eq_some_iff_mem hn).2
    have hpath : ∀ {s : String} {c : Nat}, (s, c) ∈ n.children.toList →
        t.descend? Tree.root (path ++ [s]) = some c := by
      intro s c hc
      rw [descend?_concat, hi]
      exact hchild hc
    have hbeyond : ∀ {p : String × Nat} {more : List String} {j : Nat}, p ∈ n.children.toList →
        t.descend? p.2 more = some j → t.descend? Tree.root (path ++ [p.1] ++ more) = some j := by
      intro p more j hp hmore
      rw [descend?_append, hpath hp]
      exact hmore
    have hstep : ∀ p ∈ n.children.toList, ∃ l, t.below depth p.2 = .ok l ∧
        (l.Nodup ∧ ∀ j, j ∈ l ↔ ∃ more, t.descend? p.2 more = some j) := by
      intro p hp
      exact ih (hpath hp) (by rw [List.length_append, List.length_singleton]; omega)
    obtain ⟨lists, hmapM, hlists⟩ := exists_mapM_eq_ok hstep
    have hbelow : n.children.values.mapM (t.below depth) = .ok (n.children.toList.map lists) := by
      rw [SortedMap.values, List.mapM_map]
      exact hmapM
    refine ⟨i :: (n.children.toList.map lists).flatten, ?_, ?_, ?_⟩
    · simp only [below, node, hn, hbelow]
      rfl
    · rw [List.nodup_cons, ← List.flatMap_def, List.nodup_flatMap]
      refine ⟨?_, fun p hp => (hlists p hp).1, ?_⟩
      · -- the node is not below itself, since it has one path
        intro hmem
        obtain ⟨p, hp, hmem⟩ := List.mem_flatMap.1 hmem
        obtain ⟨more, hmore⟩ := ((hlists p hp).2 i).1 hmem
        have hlength := congrArg List.length (ht.descend?_injective hi (hbeyond hp hmore))
        simp only [List.length_append, List.length_singleton] at hlength
        omega
      · -- what two children reach has paths through different names
        apply n.children.increasing.imp_of_mem
        intro p q hp hq hpq j hj hj'
        obtain ⟨more, hmore⟩ := ((hlists p hp).2 j).1 hj
        obtain ⟨more', hmore'⟩ := ((hlists q hq).2 j).1 hj'
        rw [ht.name_eq_of_descend? (hbeyond hp hmore) (hbeyond hq hmore')] at hpq
        simp at hpq
    · intro j
      rw [List.mem_cons, ← List.flatMap_def, List.mem_flatMap]
      constructor
      · rintro (rfl | ⟨p, hp, hj⟩)
        · exact ⟨[], rfl⟩
        · obtain ⟨more, hmore⟩ := ((hlists p hp).2 j).1 hj
          refine ⟨p.1 :: more, ?_⟩
          rw [descend?_cons, hchild hp]
          exact hmore
      · rintro ⟨more, hmore⟩
        cases more with
        | nil => exact .inl (Option.some.inj hmore).symm
        | cons s more =>
          rw [descend?_cons] at hmore
          obtain ⟨c, hc, hmore⟩ := Option.bind_eq_some_iff.1 hmore
          have hp : (s, c) ∈ n.children.toList := (child?_eq_some_iff_mem hn).1 hc
          exact .inr ⟨(s, c), hp, ((hlists (s, c) hp).2 j).2 ⟨more, hmore⟩⟩

/-- **Listing from the root ends, and lists the reached nodes once each.** -/
theorem Linked.exists_preorder (ht : t.Linked) :
    ∃ l, t.preorder = .ok l ∧ l.Nodup ∧ ∀ i, i ∈ l ↔ ∃ path, t.descend? Tree.root path = some i :=
  have hroot : t.descend? Tree.root [] = some Tree.root := rfl
  ht.exists_below hroot (by rw [List.length_nil]; omega)

/-! ### The check -/

/-- The links of a table are those that descending follows. -/
theorem mem_links_iff {i j : Nat} {s : String} : ⟨i, s, j⟩ ∈ t.links ↔ t.child? i s = some j := by
  refine ⟨?_, mem_links⟩
  intro h
  obtain ⟨⟨n, k⟩, hn, hlink⟩ := List.mem_flatMap.1 h
  obtain ⟨⟨s', j'⟩, hs, hlink⟩ := List.mem_map.1 hlink
  obtain ⟨rfl, rfl, rfl⟩ := Link.mk.inj hlink
  rw [List.mem_zipIdx_iff_getElem?, Array.getElem?_toList] at hn
  exact (child?_eq_some_iff_mem hn).2 hs

/-- No link is listed twice. -/
theorem nodup_links (t : Tree) : t.links.Nodup := by
  rw [links, List.nodup_flatMap]
  refine ⟨?_, ?_⟩
  · rintro ⟨n, i⟩ -
    have hkeys : n.children.toList.Nodup := n.children.increasing.imp fun h he => by
      rw [he] at h
      simp at h
    exact hkeys.map fun p q hpq => Prod.ext (congrArg Link.name hpq) (congrArg Link.child hpq)
  · -- links of different rows have different parents
    have hrows : (t.nodes.toList.zipIdx.map Prod.snd).Nodup := by
      rw [List.zipIdx_map_snd]
      exact List.nodup_range'
    rw [List.Nodup, List.pairwise_map] at hrows
    apply hrows.imp
    intro p q hpq l hl hl'
    obtain ⟨x, -, rfl⟩ := List.mem_map.1 hl
    obtain ⟨y, -, hxy⟩ := List.mem_map.1 hl'
    exact hpq (congrArg Link.parent hxy).symm

/-- In a linked table no two links lead to one node. -/
theorem Linked.pairwise_links (ht : t.Linked) : t.links.Pairwise fun l m => l.child ≠ m.child := by
  apply (nodup_links t).imp_of_mem
  intro l m hl hm hlm hchild
  obtain ⟨n, hn, hparent, hname⟩ := ht.child (mem_links_iff.1 hl)
  obtain ⟨n', hn', hparent', hname'⟩ := ht.child (mem_links_iff.1 hm)
  rw [← hchild, hn] at hn'
  obtain rfl := Option.some.inj hn'
  apply hlm
  obtain ⟨p, s, c⟩ := l
  obtain ⟨q, s', c'⟩ := m
  rw [hparent] at hparent'
  simp only [Link.mk.injEq]
  exact ⟨Option.some.inj hparent', hname.symm.trans hname', hchild⟩

/-- Following links that are answered, and that lead to different nodes without a mark, marks those
nodes. -/
theorem exists_followAll {links : List Link} : ∀ {marks : Array Bool}, marks.size = t.size →
    (∀ l ∈ links, ∃ n, t.node? l.child = some n ∧ n.parent = some l.parent ∧ n.name = l.name) →
    (links.Pairwise fun l m => l.child ≠ m.child) → (∀ l ∈ links, marks[l.child]? ≠ some true) →
      ∃ after, t.followAll marks links = .ok after ∧ after.size = t.size ∧
        ∀ i, after[i]? = some true ↔ marks[i]? = some true ∨ ∃ l ∈ links, l.child = i := by
  induction links with
  | nil => intro marks hsize _ _ _; exact ⟨marks, rfl, hsize, by simp⟩
  | cons l links ih =>
    intro marks hsize hanswered hdistinct hfresh
    obtain ⟨n, hn, hparent, hname⟩ := hanswered l List.mem_cons_self
    have hlt : l.child < marks.size := hsize ▸ lt_size_of_node? hn
    have hmark : ∀ i, (marks.setIfInBounds l.child true)[i]? = some true ↔
        marks[i]? = some true ∨ l.child = i := by
      intro i
      by_cases hi : l.child = i
      · subst hi
        simp [hlt]
      · rw [Array.getElem?_setIfInBounds_ne hi]
        simp [hi]
    have hstep : t.follow marks l = .ok (marks.setIfInBounds l.child true) := by
      simp [follow, hn, hparent, hname, hfresh l List.mem_cons_self]
    obtain ⟨hne, hdistinct⟩ := List.pairwise_cons.1 hdistinct
    have hmarkedSize : (marks.setIfInBounds l.child true).size = t.size := by
      rw [Array.size_setIfInBounds, hsize]
    have hrest : ∀ m ∈ links, (marks.setIfInBounds l.child true)[m.child]? ≠ some true := by
      intro m hm hmarked
      rcases (hmark m.child).1 hmarked with hold | hsame
      · exact hfresh m (List.mem_cons_of_mem _ hm) hold
      · exact hne m hm hsame
    obtain ⟨after, hafter, hsize', hmarks⟩ :=
      ih hmarkedSize (fun m hm => hanswered m (List.mem_cons_of_mem _ hm)) hdistinct hrest
    refine ⟨after, by simp only [followAll, hstep, hafter], hsize', ?_⟩
    intro i
    rw [hmarks, hmark, or_assoc]
    simp

/-- The marks to begin with are on the root alone. -/
theorem initialMarks {i : Nat} (h : 0 < t.size) :
    ((Array.replicate t.size false).setIfInBounds root true)[i]? = some true ↔ i = root := by
  by_cases hi : root = i
  · subst hi
    simp [h]
  · rw [Array.getElem?_setIfInBounds_ne hi]
    simp [Ne.symm hi, Array.getElem?_replicate]

/-- The links of a linked table can all be followed, and they mark all nodes exactly if these are
attached. -/
theorem Linked.exists_marks (ht : t.Linked) :
    ∃ marks, t.followAll ((Array.replicate t.size false).setIfInBounds Tree.root true) t.links =
        .ok marks ∧
      (marks.all id = true ↔ t.Attached) := by
  obtain ⟨r, hr, hparent⟩ := ht.root
  have hpos : 0 < t.size := lt_size_of_node? hr
  -- no link leads to the root, which has no parent
  have hfresh : ∀ l ∈ t.links,
      ((Array.replicate t.size false).setIfInBounds Tree.root true)[l.child]? ≠ some true := by
    intro l hl hroot
    obtain ⟨n, hn, hp, -⟩ := ht.child (mem_links_iff.1 hl)
    rw [(initialMarks hpos).1 hroot, hr] at hn
    rw [← Option.some.inj hn, hparent] at hp
    simp at hp
  obtain ⟨marks, hmarks, hsize, hmarked⟩ := exists_followAll (by simp)
    (fun l hl => ht.child (mem_links_iff.1 hl)) ht.pairwise_links hfresh
  refine ⟨marks, hmarks, ?_⟩
  rw [Array.all_eq_true]
  constructor
  · intro hall i hroot hi
    have hmark : marks[i]? = some true := by
      rw [Array.getElem?_eq_getElem (hsize ▸ hi)]
      exact congrArg some (hall i (hsize ▸ hi))
    rcases (hmarked i).1 hmark with hinitial | ⟨⟨p, s, c⟩, hl, rfl⟩
    · exact absurd ((initialMarks hpos).1 hinitial) hroot
    · exact ⟨p, s, mem_links_iff.1 hl⟩
  · intro hattached i hi
    have hmark : marks[i]? = some true := by
      rw [hmarked]
      by_cases hroot : i = Tree.root
      · exact .inl ((initialMarks hpos).2 hroot)
      · obtain ⟨p, s, hs⟩ := hattached i hroot (hsize ▸ hi)
        exact .inr ⟨⟨p, s, i⟩, mem_links hs, rfl⟩
    rw [Array.getElem?_eq_getElem hi] at hmark
    exact Option.some.inj hmark

/-- **A table passes its check exactly when it is linked and all its nodes are attached.** -/
theorem check_eq_ok_iff : t.check = .ok () ↔ t.Linked ∧ t.Attached := by
  constructor
  · intro h
    have ht := linked_of_check h
    obtain ⟨r, hr, hparent⟩ := ht.root
    obtain ⟨marks, hmarks, hall⟩ := ht.exists_marks
    refine ⟨ht, hall.1 ?_⟩
    by_contra hunmarked
    simp only [check, hr, hparent, hmarks, if_neg hunmarked] at h
    simp at h
  · rintro ⟨ht, hattached⟩
    obtain ⟨r, hr, hparent⟩ := ht.root
    obtain ⟨marks, hmarks, hall⟩ := ht.exists_marks
    simp only [check, hr, hparent, hmarks, hall.2 hattached]
    rfl

end Tree

end ModuleAtlas
