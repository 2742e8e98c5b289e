import ModuleAtlas.Namespace.Closure
import ModuleAtlas.Proofs.SegmentLaws
import ModuleAtlas.Proofs.TreeLinks

/-!
# Resolution of module ids

In a name space whose trees pass their checks, going down by the segments of an id never runs into a
fault, and the node it ends at is found in one way only: the segments are those of an alias,
followed by the path of the node in the tree that is mounted there.

## Main definitions

* `Namespace.Sound` — all mounted trees pass their checks.
* `Namespace.Finds` — the node that is found at an id.
* `Namespace.Backs` — the source file that is found at an id.

## Main results

* `Namespace.exists_resolve` — **in a sound name space every id resolves without a fault.**
* `Namespace.exists_row_of_backs` — the file at an id is a row of a mounted tree, and its path
  follows the alias of the tree.
* `Namespace.definition?_of_backs`, `Namespace.definition?_of_not_backs` — definitions are those of
  files.
-/

namespace ModuleAtlas

/-! ### Mounted trees -/

namespace Dir

/-- What is mounted in a child directory, or listed below it, is listed. -/
theorem mem_bindingsOf {place : List String} {s : String} {c : Dir} {children : List (String × Dir)}
    {b : List String × Tree} (hc : (s, c) ∈ children)
    (hb : b ∈ c.mount.toList.map (place ++ [s], ·) ++ c.bindings (place ++ [s])) :
    b ∈ bindingsOf place children := by
  induction children with
  | nil => simp at hc
  | cons q children ih =>
    obtain ⟨s', c'⟩ := q
    rw [bindingsOf]
    rcases List.mem_cons.1 hc with h | h
    · obtain ⟨rfl, rfl⟩ := Prod.mk.inj h
      exact List.mem_append_left _ hb
    · exact List.mem_append_right _ (ih h)

theorem mem_bindings_of_child? {place : List String} {s : String} {d c : Dir}
    {b : List String × Tree} (hc : d.child? s = some c)
    (hb : b ∈ c.mount.toList.map (place ++ [s], ·) ++ c.bindings (place ++ [s])) :
    b ∈ d.bindings place := by
  obtain ⟨mount, children⟩ := d
  obtain ⟨s', hmem, he⟩ := Ordered.exists_mem_of_lookup hc
  rw [← Std.LawfulEqOrd.compare_eq_iff_eq.1 he] at hmem
  rw [bindings]
  exact mem_bindingsOf hmem hb

/-- A tree that is mounted below a directory is listed with the way that leads to it. -/
theorem mem_bindings_of_at? {t : Tree} : ∀ {path place : List String} {d e : Dir}, path ≠ [] →
    d.at? path = some e → e.mount = some t → (place ++ path, t) ∈ d.bindings place := by
  intro path
  induction path with
  | nil => intro place d e h; exact absurd rfl h
  | cons s path ih =>
    intro place d e _ he ht
    rw [at?_cons] at he
    obtain ⟨c, hc, he⟩ := Option.bind_eq_some_iff.1 he
    apply mem_bindings_of_child? hc
    cases path with
    | nil =>
      have hce : c = e := Option.some.inj he
      rw [hce, ht]
      simp
    | cons s' path =>
      have hbelow : (place ++ [s] ++ s' :: path, t) ∈ c.bindings (place ++ [s]) :=
        ih (by simp) he ht
      rw [List.append_assoc, List.singleton_append] at hbelow
      exact List.mem_append_right _ hbelow

theorem at?_concat {d e : Dir} {path : List String} (h : d.at? path = some e) (s : String) :
    d.at? (path ++ [s]) = e.child? s := by
  rw [at?, List.foldlM_append]
  show (d.at? path).bind (fun e => e.at? [s]) = _
  rw [h]
  show e.at? [s] = _
  rw [at?_cons]
  cases e.child? s <;> rfl

end Dir

namespace Namespace

/-- All mounted trees pass their checks. -/
def Sound (ns : Namespace) : Prop := ∀ b ∈ ns.bindings, b.2.isIntact = true

instance (ns : Namespace) : Decidable ns.Sound := inferInstanceAs (Decidable (∀ b ∈ ns.bindings, _))

theorem Sound.linked {ns : Namespace} (hns : ns.Sound) {b : List String × Tree}
    (hb : b ∈ ns.bindings) : b.2.Linked := Tree.linked_of_isIntact (hns b hb)

/-- A way down a mounted tree ends in its table. -/
theorem Sound.exists_node {ns : Namespace} (hns : ns.Sound) {top below : List String} {t : Tree}
    {i : Nat} (hb : (top, t) ∈ ns.bindings) (hd : t.descend? Tree.root below = some i) :
    ∃ n, t.node? i = some n := by
  have hlinked : t.Linked := hns.linked hb
  obtain ⟨r, hr, -⟩ := hlinked.root
  exact hlinked.exists_node?_of_descend? hr hd

theorem mem_bindings_of_at? {ns : Namespace} {path : List String} {d : Dir} {t : Tree}
    (hpath : path ≠ []) (hd : ns.root.at? path = some d) (ht : d.mount = some t) :
    (path, t) ∈ ns.bindings := by
  have hmem : ([] ++ path, t) ∈ ns.root.bindings [] := Dir.mem_bindings_of_at? hpath hd ht
  exact hmem

end Namespace

/-! ### Positions -/

/-- A position agrees with the segments that lead to it: the directory is the one they name, and the
node lies below an alias by the rest of them. -/
structure View.At (ns : Namespace) (path : List String) (v : View) : Prop where
  /-- The directory is the one that the segments name. -/
  dir : ∀ {d : Dir}, v.dir = some d → ns.root.at? path = some d
  /-- The node is reached from the root of a mounted tree by the segments after its alias. -/
  place : ∀ {p : Place}, v.place = some p → ∃ top below, path = top ++ below ∧
    (top, p.tree) ∈ ns.bindings ∧ p.tree.descend? Tree.root below = some p.id

namespace View

variable {ns : Namespace} {path : List String} {v : View}

theorem at_view (ns : Namespace) : View.At ns [] ns.view where
  dir := id
  place := fun h => by simp [Namespace.view] at h

/-- The node of a position of a sound name space is in its table. -/
theorem At.exists_node (hns : ns.Sound) (hv : v.At ns path) {p : Place} (hp : v.place = some p) :
    ∃ n, p.tree.node? p.id = some n := by
  obtain ⟨top, below, -, hb, hd⟩ := hv.place hp
  exact hns.exists_node hb hd

theorem dirBelow_eq (hv : v.At ns path) {s : String} {d : Dir} (h : v.dirBelow s = some d) :
    ns.root.at? (path ++ [s]) = some d := by
  obtain ⟨e, he, hd⟩ := Option.bind_eq_some_iff.1 h
  rw [Dir.at?_concat (hv.dir he), hd]

/-- The node of a child lies below an alias too: a tree that is mounted in the child begins anew. -/
theorem exists_of_placeBelow (hv : v.At ns path) {s : String} {p : Place}
    (h : v.placeBelow s = some p) :
    ∃ top below, path ++ [s] = top ++ below ∧ (top, p.tree) ∈ ns.bindings ∧
      p.tree.descend? Tree.root below = some p.id := by
  rw [placeBelow] at h
  -- a tree that is mounted in the child comes before the node of the tree above
  split at h
  · next t ht =>
    obtain ⟨d, hd, ht⟩ := Option.bind_eq_some_iff.1 ht
    obtain rfl := Option.some.inj h
    have hmem := Namespace.mem_bindings_of_at? (by simp) (dirBelow_eq hv hd) ht
    exact ⟨path ++ [s], [], by simp, hmem, rfl⟩
  · obtain ⟨q, hq, hp⟩ := Option.bind_eq_some_iff.1 h
    obtain ⟨top, below, hpath, hb, hdescend⟩ := hv.place hq
    obtain ⟨i, hi, rfl⟩ := Option.map_eq_some_iff.1 hp
    refine ⟨top, below ++ [s], ?_, hb, ?_⟩
    · rw [hpath, List.append_assoc]
    · rw [Tree.descend?_concat, hdescend]
      exact hi

/-- A step to a child runs into no fault, and keeps the agreement. -/
theorem At.exists_child (hns : ns.Sound) (hv : v.At ns path) (s : String) :
    ∃ c, v.child s = .ok c ∧ ∀ w, c = some w → w.At ns (path ++ [s]) := by
  cases hd : v.dirBelow s with
  | some d =>
    refine ⟨some ⟨s, some d, v.placeBelow s⟩, by simp only [child, hd], ?_⟩
    rintro w ⟨⟩
    refine ⟨?_, ?_⟩
    · rintro e ⟨⟩
      exact dirBelow_eq hv hd
    · intro p hp
      exact exists_of_placeBelow hv hp
  | none =>
    cases hp : v.placeBelow s with
    | none => exact ⟨none, by simp only [child, hd, hp], by simp⟩
    | some p =>
      -- the one fault would be a place beyond the table
      have hplace := exists_of_placeBelow hv hp
      obtain ⟨top, below, -, hb, hdescend⟩ := hplace
      obtain ⟨n, hn⟩ := hns.exists_node hb hdescend
      have hnode : p.node = .ok n := by simp only [Place.node, Tree.node, hn]
      refine ⟨some ⟨n.name, none, some p⟩, by simp only [child, hd, hp, hnode]; rfl, ?_⟩
      rintro w ⟨⟩
      refine ⟨by simp, ?_⟩
      rintro q ⟨⟩
      exact exists_of_placeBelow hv hp

theorem At.exists_descend (hns : ns.Sound) : ∀ {segs path : List String} {v : View}, v.At ns path →
    ∃ c, v.descend segs = .ok c ∧ ∀ w, c = some w → w.At ns (path ++ segs) := by
  intro segs
  induction segs with
  | nil =>
    intro path v hv
    refine ⟨some v, rfl, ?_⟩
    rintro w ⟨⟩
    simpa using hv
  | cons s segs ih =>
    intro path v hv
    obtain ⟨c, hc, hat⟩ := hv.exists_child hns s
    cases c with
    | none => exact ⟨none, by simp [descend, hc], by simp⟩
    | some w =>
      obtain ⟨e, he, hat'⟩ := ih (hat w rfl)
      rw [List.append_assoc, List.singleton_append] at hat'
      exact ⟨e, by rw [descend_cons_of_child hc, he], hat'⟩

end View

/-! ### Modules -/

namespace Namespace

variable {ns : Namespace} {id : String}

/-- **In a sound name space every id resolves without a fault.** -/
theorem exists_resolve (hns : ns.Sound) (id : String) :
    ∃ c, ns.resolve id = .ok c ∧ ∀ v, c = some v → v.At ns (segments id) := by
  obtain ⟨c, hc, hat⟩ : ∃ c, ns.view.descend (segments id) = .ok c ∧
      ∀ v, c = some v → v.At ns ([] ++ segments id) := (View.at_view ns).exists_descend hns
  exact ⟨c, hc, hat⟩

/-- The node `n` is found at an id. -/
def Finds (ns : Namespace) (id : String) (n : Node) : Prop :=
  ∃ v, ns.resolve id = .ok (some v) ∧ v.node? = .ok (some n)

/-- The node `n` is found at an id, and a source file backs it. -/
def Backs (ns : Namespace) (id : String) (n : Node) : Prop := ns.Finds id n ∧ n.isFile = true

theorem Finds.unique {m n : Node} (hm : ns.Finds id m) (hn : ns.Finds id n) : m = n := by
  obtain ⟨v, hv, hm⟩ := hm
  obtain ⟨w, hw, hn⟩ := hn
  rw [hv] at hw
  obtain rfl : v = w := Option.some.inj (Except.ok.inj hw)
  rw [hm] at hn
  exact Option.some.inj (Except.ok.inj hn)

theorem Backs.unique {m n : Node} (hm : ns.Backs id m) (hn : ns.Backs id n) : m = n :=
  hm.1.unique hn.1

/-- The file at an id is a row of a mounted tree, and its path follows the alias of the tree. -/
theorem exists_row_of_backs (hns : ns.Sound) {n : Node} (h : ns.Backs id n) :
    ∃ top t below i, (top, t) ∈ ns.bindings ∧ t.descend? Tree.root below = some i ∧
      t.node? i = some n ∧ segments id = top ++ below := by
  obtain ⟨⟨v, hv, hn⟩, -⟩ := h
  obtain ⟨c, hc, hat⟩ := exists_resolve hns id
  rw [hv] at hc
  have hview : v.At ns (segments id) := hat v (Except.ok.inj hc).symm
  rw [View.node?] at hn
  split at hn
  · simp at hn
  · next p hp =>
    obtain ⟨top, below, hpath, hb, hd⟩ := hview.place hp
    obtain ⟨m, hm⟩ := hview.exists_node hns hp
    have hnode : p.node = .ok m := by simp only [Place.node, Tree.node, hm]
    rw [hnode] at hn
    obtain rfl : m = n := Option.some.inj (Except.ok.inj hn)
    exact ⟨top, p.tree, below, p.id, hb, hd, hm, hpath⟩

theorem definition?_of_backs {n : Node} (h : ns.Backs id n) :
    ns.definition? id = .ok (some n.deps.define) := by
  obtain ⟨⟨v, hv, hn⟩, hfile⟩ := h
  simp only [definition?, hv, hn, Except.map, Option.filter_some, hfile]
  rfl

theorem definition?_of_not_backs (hns : ns.Sound) (h : ∀ n, ¬ ns.Backs id n) :
    ns.definition? id = .ok none := by
  obtain ⟨c, hc, hat⟩ := exists_resolve hns id
  cases c with
  | none => simp only [definition?, hc]
  | some v =>
    have hv : v.At ns (segments id) := hat v rfl
    cases hp : v.place with
    | none =>
      have hnone : v.node? = .ok none := by rw [View.node?, hp]
      simp only [definition?, hc, hnone]
      rfl
    | some p =>
      obtain ⟨n, hn⟩ := hv.exists_node hns hp
      have hnode : v.node? = .ok (some n) := by
        simp only [View.node?, hp, Place.node, Tree.node, hn]
        rfl
      have hfile : n.isFile = false := by
        rw [← Bool.not_eq_true]
        intro hfile
        exact h n ⟨⟨v, hc, hnode⟩, hfile⟩
      simp only [definition?, hc, hnode, Except.map, Option.filter_some, hfile]
      rfl

end Namespace

end ModuleAtlas
