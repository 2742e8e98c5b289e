import ModuleAtlas.Proofs.AliasDirs
import ModuleAtlas.Proofs.TreeShape

/-!
# Positions and aliases

The node at a position is decided by the longest alias that begins the segments which lead to it: it
is the node of the tree mounted there at the remaining segments.  A tree that lacks it is not made
up for by the tree of a shorter alias, and without such an alias there is no node.  A position is
there if it has a node, at the top, and above every alias.

The children that a position lists are those that looking up finds, each under its name and in the
order of the names.  So a walk along the listed children comes to an end, and lists the positions
that looking up reaches.

## Main definitions

* `AliasMap.Governs`, `AliasMap.Locates` — the longest alias that begins a path, and the node at the
  path.
* `View.Stands`, `View.Answers` — what is found at a path, as the aliases tell it.
* `View.Lists` — the names and the children of a position, as looking up tells them.
* `View.walk`, `Namespace.walk` — the paths of all positions, along the listed children.
* `Namespace.Projects` — all this together, for a name space and its aliases.
* `Tree.ProperlyNamed` — all names of a tree are segments of ids.

## Main results

* `AliasMap.Locates.concat` — the node a step further down.
* `View.exists_descend_answers` — **looking up finds the node that the longest alias governs.**
* `View.Stands.exists_lists` — listed children and children that are found agree.
* `View.Stands.exists_walk` — the walk ends, and lists what looking up reaches, each path once.
* `Namespace.projects_run` — **this holds after any calls with trees that pass their checks.**
* `Namespace.not_resolves_slashed` — a name with a slash is listed and cannot be looked up by its
  id.
-/

namespace ModuleAtlas

/-! ### The longest alias -/

namespace AliasMap

/-- The alias `top`, at which `t` is mounted, is the longest one that begins `path`. -/
structure Governs (m : AliasMap) (path top : List String) (t : Tree) : Prop where
  /-- The alias begins the path. -/
  begins : top <+: path
  /-- The tree is mounted there. -/
  mounted : m top = some t
  /-- No other alias that begins the path is longer. -/
  longest : ∀ other, other <+: path → m other ≠ none → other.length ≤ top.length

/-- What is found at a path: the node of the governing alias's tree at the remaining segments, if
the tree has it, and nothing if no alias governs the path. -/
structure Locates (m : AliasMap) (path : List String) (found : Option Place) : Prop where
  /-- The tree of the longest alias decides, also where it has no node. -/
  governed : ∀ {top rest : List String} {t : Tree}, m.Governs path top t → path = top ++ rest →
    found = (t.descend? Tree.root rest).map (Place.mk t)
  /-- Without an alias there is no node. -/
  ungoverned : (∀ top t, ¬ m.Governs path top t) → found = none

variable {m : AliasMap} {path top : List String} {s : String} {t : Tree}

theorem governs_self (h : m path = some t) : m.Governs path path t where
  begins := List.prefix_rfl
  mounted := h
  longest := fun _ hother _ => hother.length_le

/-- A path that is itself an alias is governed by it. -/
theorem Governs.eq_self (h : m.Governs path top t) (hpath : m path ≠ none) : top = path :=
  h.begins.eq_of_length_le (h.longest path List.prefix_rfl hpath)

/-- A step to a path that is no alias stays with the same alias. -/
theorem governs_concat_iff (h : m (path ++ [s]) = none) :
    m.Governs (path ++ [s]) top t ↔ m.Governs path top t := by
  have hbegins : ∀ {other}, m other ≠ none → (other <+: path ++ [s] ↔ other <+: path) := by
    intro other hother
    rw [List.prefix_concat_iff]
    refine ⟨?_, .inr⟩
    rintro (rfl | hbegins)
    · exact absurd h hother
    · exact hbegins
  constructor
  · rintro ⟨hb, hm, hlongest⟩
    exact ⟨(hbegins (by simp [hm])).1 hb, hm,
      fun other hother hne => hlongest other ((hbegins hne).2 hother) hne⟩
  · rintro ⟨hb, hm, hlongest⟩
    exact ⟨(hbegins (by simp [hm])).2 hb, hm,
      fun other hother hne => hlongest other ((hbegins hne).1 hother) hne⟩

theorem locates_nil (h : m [] = none) : m.Locates [] none where
  governed := by
    intro top rest t hgoverns _
    have htop : top = [] := List.prefix_nil.1 hgoverns.begins
    rw [← htop, hgoverns.mounted] at h
    simp at h
  ungoverned := fun _ => rfl

/-- The node a step further down: the root of a tree that is mounted there, or else the child of the
node. -/
theorem Locates.concat {found : Option Place} (h : m.Locates path found) (s : String) :
    m.Locates (path ++ [s]) (match m (path ++ [s]) with
      | some t => some ⟨t, Tree.root⟩
      | none => found.bind fun p => p.child? s) := by
  cases hs : m (path ++ [s]) with
  | some t =>
    refine ⟨?_, ?_⟩
    · intro top rest t' hgoverns hpath
      have htop : top = path ++ [s] := hgoverns.eq_self (by simp [hs])
      have htree : t = t' := by
        have hmounted := hgoverns.mounted
        rw [htop, hs] at hmounted
        exact Option.some.inj hmounted
      have hrest : rest = [] := by simpa [htop] using hpath
      rw [hrest, htree]
      rfl
    · intro hnone
      exact absurd (governs_self hs) (hnone _ _)
  | none =>
    refine ⟨?_, ?_⟩
    · intro top rest t hgoverns hpath
      have habove := (governs_concat_iff hs).1 hgoverns
      obtain ⟨more, rfl⟩ := habove.begins
      obtain rfl : more ++ [s] = rest := by simpa using hpath
      rw [h.governed habove rfl, Tree.descend?_concat]
      cases t.descend? Tree.root more <;> rfl
    · intro hnone
      have hfound : found = none := h.ungoverned fun top t hgoverns =>
        hnone top t ((governs_concat_iff hs).2 hgoverns)
      rw [hfound]
      rfl

/-- The node that is found belongs to the tree of an alias that begins the path. -/
theorem Locates.exists_tree {p : Place} (h : m.Locates path (some p)) :
    ∃ top rest, path = top ++ rest ∧ m top = some p.tree ∧
      p.tree.descend? Tree.root rest = some p.id := by
  by_cases hgoverned : ∃ top t, m.Governs path top t
  · obtain ⟨top, t, hgoverns⟩ := hgoverned
    obtain ⟨rest, hrest⟩ := hgoverns.begins
    obtain ⟨i, hi, rfl⟩ := Option.map_eq_some_iff.1 (h.governed hgoverns hrest.symm).symm
    exact ⟨top, rest, hrest.symm, hgoverns.mounted, hi⟩
  · have hnone := h.ungoverned fun top t hgoverns => hgoverned ⟨top, t, hgoverns⟩
    simp at hnone

end AliasMap

/-! ### What is found at a path -/

namespace View

/-- A position is what the directories and the aliases tell about the segments that lead to it. -/
structure Stands (ns : Namespace) (m : AliasMap) (path : List String) (v : View) : Prop where
  /-- The name is the last segment. -/
  name : v.name = path.getLastD ""
  /-- The directory is the one that the segments name, if there is one. -/
  dir : v.dir = ns.root.at? path
  /-- The node is the one that the longest alias governs. -/
  place : m.Locates path v.place
  /-- There is a directory or a node. -/
  there : v.dir.isSome ∨ v.place.isSome

/-- What looking up answers at a path: a position that stands there, or nothing if there is neither
a directory nor a node. -/
def Answers (ns : Namespace) (m : AliasMap) (path : List String) : Option View → Prop
  | some v => v.Stands ns m path
  | none => ns.root.at? path = none ∧ m.Locates path none

variable {ns : Namespace} {m : AliasMap} {path : List String} {v : View}

theorem stands_view (hns : ns.Holds m) : ns.view.Stands ns m [] where
  name := rfl
  dir := rfl
  place := AliasMap.locates_nil hns.top
  there := .inl rfl

theorem dirBelow_eq_at? (hv : v.Stands ns m path) (s : String) :
    v.dirBelow s = ns.root.at? (path ++ [s]) := by
  rw [dirBelow, hv.dir, Dir.at?_append]
  congr 1
  funext d
  rw [Dir.at?_cons]
  cases d.child? s <;> rfl

theorem locates_placeBelow (hns : ns.Holds m) (hv : v.Stands ns m path) (s : String) :
    m.Locates (path ++ [s]) (v.placeBelow s) := by
  have hmount : (v.dirBelow s).bind Dir.mount = m (path ++ [s]) := by
    rw [dirBelow_eq_at? hv, ← hns.mountAt, Dir.mountAt]
  rw [placeBelow, hmount]
  exact hv.place.concat s

/-- The node of a position is in its table. -/
theorem Stands.exists_node (hm : ∀ top t, m top = some t → t.Linked) (hv : v.Stands ns m path)
    {p : Place} (hp : v.place = some p) : ∃ n, p.tree.node? p.id = some n := by
  obtain ⟨top, rest, -, hmounted, hdescend⟩ := (hp ▸ hv.place).exists_tree
  exact (hm top p.tree hmounted).exists_node?_of_path hdescend

/-- A step to a child answers what is found a segment further down. -/
theorem Stands.exists_child (hns : ns.Holds m) (hm : ∀ top t, m top = some t → t.Linked)
    (hv : v.Stands ns m path) (s : String) :
    ∃ found, v.child s = .ok found ∧ View.Answers ns m (path ++ [s]) found ∧
      (found.isSome ↔ (v.dirBelow s).isSome ∨ (v.placeBelow s).isSome) := by
  have hplace := locates_placeBelow hns hv s
  have hdir := dirBelow_eq_at? hv s
  have hlast : s = (path ++ [s]).getLastD "" := by simp
  cases hd : v.dirBelow s with
  | some d =>
    refine ⟨some ⟨s, some d, v.placeBelow s⟩, by simp only [child, hd], ?_, by simp⟩
    exact ⟨hlast, hd.symm.trans hdir, hplace, .inl rfl⟩
  | none =>
    cases hp : v.placeBelow s with
    | none =>
      rw [hd] at hdir
      rw [hp] at hplace
      exact ⟨none, by simp only [child, hd, hp], ⟨hdir.symm, hplace⟩, by simp⟩
    | some p =>
      -- no tree is mounted here, so that the node is a child, and bears the name of the link
      obtain ⟨q, hq, hp'⟩ : ∃ q, v.place = some q ∧ q.child? s = some p := by
        rw [placeBelow, hd] at hp
        exact Option.bind_eq_some_iff.1 hp
      obtain ⟨i, hi, rfl⟩ := Option.map_eq_some_iff.1 hp'
      obtain ⟨top, rest, -, hmounted, -⟩ := (hq ▸ hv.place).exists_tree
      obtain ⟨n, hn, -, rfl⟩ := (hm top q.tree hmounted).child hi
      have hnode : Place.node ⟨q.tree, i⟩ = .ok n := by simp only [Place.node, Tree.node, hn]
      rw [hd] at hdir
      rw [hp] at hplace
      have hchild : v.child n.name = .ok (some ⟨n.name, none, some ⟨q.tree, i⟩⟩) := by
        simp only [child, hd, hp, hnode]
        rfl
      refine ⟨some ⟨n.name, none, some ⟨q.tree, i⟩⟩, hchild, ?_, by simp⟩
      exact ⟨hlast, hdir, hplace, .inr rfl⟩

theorem descend_concat (v : View) (path : List String) (s : String) : v.descend (path ++ [s]) =
    match v.descend path with
    | .error f => .error f
    | .ok none => .ok none
    | .ok (some w) => w.child s := by
  induction path generalizing v with
  | nil =>
    rw [List.nil_append, descend_nil, descend]
    show _ = v.child s
    rcases v.child s with f | _ | w <;> rfl
  | cons s' path ih =>
    rw [List.cons_append, descend, descend]
    rcases v.child s' with f | _ | w
    · rfl
    · rfl
    · exact ih w

/-- **Looking up finds the node that the longest alias governs.** -/
theorem exists_descend_answers (hns : ns.Holds m) (hm : ∀ top t, m top = some t → t.Linked)
    (path : List String) : ∃ found, ns.view.descend path = .ok found ∧
      View.Answers ns m path found := by
  induction path using List.reverseRecOn with
  | nil => exact ⟨some ns.view, rfl, stands_view hns⟩
  | append_singleton path s ih =>
    obtain ⟨found, hdescend, hanswers⟩ := ih
    cases found with
    | some v =>
      obtain ⟨below, hchild, hbelow, -⟩ := Stands.exists_child hns hm hanswers s
      exact ⟨below, by rw [descend_concat, hdescend]; exact hchild, hbelow⟩
    | none =>
      -- below nothing there is nothing, since an alias further down would have directories above it
      refine ⟨none, by rw [descend_concat, hdescend], ?_⟩
      have hdir : ns.root.at? (path ++ [s]) = none := by rw [Dir.at?_append, hanswers.1]; rfl
      have hmount : m (path ++ [s]) = none := by rw [← hns.mountAt, Dir.mountAt, hdir]; rfl
      have hplace := hanswers.2.concat s
      rw [hmount] at hplace
      exact ⟨hdir, hplace⟩

/-- A position is found exactly with a node, at the top, and above the aliases. -/
theorem Answers.isSome_iff (hns : ns.Holds m) {found : Option View}
    (h : View.Answers ns m path found) :
    found.isSome ↔ (found.bind View.place).isSome ∨ path = [] ∨ ∃ name, path <+: name ∧
      m name ≠ none := by
  have hdir : (ns.root.at? path).isSome ↔ path = [] ∨ ∃ name, path <+: name ∧ m name ≠ none := by
    rw [hns.kept.isSome_at?_iff]
    simp only [hns.mountAt]
  rw [← hdir]
  cases found with
  | none => simp [h.1]
  | some v =>
    rw [← h.dir]
    simpa using h.there.symm

/-! ### Listed children -/

/-- The names and the children of a position, as looking up tells them. -/
structure Lists (v : View) (names : SortedSet String) (l : List View) : Prop where
  /-- These are the names that the position tells. -/
  childNames : v.childNames = .ok names
  /-- These are the children that the position lists. -/
  children : v.children = .ok l
  /-- A child is found exactly by a name that is told. -/
  child : ∀ s, ∃ found, v.child s = .ok found ∧ (found.isSome ↔ s ∈ names.toList)
  /-- The names increase. -/
  increasing : names.toList.Pairwise fun s s' => compare s s' = .lt
  /-- The children bear the names, in their order. -/
  named : l.map View.name = names.toList
  /-- The children are what the names find. -/
  found : names.toList.map v.child = l.map fun w => .ok (some w)

/-- A listed child is found by its name. -/
theorem Lists.child_of_mem {names : SortedSet String} {l : List View} (h : v.Lists names l)
    {w : View} (hw : w ∈ l) : v.child w.name = .ok (some w) := by
  obtain ⟨i, hi, rfl⟩ := List.mem_iff_getElem.1 hw
  have hname : names.toList[i]? = some l[i].name := by
    rw [← h.named, List.getElem?_map, List.getElem?_eq_getElem hi, Option.map_some]
  have hfound := congrArg (·[i]?) h.found
  simpa [hname, hi] using hfound

/-- A way down goes through a listed child. -/
theorem Lists.exists_of_descend_cons {names : SortedSet String} {l : List View}
    (h : v.Lists names l) {s : String} {more : List String} {u : View}
    (hu : v.descend (s :: more) = .ok (some u)) :
    ∃ w ∈ l, w.name = s ∧ w.descend more = .ok (some u) := by
  obtain ⟨found, hfound, hsome⟩ := h.child s
  cases found with
  | none => simp [descend, hfound] at hu
  | some c =>
    have hs : s ∈ l.map View.name := by
      rw [h.named]
      exact hsome.1 rfl
    obtain ⟨w, hw, rfl⟩ := List.mem_map.1 hs
    have hcw : c = w := by
      rw [h.child_of_mem hw] at hfound
      exact (Option.some.inj (Except.ok.inj hfound)).symm
    refine ⟨w, hw, rfl, ?_⟩
    rwa [descend_cons_of_child (h.child_of_mem hw)] at hu

/-- The names that a position tells are those of directories and of nodes below. -/
theorem Stands.exists_childNames (hns : ns.Holds m) (hm : ∀ top t, m top = some t → t.Linked)
    (hv : v.Stands ns m path) : ∃ names, v.childNames = .ok names ∧
      ∀ s, s ∈ names.toList ↔ (v.dirBelow s).isSome ∨ (v.placeBelow s).isSome := by
  have hdirs : ∀ s, s ∈ (v.dir.map fun d => d.children.map (·.1)).getD [] ↔
      (v.dirBelow s).isSome := by
    intro s
    cases hd : v.dir with
    | none => simp [dirBelow, hd]
    | some d =>
      have hkept : d.Kept := (hns.kept.at? (hv.dir ▸ hd)).1
      simp only [dirBelow, hd, Option.map_some, Option.getD_some, Option.bind_some, Dir.child?]
      exact (Ordered.isSome_lookup_iff hkept.increasing).symm
  -- a tree that is mounted below hides a child of the node, though not its name
  have hplaces : ∀ s, (v.dirBelow s).isSome ∨ (v.place.bind fun p => p.child? s).isSome ↔
      (v.dirBelow s).isSome ∨ (v.placeBelow s).isSome := by
    intro s
    rw [placeBelow]
    cases hd : v.dirBelow s with
    | some d => simp
    | none => rfl
  cases hp : v.place with
  | none =>
    refine ⟨.ofList ((v.dir.map fun d => d.children.map (·.1)).getD []), ?_, fun s => ?_⟩
    · simp [childNames, node?, hp, Except.map]
    · rw [SortedSet.mem_ofList_iff, hdirs, ← hplaces, hp]
      simp
  | some p =>
    obtain ⟨n, hn⟩ := hv.exists_node hm hp
    have hkeys : ∀ s, s ∈ n.children.keys ↔ (p.child? s).isSome := by
      intro s
      rw [Place.child?, Option.isSome_map, Tree.child?_of_node? hn]
      exact (Ordered.isSome_lookup_iff n.children.increasing).symm
    refine ⟨.ofList ((v.dir.map fun d => d.children.map (·.1)).getD [] ++ n.children.keys),
      ?_, fun s => ?_⟩
    · simp [childNames, node?, hp, Place.node, Tree.node, hn, Except.map]
    · rw [SortedSet.mem_ofList_iff, List.mem_append, hdirs, hkeys, ← hplaces, hp]
      rfl

/-- Listed children and children that are found agree, and they stand where their names lead. -/
theorem Stands.exists_lists (hns : ns.Holds m) (hm : ∀ top t, m top = some t → t.Linked)
    (hv : v.Stands ns m path) :
    ∃ names l, v.Lists names l ∧ ∀ w ∈ l, w.Stands ns m (path ++ [w.name]) := by
  obtain ⟨names, hnames, hmem⟩ := hv.exists_childNames hns hm
  have hchild : ∀ s, ∃ found, v.child s = .ok found ∧ (found.isSome ↔ s ∈ names.toList) := by
    intro s
    obtain ⟨found, hfound, -, hsome⟩ := hv.exists_child hns hm s
    exact ⟨found, hfound, hsome.trans (hmem s).symm⟩
  have hbelow : ∀ s, ∃ w, s ∈ names.toList → v.child s = .ok (some w) ∧
      w.Stands ns m (path ++ [s]) := by
    intro s
    obtain ⟨found, hfound, hanswers, hsome⟩ := hv.exists_child hns hm s
    cases found with
    | none => exact ⟨v, fun hs => absurd (hsome.2 ((hmem s).1 hs)) (by simp)⟩
    | some w => exact ⟨w, fun _ => ⟨hfound, hanswers⟩⟩
  choose below hbelow using hbelow
  have hname : ∀ s ∈ names.toList, (below s).name = s := by
    intro s hs
    have h := (hbelow s hs).2.name
    rwa [List.getLastD_concat] at h
  have hfound : names.toList.mapM v.child = .ok (names.toList.map (some ∘ below)) :=
    mapM_eq_ok fun s hs => (hbelow s hs).1
  refine ⟨names, names.toList.map below, ⟨hnames, ?_, hchild, names.pairwise_toList, ?_, ?_⟩, ?_⟩
  · simp only [children, hnames, bind, Except.bind, hfound]
    rw [← List.map_map, List.filterMap_map]
    simp [pure, Except.pure]
  · rw [List.map_map]
    calc names.toList.map (View.name ∘ below) = names.toList.map id := List.map_congr_left hname
      _ = names.toList := List.map_id _
  · rw [List.map_map]
    exact List.map_congr_left fun s hs => (hbelow s hs).1
  · intro w hw
    obtain ⟨s, hs, rfl⟩ := List.mem_map.1 hw
    rw [hname s hs]
    exact (hbelow s hs).2

/-! ### Walks -/

theorem Stands.length_lt_size (hns : ns.Holds m) (hm : ∀ top t, m top = some t → t.Linked)
    (hv : v.Stands ns m path) : path.length < ns.size := by
  rcases hv.there with hdir | hplace
  · obtain ⟨d, hd⟩ := Option.isSome_iff_exists.1 hdir
    have hsize := Dir.size_add_length_le (hv.dir ▸ hd)
    have hpos := d.size_pos
    rw [Namespace.size]
    omega
  · -- the way leads through the directory of an alias and on in its tree
    obtain ⟨p, hp⟩ := Option.isSome_iff_exists.1 hplace
    obtain ⟨top, rest, rfl, hmounted, hdescend⟩ := (hp ▸ hv.place).exists_tree
    have hrest := (hm top p.tree hmounted).length_lt_size hdescend
    rw [← hns.mountAt, Dir.mountAt] at hmounted
    obtain ⟨d, hd, hmount⟩ := Option.bind_eq_some_iff.1 hmounted
    have hsize := Dir.size_add_length_le hd
    have htree := Dir.size_lt_of_mount hmount
    rw [List.length_append, Namespace.size]
    omega

/-- The paths of a position and of all positions below it, each before those below and children in
the order in which they are listed; `depth` bounds the levels. -/
def walk : Nat → List String → View → Except Fault (List (List String))
  | 0, _, _ => .error .endless
  | depth + 1, path, v =>
    match v.children with
    | .error f => .error f
    | .ok l =>
      (l.mapM fun w => walk depth (path ++ [w.name]) w).map fun below => path :: below.flatten

/-- Paths below increasing names, put together after their common beginning, are listed once
each. -/
theorem nodup_paths_below {l : List View} {below : View → List (List String)}
    (hnames : (l.map View.name).Pairwise fun s s' => compare s s' = .lt)
    (hbelow : ∀ w ∈ l, (below w).Nodup ∧ ∀ q ∈ below w, path ++ [w.name] <+: q) :
    (path :: (l.map below).flatten).Nodup := by
  rw [List.nodup_cons, ← List.flatMap_def, List.nodup_flatMap]
  refine ⟨?_, fun w hw => (hbelow w hw).1, ?_⟩
  · -- what is below has a longer path
    intro hmem
    obtain ⟨w, hw, hmem⟩ := List.mem_flatMap.1 hmem
    have hlength := ((hbelow w hw).2 path hmem).length_le
    rw [List.length_append, List.length_singleton] at hlength
    omega
  · -- paths below two children go through different names
    rw [List.pairwise_map] at hnames
    apply hnames.imp_of_mem
    intro w u hw hu hlt q hq hq'
    obtain ⟨more, hmore⟩ := (hbelow w hw).2 q hq
    obtain ⟨more', hmore'⟩ := (hbelow u hu).2 q hq'
    rw [← hmore', List.append_assoc, List.append_assoc, List.append_right_inj] at hmore
    rw [(List.cons.inj hmore).1] at hlt
    simp at hlt

/-- **The walk below a position ends, and lists the paths that looking up reaches, once each.** -/
theorem Stands.exists_walk (hns : ns.Holds m) (hm : ∀ top t, m top = some t → t.Linked)
    {depth : Nat} :
    ∀ {path : List String} {v : View}, v.Stands ns m path → ns.size ≤ path.length + depth →
      ∃ l, v.walk depth path = .ok l ∧ l.Nodup ∧
        ∀ q, q ∈ l ↔ ∃ more w, q = path ++ more ∧ v.descend more = .ok (some w) := by
  -- each level adds a segment, and no path is as long as the name space is large
  induction depth with
  | zero =>
    intro path v hv hsize
    have hlength := hv.length_lt_size hns hm
    omega
  | succ depth ih =>
    intro path v hv hsize
    obtain ⟨names, l, hlists, hstands⟩ := hv.exists_lists hns hm
    have hstep : ∀ w ∈ l, ∃ below, w.walk depth (path ++ [w.name]) = .ok below ∧ (below.Nodup ∧
        ∀ q, q ∈ below ↔ ∃ more u, q = path ++ [w.name] ++ more ∧
        w.descend more = .ok (some u)) := by
      intro w hw
      exact ih (hstands w hw) (by rw [List.length_append, List.length_singleton]; omega)
    obtain ⟨below, hwalk, hbelow⟩ := exists_mapM_eq_ok hstep
    refine ⟨path :: (l.map below).flatten, by simp only [walk, hlists.children, hwalk]; rfl, ?_, ?_⟩
    · refine nodup_paths_below (hlists.named ▸ hlists.increasing) fun w hw =>
        ⟨(hbelow w hw).1, fun q hq => ?_⟩
      obtain ⟨more, -, rfl, -⟩ := ((hbelow w hw).2 q).1 hq
      exact List.prefix_append _ _
    · intro q
      rw [List.mem_cons, ← List.flatMap_def, List.mem_flatMap]
      constructor
      · rintro (rfl | ⟨w, hw, hq⟩)
        · exact ⟨[], v, by simp, rfl⟩
        · obtain ⟨more, u, rfl, hu⟩ := ((hbelow w hw).2 q).1 hq
          refine ⟨w.name :: more, u, by simp, ?_⟩
          rw [descend_cons_of_child (hlists.child_of_mem hw), hu]
      · rintro ⟨more, u, rfl, hu⟩
        cases more with
        | nil => exact .inl (by simp)
        | cons s more =>
          obtain ⟨w, hw, rfl, hwu⟩ := hlists.exists_of_descend_cons hu
          exact .inr ⟨w, hw, ((hbelow w hw).2 _).2 ⟨more, u, by simp, hwu⟩⟩

end View

/-! ### Proper names -/

namespace Tree

/-- All names of a tree are segments of ids. -/
def ProperlyNamed (t : Tree) : Prop := ∀ i s j, t.child? i s = some j → ProperSegment s

theorem ProperlyNamed.of_descend? {t : Tree} (ht : t.ProperlyNamed) {path : List String} :
    ∀ {i j : Nat},
    t.descend? i path = some j → ∀ s ∈ path, ProperSegment s := by
  induction path with
  | nil => simp
  | cons s path ih =>
    intro i j h s' hs'
    rw [descend?_cons] at h
    obtain ⟨k, hk, h⟩ := Option.bind_eq_some_iff.1 h
    rcases List.mem_cons.1 hs' with rfl | hs'
    · exact ht i s' k hk
    · exact ih h s' hs'

end Tree

/-- Where all trees are properly named, so are all paths. -/
theorem View.Stands.properSegment {ns : Namespace} {m : AliasMap} {path : List String} {v : View}
    (hns : ns.Holds m) (hm : ∀ top t, m top = some t → t.ProperlyNamed) (hv : v.Stands ns m path) :
    ∀ s ∈ path, ProperSegment s := by
  rcases hv.there with hdir | hplace
  · obtain ⟨d, hd⟩ := Option.isSome_iff_exists.1 hdir
    exact (hns.kept.at? (hv.dir ▸ hd)).2.2
  · obtain ⟨p, hp⟩ := Option.isSome_iff_exists.1 hplace
    obtain ⟨top, rest, rfl, hmounted, hdescend⟩ := (hp ▸ hv.place).exists_tree
    have hrest := (hm top p.tree hmounted).of_descend? hdescend
    rw [← hns.mountAt, Dir.mountAt] at hmounted
    obtain ⟨d, hd, -⟩ := Option.bind_eq_some_iff.1 hmounted
    have htop := (hns.kept.at? hd).2.2
    intro s hs
    rcases List.mem_append.1 hs with hs | hs
    · exact htop s hs
    · exact hrest s hs

/-! ### Name spaces after calls -/

namespace Namespace

/-- The paths of all positions, along the listed children. -/
def walk (ns : Namespace) : Except Fault (List (List String)) := ns.view.walk (ns.size + 1) []

/-- What a name space shows of the trees of its aliases. -/
structure Projects (ns : Namespace) (m : AliasMap) : Prop where
  /-- Every id is looked up.  The longest alias decides about the node, and a position is found
  exactly with a node, at the top, and above the aliases. -/
  resolve : ∀ id, ∃ found, ns.resolve id = .ok found ∧
    m.Locates (segments id) (found.bind View.place) ∧
    (found.isSome ↔ (found.bind View.place).isSome ∨ segments id = [] ∨
      ∃ name, segments id <+: name ∧ m name ≠ none)
  /-- Every position lists the children that looking up finds. -/
  lists : ∀ path v, ns.view.descend path = .ok (some v) → ∃ names l, v.Lists names l
  /-- The walk ends, and lists the paths of all positions, once each.  An id resolves exactly if its
  segments are listed, and with proper names only, the listed paths are the ids in normal form that
  resolve. -/
  walk : ∃ l, ns.walk = .ok l ∧ l.Nodup ∧
    (∀ path, path ∈ l ↔ ∃ v, ns.view.descend path = .ok (some v)) ∧
    (∀ id, segments id ∈ l ↔ ∃ v, ns.resolve id = .ok (some v)) ∧
    ((∀ name t, m name = some t → t.ProperlyNamed) →
      ∀ id, id ∈ l.map joinSegments ↔ normalizeId id = id ∧ ∃ v, ns.resolve id = .ok (some v))

variable {ns : Namespace} {m : AliasMap}

theorem Holds.exists_walk (hns : ns.Holds m) (hm : ∀ top t, m top = some t → t.Linked) :
    ∃ l, ns.walk = .ok l ∧ l.Nodup ∧ ∀ path, path ∈ l ↔
      ∃ v, ns.view.descend path = .ok (some v) := by
  have hsize : ns.size ≤ ([] : List String).length + (ns.size + 1) := by rw [List.length_nil]; omega
  obtain ⟨l, hl, hnodup, hmem⟩ := (View.stands_view hns).exists_walk hns hm hsize
  refine ⟨l, hl, hnodup, fun path => ?_⟩
  rw [hmem]
  constructor
  · rintro ⟨more, w, rfl, hw⟩
    exact ⟨w, hw⟩
  · rintro ⟨w, hw⟩
    exact ⟨path, w, rfl, hw⟩

theorem Holds.projects (hns : ns.Holds m) (hm : ∀ top t, m top = some t → t.Linked) :
    ns.Projects m where
  resolve := by
    intro id
    obtain ⟨found, hfound, hanswers⟩ := View.exists_descend_answers hns hm (segments id)
    refine ⟨found, hfound, ?_, hanswers.isSome_iff hns⟩
    cases found with
    | none => exact hanswers.2
    | some v => exact hanswers.place
  lists := by
    intro path v hv
    obtain ⟨found, hfound, hanswers⟩ := View.exists_descend_answers hns hm path
    rw [hv] at hfound
    obtain rfl := Except.ok.inj hfound
    obtain ⟨names, l, hlists, -⟩ := View.Stands.exists_lists hns hm hanswers
    exact ⟨names, l, hlists⟩
  walk := by
    obtain ⟨l, hl, hnodup, hmem⟩ := hns.exists_walk hm
    refine ⟨l, hl, hnodup, hmem, fun id => hmem (segments id), ?_⟩
    intro hproper id
    have hsegments : ∀ path ∈ l, segments (joinSegments path) = path := by
      intro path hpath
      obtain ⟨v, hv⟩ := (hmem path).1 hpath
      obtain ⟨found, hfound, hanswers⟩ := View.exists_descend_answers hns hm path
      rw [hv] at hfound
      obtain rfl := Except.ok.inj hfound
      exact segments_joinSegments (View.Stands.properSegment hns hproper hanswers)
    rw [List.mem_map]
    constructor
    · rintro ⟨path, hpath, rfl⟩
      refine ⟨by rw [normalizeId, hsegments path hpath], ?_⟩
      rw [Namespace.resolve, hsegments path hpath]
      exact (hmem path).1 hpath
    · rintro ⟨hnormal, hresolves⟩
      exact ⟨segments id, (hmem _).2 hresolves, hnormal⟩

/-- After any calls with trees that pass their checks, looking up follows the longest alias, listing
agrees with looking up, and a walk along the listed children ends with the paths of all
positions. -/
theorem projects_run {calls : List Call} (h : ∀ name t, .attach name t ∈ calls → t.check = .ok ()) :
    (run calls).Projects (mounted calls) := by
  apply (holds_run calls).projects
  intro top t ht
  obtain ⟨name, hname⟩ := exists_call_of_mounted ht
  exact Tree.linked_of_check (h name t hname)

/-- A tree with the file `x/z`. -/
def outerTree : Tree :=
  ⟨#[{ name := "outer", children := .ofList [("x", 1)] },
    { name := "x", parent := some 0, children := .ofList [("z", 2)] },
    { name := "z", parent := some 1, modified := some 1, depsModified := some 1 }]⟩

/-- A tree with the file `k`. -/
def innerTree : Tree :=
  ⟨#[{ name := "inner", children := .ofList [("k", 1)] },
    { name := "k", parent := some 0, modified := some 1, depsModified := some 1 }]⟩

/-- One tree is mounted at `p`, another one below a path that is missing there, and a third call is
undone. -/
def nestedCalls : List Call :=
  [.attach "p" outerTree, .attach "p/x/y" innerTree, .attach "q/r" innerTree, .detach "q/r"]

theorem projects_nestedCalls : Call.attach "p/x/y" innerTree ∈ nestedCalls ∧
    (∀ name t, .attach name t ∈ nestedCalls → t.check = .ok ()) ∧
      (run nestedCalls).Projects (mounted nestedCalls) ∧
        (run nestedCalls).walk = .ok [[], ["p"], ["p", "x"], ["p", "x", "y"], ["p", "x", "y", "k"],
          ["p", "x", "z"]] := by
  have hcheck : ∀ name t, .attach name t ∈ nestedCalls → t.check = .ok () := by
    intro name t h
    simp only [nestedCalls, List.mem_cons, Call.attach.injEq, List.not_mem_nil, or_false,
      reduceCtorEq] at h
    rcases h with ⟨-, rfl⟩ | ⟨-, rfl⟩ | ⟨-, rfl⟩ <;> decide +kernel
  exact ⟨by simp [nestedCalls], hcheck, projects_run hcheck, by decide +kernel⟩

/-- A tree with a name that holds a slash. -/
def slashedTree : Tree :=
  ⟨#[{ name := "r", children := .ofList [("a/b", 1)] },
    { name := "a/b", parent := some 0, modified := some 1, depsModified := some 1 }]⟩

/-- The tree passes its check and the walk lists its node, though the id that names the path leads
nowhere. -/
theorem not_resolves_slashed : slashedTree.check = .ok () ∧
    (run [.attach "p" slashedTree]).walk = .ok [[], ["p"], ["p", "a/b"]] ∧
      normalizeId (joinSegments ["p", "a/b"]) = joinSegments ["p", "a/b"] ∧
        (run [.attach "p" slashedTree]).resolve (joinSegments ["p", "a/b"]) = .ok none := by
  refine ⟨by decide +kernel, by decide +kernel, by decide +kernel, by rfl⟩

end Namespace

end ModuleAtlas
