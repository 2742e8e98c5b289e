import ModuleAtlas.Proofs.DirectWays
import ModuleAtlas.Proofs.ScanMirror

/-!
# Spellings of a location

A catalog scans the normal forms of its locations.  Where there are no links, the normal form of a
path to a directory leads to this directory, and the trees that two spellings give differ in the
names of their roots only.  The exception is the working directory: its normal form is empty, which
leads nowhere, so nothing is found there.

## Main definitions

* `Tree.named` — a tree with another name for its root.

## Main results

* `scanItems_named` — the name of the root has no influence on the rest of a scan.
* `Disk.scan_normal` — **a location is scanned as its normal form is, unless that is empty.**
* `Catalog.exists_scan_of_clean` — a clean build that succeeds has scanned the normal forms of its
  locations.
* `Catalog.location_eq_named_iff` — **when the tree of a location is the one that a scan of its
  spelling gives.**
-/

namespace ModuleAtlas

/-! ### The name of the root -/

/-- The node at a place, under another name if the place is that of the root. -/
def Node.renamed (name : String) (i : Nat) (n : Node) : Node :=
  if i = Tree.root then { n with name } else n

theorem Node.children_renamed (name : String) (i : Nat) (n : Node) :
    (n.renamed name i).children = n.children := by
  rw [renamed]
  split <;> rfl

/-- Changes of other fields can be made after the name is changed. -/
theorem Node.renamed_with_children (name : String) (i : Nat) (n : Node)
    (children : SortedMap String Nat) :
    Node.renamed name i { n with children } = { n.renamed name i with children } := by
  rw [renamed, renamed]
  split <;> rfl

theorem Node.renamed_recording (name : String) (i : Nat) (n : Node) (deps : Deps)
    (modified depsModified : Millis) :
    Node.renamed name i (n.recording deps modified depsModified)
      = (n.renamed name i).recording deps modified depsModified := by
  rw [renamed, renamed]
  split <;> rfl

namespace Tree

/-- The tree with another name for its root. -/
def named (name : String) (t : Tree) : Tree := ⟨t.nodes.mapIdx (Node.renamed name)⟩

variable {name : String} {t : Tree}

theorem size_named (name : String) (t : Tree) : (t.named name).size = t.size := Array.size_mapIdx

theorem node?_named (name : String) (t : Tree) (i : Nat) :
    (t.named name).node? i = (t.node? i).map (Node.renamed name i) := Array.getElem?_mapIdx

theorem named_new (s name : String) : (new s).named name = new name := rfl

theorem named_named (t : Tree) (s name : String) : (t.named s).named name = t.named name := by
  rw [named, named, named, Array.mapIdx_mapIdx]
  congr 2
  funext i n
  simp only [Function.comp_apply, Node.renamed]
  split <;> rfl

theorem named_withNode (name : String) (t : Tree) (i : Nat) (n : Node) :
    (t.withNode i n).named name = (t.named name).withNode i (n.renamed name i) := by
  rw [withNode, named, Array.mapIdx_setIfInBounds]
  rfl

/-- A new row is not that of the root. -/
theorem named_append (name : String) (ht : t.size ≠ root) (n : Node) :
    (t.append n).named name = (t.named name).append n := by
  have hnew : Node.renamed name t.nodes.size n = n := if_neg ht
  rw [append, named, Array.mapIdx_push, hnew]
  rfl

theorem child?_named (name : String) (t : Tree) (i : Nat) (s : String) :
    (t.named name).child? i s = t.child? i s := by
  rw [child?, node?_named, child?]
  cases t.node? i with
  | none => rfl
  | some n =>
    show (n.renamed name i).children.find? s = n.children.find? s
    rw [Node.children_renamed]

theorem named_withChild (name : String) {i : Nat} {p : Node} (hp : t.node? i = some p)
    (s : String) :
    (t.withChild i p s).named name = (t.named name).withChild i (p.renamed name i) s := by
  have hsize : (t.withNode i { p with children := p.children.insert s t.size }).size ≠ root := by
    rw [size_withNode]
    exact Nat.ne_zero_of_lt (lt_size_of_node? hp)
  rw [withChild, named_append name hsize, named_withNode, Node.renamed_with_children, withChild,
    Node.children_renamed, size_named]

/-- A child that is missing is added whatever the name of the root is. -/
theorem addChild_named {i : Nat} {s : String} (hs : t.child? i s = none) :
    (t.named name).addChild i s = (t.addChild i s).map fun r => (r.1.named name, r.2) := by
  cases hp : t.node? i with
  | none =>
    rw [addChild, addChild, node?_named, hp]
    rfl
  | some p =>
    have hnamed : (t.named name).node? i = some (p.renamed name i) := by
      rw [node?_named, hp, Option.map_some]
    rw [addChild_eq hp hs, addChild_eq hnamed (by rw [child?_named, hs]),
      ← named_withChild name hp, size_named]
    rfl

/-- Descending with additions does not depend on the name of the root. -/
theorem ensurePath_named (path : List String) : ∀ (t : Tree) (i : Nat),
    (t.named name).ensurePath i path = (t.ensurePath i path).map fun r =>
      (r.1.named name, r.2) := by
  induction path with
  | nil => intro t i; rfl
  | cons s path ih =>
    intro t i
    rw [ensurePath, ensurePath, child?_named]
    cases hs : t.child? i s with
    | some c => exact ih t c
    | none =>
      simp only [addChild_named hs]
      cases t.addChild i s with
      | error e => rfl
      | ok r => exact ih r.1 r.2

theorem setDeps_named (name : String) (t : Tree) (i : Nat) (deps : Deps)
    (modified depsModified : Millis) :
    (t.named name).setDeps i deps modified depsModified
      = (t.setDeps i deps modified depsModified).map (Tree.named name) := by
  cases hn : t.node? i with
  | none =>
    rw [setDeps, setDeps, node?_named, hn]
    rfl
  | some n =>
    have hnamed : (t.named name).node? i = some (n.renamed name i) := by
      rw [node?_named, hn, Option.map_some]
    rw [setDeps_eq hn, setDeps_eq hnamed, ← Node.renamed_recording, ← named_withNode]
    rfl

end Tree

/-! ### Scans under another name -/

section Scan

variable {previous : Option Tree} {extensions : List String} {reader : SourceReader}

theorem scanItem_named (name : String) (t : Tree) (counts : ScanStats) (f : Found) :
    scanItem previous extensions reader (t.named name, counts) f
      = (scanItem previous extensions reader (t, counts) f).map fun r => (r.1.named name, r.2) := by
  rw [scanItem, scanItem]
  cases f.segments? extensions with
  | none => rfl
  | some place =>
    simp only [Tree.ensurePath_named]
    cases t.ensurePath Tree.root place with
    | error e => rfl
    | ok r =>
      simp only [Except.map]
      cases f.file with
      | none => rfl
      | some content =>
        cases content with
        | error e => rfl
        | ok content =>
          cases cached previous place with
          | error fault => rfl
          | ok known =>
            simp only [Tree.setDeps_named]
            cases r.1.setDeps r.2 _ _ _ <;> rfl

/-- **The name of the root has no influence on the rest of a scan.** -/
theorem scanItems_named (name : String) (items : List Found) : ∀ (t : Tree) (counts : ScanStats),
    scanItems previous extensions reader (t.named name, counts) items
      = (scanItems previous extensions reader (t, counts) items).map fun r =>
        (r.1.named name, r.2) := by
  induction items with
  | nil => intro t counts; rfl
  | cons f items ih =>
    intro t counts
    rw [scanItems, scanItems, List.foldlM_cons, List.foldlM_cons, scanItem_named]
    cases scanItem previous extensions reader (t, counts) f with
    | error e => rfl
    | ok r => exact ih r.1 r.2

/-- What is there can be looked at, so it does not matter by which path. -/
theorem scanItem_item (here : Entry) (p q : Path) (place : List String) (state : Tree × ScanStats) :
    scanItem previous extensions reader state (here.item p [] place)
      = scanItem previous extensions reader state (here.item q [] place) := by
  have hsegments : (here.item p [] place).segments? extensions =
      (here.item q [] place).segments? extensions := rfl
  have hfile : (here.item p [] place).file = (here.item q [] place).file := rfl
  rw [scanItem, scanItem, hsegments, hfile]
  cases (here.item q [] place).segments? extensions with
  | none => rfl
  | some segments =>
    dsimp only
    cases state.1.ensurePath Tree.root segments with
    | error e => rfl
    | ok r =>
      rw [Entry.item]
      cases here.at? place with
      | none => rfl
      | some e => cases e <;> rfl

theorem scanItems_items (here : Entry) (p q : Path) (state : Tree × ScanStats) :
    scanItems previous extensions reader state (here.items p)
      = scanItems previous extensions reader state (here.items q) := by
  rw [scanItems, scanItems, Entry.items, Entry.items, List.foldlM_map, List.foldlM_map]
  congr 1
  funext state place
  exact scanItem_item here p q place state

end Scan

/-! ### Normal forms -/

namespace Disk

variable {d : Disk} {p : Path} {here : Entry} {extensions : List String} {reader : SourceReader}

/-- A scan finds nothing at the empty path. -/
theorem scan_empty (d : Disk) (previous : Option Tree) (extensions : List String)
    (reader : SourceReader) : d.scan ⟨""⟩ previous extensions reader = .ok (.new "", {}) := by
  have hname : (Path.mk "").displayName = "" := by with_unfolding_all decide
  rw [scan, walk, find, findVia, if_pos rfl, hname]
  rfl

/-- The tree of a scan bears the name of its location. -/
theorem named_of_scan {previous : Option Tree} {t : Tree} {stats : ScanStats}
    (h : d.scan p previous extensions reader = .ok (t, stats)) : t.named p.displayName = t := by
  have hscan := h
  rw [scan, ← Tree.named_new p.displayName, scanItems_named] at hscan
  rw [show scanItems previous extensions reader (Tree.new p.displayName, {}) (d.walk p) =
    .ok (t, stats) from h] at hscan
  exact (Prod.mk.inj (Except.ok.inj hscan)).1

/-- Where all can be looked at, a scan without an earlier tree succeeds. -/
theorem exists_scan (hhere : d.stat p = .ok here) (hdir : here.isDir = true)
    (hfree : here.linkFree = true) (hordered : here.ordered = true)
    (hshort : ∀ place, (here.at? place).isSome = true → (p.below place).isLong = false)
    (extensions : List String) (reader : SourceReader) :
    ∃ t stats, d.scan p none extensions reader = .ok (t, stats) := by
  have hwalk := d.walk_eq_items hhere hdir hfree hordered hshort
  have hstart : (Tree.new p.displayName, ({} : ScanStats)).1.Linked := Tree.linked_new _
  have hnothing : ∀ t : Tree, none = some t → t.Linked := by simp
  rcases scanItems_cases hnothing hstart with ⟨⟨t, stats⟩, hok⟩ | ⟨f, hf, e, hfile, -⟩
  · exact ⟨t, stats, hok⟩
  · rw [hwalk] at hf
    exact absurd hfile (Entry.file_ne_error_of_mem hfree hdir hordered p hf e)

/-- **A location is scanned as its normal form is, unless that is empty**: where there are no links
and no paths that are too long, the trees differ in the names of their roots only. -/
theorem scan_normal (hhere : d.stat p = .ok here) (hdir : here.isDir = true)
    (hfree : d.root.linkFree = true) (hordered : here.ordered = true)
    (hshort : ∀ place, (here.at? place).isSome = true → (p.below place).isLong = false)
    (hne : p.normal.text ≠ "") (previous : Option Tree) (extensions : List String)
    (reader : SourceReader) :
    d.scan p.normal previous extensions reader
      = (d.scan p previous extensions reader).map fun r =>
        (r.1.named p.normal.displayName, r.2) := by
  obtain ⟨place, hfind⟩ := exists_find_of_stat hhere
  have hbelow : here.linkFree = true :=
    Entry.linkFree_of_at? hfree (find_eq_ok_iff.1 hfind).2.2.symm
  have hnormal := stat_normal hfree hhere hdir hne
  rw [scan, scan, walk_eq_items hnormal hdir hbelow hordered fun place hplace =>
      Path.isLong_below_normal (hshort place hplace),
    walk_eq_items hhere hdir hbelow hordered hshort, scanItems_items here p.normal p,
    ← scanItems_named]
  rfl

end Disk

/-! ### Builds -/

namespace Catalog

variable {c : Catalog} {o : BuildOptions} {d : Disk} {reader : SourceReader} {p q : Path}

/-- Targets that compare as equal are one. -/
theorem eq_of_mem_targets (hp : p ∈ c.targets) (hq : q ∈ c.targets)
    (h : compare p q = .eq) : p = q := by
  have hpairwise : c.targets.Pairwise fun p q => compare p q ≠ .eq :=
    (SortedSet.pairwise_toList _).imp fun h => by rw [h]; simp
  have hsymm : Std.Symm fun p q : Path => compare p q ≠ .eq :=
    ⟨fun _ _ h he => h (Std.OrientedCmp.eq_symm he)⟩
  by_contra hne
  exact hpairwise.forall hp hq hne h

/-- **A clean build that succeeds has scanned the normal forms of its locations.** -/
theorem exists_scan_of_clean (hclean : o.clean = true) (hok : (c.build o d reader).1.isOk = true)
    (hp : p.normal ∈ c.settings.locations.toList) :
    ∃ t stats, (c.build o d reader).2.1.location p = some t ∧
      d.scan p.normal none c.settings.extensions reader = .ok (t, stats) := by
  have htarget := mem_targets_of_configured hp
  have haction : ∀ q, c.action o q = .scanned := c.action_clean hclean
  have hprevious : ∀ q, c.previous o q = none :=
    fun q => by rw [previous, haction, if_neg (by simp)]
  have hkept : c.action o p.normal ≠ .kept := by rw [haction]; simp
  obtain ⟨r, hscan⟩ := exists_scan_of_no_failure (failures_of_finish hok) htarget hkept
  refine ⟨r.1, r.2, ?_, by rw [← hprevious p.normal]; exact hscan⟩
  rw [catalog_build, location, trees_publishAll]
  apply SortedMap.find?_foldl_insert_of_eq
  · exact ⟨_, mem_entries_iff.2 ⟨htarget, hkept, r, hscan, rfl⟩, Std.ReflCmp.compare_self⟩
  · rintro ⟨q, a⟩ hq he
    obtain ⟨hother, -, r', hscan', rfl⟩ := mem_entries_iff.1 hq
    obtain rfl := eq_of_mem_targets htarget hother he
    rw [Except.ok.inj (hscan.symm.trans hscan')]

/-- The normal form of a configured location is among the settings. -/
theorem normal_mem_ofLocations {locations : List Path} (hp : p ∈ locations) (signature : String) :
    p.normal ∈ (Settings.ofLocations locations signature).locations.toList := by
  obtain ⟨q, hq, he⟩ :=
    SortedSet.exists_mem_foldl_insert (s := ∅) (List.mem_map_of_mem (f := Path.normal) hp)
  obtain ⟨r, -, hr⟩ := List.mem_map.1 (SortedSet.mem_of_mem_ofList hq)
  rw [Path.eq_of_compare_eq p.normal_normal (by rw [← hr, Path.normal_normal]) he]
  exact hq

/-- **When the tree of a location is the one that a scan of its spelling gives**, after a clean
build that succeeds, where there are no links and no paths that are too long.  The scan succeeds,
and but for the name of the root the trees are equal exactly if the normal form of the location has
a spelling, or there is nothing to be found. -/
theorem location_eq_named_iff {locations : List Path} {signature : String} {file : Option Path}
    {extensions : List String} (hsettings : c.settings =
      { Settings.ofLocations locations signature with snapshot := file, extensions := extensions })
    (hp : p ∈ locations) (hclean : o.clean = true) (hok : (c.build o d reader).1.isOk = true)
    {here : Entry} (hhere : d.stat p = .ok here) (hdir : here.isDir = true)
    (hfree : d.root.linkFree = true) (hordered : here.ordered = true)
    (hshort : ∀ place, (here.at? place).isSome = true → (p.below place).isLong = false) :
    ∃ t t' stats, (c.build o d reader).2.1.location p = some t ∧
      d.scan p none extensions reader = .ok (t', stats) ∧
      ((∃ name, t = t'.named name) ↔ p.normal.text ≠ "" ∨ t' = .new p.displayName) := by
  have hconfigured : p.normal ∈ c.settings.locations.toList := by
    rw [hsettings]
    exact normal_mem_ofLocations hp signature
  obtain ⟨t, stats, htree, hscan⟩ := exists_scan_of_clean hclean hok hconfigured
  rw [hsettings] at hscan
  have hbelow : here.linkFree = true := by
    obtain ⟨place, hfind⟩ := Disk.exists_find_of_stat hhere
    exact Entry.linkFree_of_at? hfree (Disk.find_eq_ok_iff.1 hfind).2.2.symm
  obtain ⟨t', stats', hspelt⟩ :=
    Disk.exists_scan hhere hdir hbelow hordered hshort extensions reader
  refine ⟨t, t', stats', htree, hspelt, ?_⟩
  by_cases hne : p.normal.text = ""
  · -- a root alone is published
    have hempty : p.normal = ⟨""⟩ := congrArg Path.mk hne
    rw [hempty, Disk.scan_empty] at hscan
    obtain rfl : Tree.new "" = t := (Prod.mk.inj (Except.ok.inj hscan)).1
    constructor
    · rintro ⟨name, hname⟩
      refine .inr ?_
      rw [← Disk.named_of_scan hspelt, ← Tree.named_named t' name, ← hname, Tree.named_new]
    · rintro (h | rfl)
      · exact absurd hne h
      · exact ⟨"", (Tree.named_new _ _).symm⟩
  · refine ⟨fun _ => .inl hne, fun _ => ⟨p.normal.displayName, ?_⟩⟩
    have hnormal := Disk.scan_normal hhere hdir hfree hordered hshort hne none extensions reader
    rw [hspelt] at hnormal
    exact (Prod.mk.inj (Except.ok.inj (hscan.symm.trans hnormal))).1

/-- A directory with one module. -/
def plainDirectory : Entry := .dir [("a.js", .file "define(['b']);".toUTF8 5)]

/-- A disk with that directory and an empty one. -/
def plainDisk (cwd : List String) : Disk where
  root := .dir [("lib", plainDirectory), ("x", .empty)]
  cwd := cwd

/-- A catalog that has not been built yet. -/
def unbuilt (p : Path) : Catalog where
  settings := { Settings.ofLocations [p] "signature" with snapshot := none, extensions := ["js"] }

/-- The location is spelt with a detour. -/
theorem location_eq_named_detour :
    ((unbuilt ⟨"x/.././lib/"⟩).build { clean := true } (plainDisk [])).1.isOk = true ∧
      (plainDisk []).stat ⟨"x/.././lib/"⟩ = .ok plainDirectory ∧ plainDirectory.isDir = true ∧
        (plainDisk []).root.linkFree = true ∧ plainDirectory.ordered = true ∧
          (∀ place, (plainDirectory.at? place).isSome = true →
            ((Path.mk "x/.././lib/").below place).isLong = false) ∧
            ∃ t t' stats,
              ((unbuilt ⟨"x/.././lib/"⟩).build { clean := true } (plainDisk [])).2.1.location
                ⟨"x/.././lib/"⟩ = some t ∧
                (plainDisk []).scan ⟨"x/.././lib/"⟩ none ["js"] = .ok (t', stats) ∧
                  ((∃ name, t = t'.named name) ↔
                    (Path.mk "x/.././lib/").normal.text ≠ "" ∨
                      t' = .new (Path.mk "x/.././lib/").displayName) := by
  have hok : ((unbuilt ⟨"x/.././lib/"⟩).build { clean := true } (plainDisk [])).1.isOk = true := by
    with_unfolding_all decide
  have hstat : (plainDisk []).stat ⟨"x/.././lib/"⟩ = .ok plainDirectory := by with_unfolding_all rfl
  have hfree : (plainDisk []).root.linkFree = true := by with_unfolding_all decide
  have hordered : plainDirectory.ordered = true := by with_unfolding_all decide
  have hlisted : ∀ place ∈ plainDirectory.places,
      ((Path.mk "x/.././lib/").below place).isLong = false := by
    with_unfolding_all decide
  have hshort : ∀ place, (plainDirectory.at? place).isSome = true →
      ((Path.mk "x/.././lib/").below place).isLong = false :=
    fun place hplace => hlisted place ((Entry.mem_places_iff hordered).2 hplace)
  exact ⟨hok, hstat, rfl, hfree, hordered, hshort,
    location_eq_named_iff rfl List.mem_cons_self rfl hok hstat rfl hfree hordered hshort⟩

/-- The working directory has a module, but its normal form leads nowhere. -/
theorem location_workingDirectory_ne :
    ¬ ∀ (c : Catalog) (o : BuildOptions) (d : Disk) (p : Path) (signature : String)
    (file : Option Path) (extensions : List String) (here : Entry), c.settings =
      { Settings.ofLocations [p] signature with snapshot := file, extensions := extensions } →
        o.clean = true → (c.build o d).1.isOk = true → d.stat p = .ok here → here.isDir = true →
          d.root.linkFree = true → here.ordered = true →
            (∀ place, (here.at? place).isSome = true → (p.below place).isLong = false) →
            ∃ t t' stats name, (c.build o d).2.1.location p = some t ∧
              d.scan p none extensions = .ok (t', stats) ∧ t = t'.named name := by
  intro h
  have hordered : plainDirectory.ordered = true := by with_unfolding_all decide
  have hlisted : ∀ place ∈ plainDirectory.places, ((Path.mk ".").below place).isLong = false := by
    with_unfolding_all decide
  obtain ⟨t, t', stats, name, htree, hscan, hnamed⟩ :=
    h (unbuilt ⟨"."⟩) { clean := true } (plainDisk ["lib"]) ⟨"."⟩ "signature" none ["js"]
      plainDirectory rfl rfl (by with_unfolding_all decide) (by with_unfolding_all rfl) rfl
      (by with_unfolding_all decide) hordered
      fun place hplace => hlisted place ((Entry.mem_places_iff hordered).2 hplace)
  have hpublished :
      (((unbuilt ⟨"."⟩).build { clean := true } (plainDisk ["lib"])).2.1.location ⟨"."⟩).map
        Tree.size
      = some 1 := by with_unfolding_all decide
  have hfound : ((plainDisk ["lib"]).scan ⟨"."⟩ none ["js"]).map (fun r => r.1.size) = .ok 2 := by
    with_unfolding_all rfl
  rw [htree, hnamed, Option.map_some, Tree.size_named] at hpublished
  rw [hscan] at hfound
  have hsize : t'.size = 2 := Except.ok.inj hfound
  rw [hsize] at hpublished
  cases hpublished

end Catalog

end ModuleAtlas
