import ModuleAtlas.Proofs.Positions
import ModuleAtlas.Proofs.RecordFile
import ModuleAtlas.Proofs.ScanSteps
import ModuleAtlas.Proofs.Traversal

/-!
# Reading records of unknown origin

The file of a record may hold anything.  Reading it never fails, and the trees of a record that is
taken can be followed from their roots without a fault: links may run in circles where nothing above
leads to, and no walk gets there.  Listing, climbing, descending and scanning against such a tree
come to an end, and so do looking up, walking and expanding in a name space that mounts it.

## Main definitions

* `Tree.SafeFromRoot` — what can be done with a tree from its root.
* `Namespace.SafeToRead` — what can be done with a name space.

## Main results

* `scanItem_cases`, `scanItems_cases` — against a linked tree, a scan fails only at files that
  cannot be looked at.
* `Tree.Linked.safeFromRoot` — a linked tree can be followed from its root.
* `Snapshot.load_safe` — **whatever a file holds, what is read from it is safe.**
-/

namespace ModuleAtlas

/-! ### Scans against an earlier tree -/

section Scan

variable {previous : Option Tree} {extensions : List String} {reader : SourceReader}

/-- A linked tree can be asked for any module. -/
theorem exists_cached (hprevious : ∀ t, previous = some t → t.Linked) (place : List String) :
    ∃ known, cached previous place = .ok known := by
  cases previous with
  | none => exact ⟨none, rfl⟩
  | some t =>
    have ht : t.Linked := hprevious t rfl
    cases hget : t.get? Tree.root (joinSegments place) with
    | none => exact ⟨none, by simp only [cached, hget]⟩
    | some i =>
      obtain ⟨n, hn⟩ := ht.exists_node?_of_path hget
      exact ⟨if n.isFile then some n else none, by simp only [cached, hget, Tree.node, hn]; rfl⟩

/-- An item is added to a linked tree, which stays linked, or it is a source file that cannot be
looked at. -/
theorem scanItem_cases (hprevious : ∀ t, previous = some t → t.Linked) {state : Tree × ScanStats}
    (hstate : state.1.Linked) (f : Found) :
    (∃ next, scanItem previous extensions reader state f = .ok next ∧ next.1.Linked) ∨
      ∃ e, f.file = some (.error e) ∧ f.segments? extensions ≠ none ∧
        scanItem previous extensions reader state f = .error (unreadable f.path e) := by
  cases hplace : f.segments? extensions with
  | none => exact .inl ⟨state, by simp only [scanItem, hplace], hstate⟩
  | some place =>
    obtain ⟨r, hr, -⟩ := hstate.root
    obtain ⟨u, i, hensure, hu, -, hdescend⟩ : ∃ u i,
        state.1.ensurePath Tree.root place = .ok (u, i) ∧
        u.Linked ∧ state.1.Grows u ∧ u.descend? Tree.root place = some i :=
          Tree.exists_ensurePath hstate hr
    cases hfile : f.file with
    | none =>
      exact .inl ⟨(u, state.2.addDirectory), by simp only [scanItem, hplace, hensure, hfile], hu⟩
    | some content =>
      cases content with
      | error e => exact .inr ⟨e, rfl, by simp, by simp only [scanItem, hplace, hensure, hfile]⟩
      | ok content =>
        obtain ⟨bytes, modified⟩ := content
        obtain ⟨known, hknown⟩ := exists_cached hprevious place
        obtain ⟨n, hn⟩ := hu.exists_node?_of_path hdescend
        have hset := Tree.setDeps_eq hn (derive known bytes modified reader).deps modified
          (derive known bytes modified reader).depsModified
        refine .inl ⟨(_, _), by simp only [scanItem, hplace, hensure, hfile, hknown, hset]; rfl, ?_⟩
        exact Tree.linked_withNode hu hn rfl rfl rfl

/-- Against a linked tree, a scan fails only at a source file that cannot be looked at. -/
theorem scanItems_cases (hprevious : ∀ t, previous = some t → t.Linked) {items : List Found} :
    ∀ {state : Tree × ScanStats}, state.1.Linked →
      (∃ result, scanItems previous extensions reader state items = .ok result) ∨
        ∃ f ∈ items, ∃ e, f.file = some (.error e) ∧ f.segments? extensions ≠ none ∧
          scanItems previous extensions reader state items = .error (unreadable f.path e) := by
  induction items with
  | nil => intro state _; exact .inl ⟨state, rfl⟩
  | cons f items ih =>
    intro state hstate
    have hfirst : scanItems previous extensions reader state (f :: items)
        = (scanItem previous extensions reader state f).bind fun next =>
          scanItems previous extensions reader next items := List.foldlM_cons
    rw [hfirst]
    rcases scanItem_cases hprevious hstate f with ⟨next, hnext, hlinked⟩ | ⟨e, hfile, hplace, he⟩
    · rw [hnext]
      rcases ih hlinked with hok | ⟨g, hg, e, hfile, hplace, he⟩
      · exact .inl hok
      · exact .inr ⟨g, List.mem_cons_of_mem _ hg, e, hfile, hplace, he⟩
    · rw [he]
      exact .inr ⟨f, List.mem_cons_self, e, hfile, hplace, rfl⟩

end Scan

/-! ### Trees -/

namespace Tree

/-- What can be done with a tree from its root, whatever links there are elsewhere. -/
structure SafeFromRoot (t : Tree) : Prop where
  /-- Listing ends, without a node listed twice, and climbing from every listed node ends. -/
  preorder : ∃ l, t.preorder = .ok l ∧ l.Nodup ∧ ∀ i ∈ l, i < t.size ∧ ∃ path, t.pathOf i = .ok path
  /-- Steps to children stay in the table. -/
  descend : ∀ names i, t.descend? root names = some i → i < t.size
  /-- Paths stay in the table. -/
  get : ∀ path i, t.get? root path = some i → i < t.size
  /-- A scan against the tree fails only at a file that the file system refuses. -/
  scan : ∀ (d : Disk) location extensions reader,
    (∃ result, d.scan location (some t) extensions reader = .ok result) ∨
      ∃ p e, d.scan location (some t) extensions reader = .error (unreadable p e)

theorem Linked.safeFromRoot {t : Tree} (ht : t.Linked) : t.SafeFromRoot where
  preorder := by
    obtain ⟨l, hl, hnodup, hmem⟩ := ht.exists_preorder
    refine ⟨l, hl, hnodup, fun i hi => ?_⟩
    obtain ⟨path, hpath⟩ := (hmem i).1 hi
    exact ⟨ht.lt_size_of_descend? hpath, _, ht.pathOf_eq hpath⟩
  descend := fun _ _ h => ht.lt_size_of_descend? h
  get := fun _ _ h => ht.lt_size_of_descend? h
  scan := by
    intro d location extensions reader
    have hprevious : ∀ u, some t = some u → u.Linked := fun u hu => Option.some.inj hu ▸ ht
    have hstart : (Tree.new location.displayName, ({} : ScanStats)).1.Linked := linked_new _
    rcases scanItems_cases hprevious hstart with hok | ⟨f, -, e, -, -, he⟩
    · exact .inl hok
    · exact .inr ⟨f.path, e, he⟩

end Tree

/-! ### Name spaces -/

namespace Namespace

/-- What can be done with a name space. -/
structure SafeToRead (ns : Namespace) : Prop where
  /-- Every id is looked up. -/
  resolve : ∀ id, ∃ found, ns.resolve id = .ok found
  /-- Every position lists its children. -/
  children : ∀ path v, ns.view.descend path = .ok (some v) → ∃ l, v.children = .ok l
  /-- A walk along the listed children ends. -/
  walk : ∃ l, ns.walk = .ok l
  /-- Every request has a closure. -/
  expand : ∀ ids, ∃ c, ns.expand ids = .ok c

theorem safeToRead_run {calls : List Call}
    (h : ∀ name t, .attach name t ∈ calls → t.isIntact = true) : (run calls).SafeToRead := by
  have hns := holds_run calls
  have hintact : ∀ top t, mounted calls top = some t → t.isIntact = true := by
    intro top t ht
    obtain ⟨name, hname⟩ := exists_call_of_mounted ht
    exact h name t hname
  have hprojects := hns.projects fun top t ht => Tree.linked_of_isIntact (hintact top t ht)
  have hsound : (run calls).Sound := fun b hb => hintact b.1 b.2 (hns.mounted_of_mem_bindings hb)
  refine ⟨fun id => ?_, fun path v hv => ?_, ?_, fun ids => ?_⟩
  · obtain ⟨found, hfound, -⟩ := hprojects.resolve id
    exact ⟨found, hfound⟩
  · obtain ⟨names, l, hlists⟩ := hprojects.lists path v hv
    exact ⟨l, hlists.children⟩
  · obtain ⟨l, hl, -⟩ := hprojects.walk
    exact ⟨l, hl⟩
  · obtain ⟨c, hc, -⟩ := exists_expand hsound ids
    exact ⟨c, hc⟩

end Namespace

/-! ### Records -/

namespace Snapshot

/-- The trees of a usable record pass their checks, and its version is the current one. -/
theorem isIntact_of_isUsable {s : Snapshot} (h : s.isUsable = true) :
    s.version = currentVersion ∧ ∀ t ∈ s.locations.values, t.isIntact = true := by
  rw [isUsable, Bool.and_eq_true, beq_iff_eq, List.all_eq_true] at h
  exact h

/-- Whatever a file holds, reading it as a record succeeds once its lock is taken.  A record that is
read has the current version, and its trees are safe to follow, as are the name spaces that mount
them among other trees that pass their checks. -/
theorem load_safe {p lockFile : Path} {d d' : Disk} {bytes : ByteArray} {modified : Millis}
    (hfile : d.stat p = .ok (.file bytes modified)) (hlock : lock p d = (.ok lockFile, d')) :
    ∃ found, load p d = (.ok found, d') ∧ ∀ s, found = some s →
      s.version = 1 ∧ (∀ t ∈ s.locations.values, t.SafeFromRoot) ∧
        ∀ calls, (∀ name t, Namespace.Call.attach name t ∈ calls →
          t ∈ s.locations.values ∨ t.isIntact = true) → (Namespace.run calls).SafeToRead := by
  have hexists : d.exists? p = true := by rw [Disk.exists?, hfile]; rfl
  refine ⟨usable? d' p, load_of_lock hexists hlock, fun s hs => ?_⟩
  obtain ⟨-, -, -, husable⟩ := usable?_cases hs
  obtain ⟨hversion, hintact⟩ := isIntact_of_isUsable husable
  refine ⟨hversion, fun t ht => (Tree.linked_of_isIntact (hintact t ht)).safeFromRoot,
    fun calls hcalls => ?_⟩
  apply Namespace.safeToRead_run
  intro name t hname
  rcases hcalls name t hname with ht | ht
  · exact hintact t ht
  · exact ht

/-- A table with a file below the root, and two nodes that are parent and child of each other. -/
def circularTree : Tree :=
  ⟨#[{ name := "src", children := .ofList [("f", 1)] },
    { name := "f", parent := some 0, modified := some 5, depsModified := some 5 },
    { name := "a", parent := some 3, children := .ofList [("b", 3)] },
    { name := "b", parent := some 2, children := .ofList [("a", 2)] }]⟩

/-- A record with that table. -/
def circularRecord : Snapshot := new "signature" (.ofList [(⟨"/lib"⟩, circularTree)])

/-- A disk with a file that holds the record. -/
def circularDisk : Disk where
  root := .dir [("depmap.json", .file circularRecord.toBytes 5)]
  now := 9

theorem load_circularDisk :
    circularDisk.stat ⟨"/depmap.json"⟩ = .ok (.file circularRecord.toBytes 5) ∧
      (lock ⟨"/depmap.json"⟩ circularDisk).1 = .ok ⟨"/depmap.json.lock"⟩ ∧
        (load ⟨"/depmap.json"⟩ circularDisk).1 = .ok (some circularRecord) ∧
          circularTree.SafeFromRoot ∧
            (Namespace.run [.attach "p" circularTree]).SafeToRead := by
  have hfile : circularDisk.stat ⟨"/depmap.json"⟩ = .ok (.file circularRecord.toBytes 5) := by
    with_unfolding_all rfl
  have hlock : lock ⟨"/depmap.json"⟩ circularDisk
      = (.ok ⟨"/depmap.json.lock"⟩, (lock ⟨"/depmap.json"⟩ circularDisk).2) :=
    Prod.ext (by with_unfolding_all decide) rfl
  have hread : (lock ⟨"/depmap.json"⟩ circularDisk).2.read ⟨"/depmap.json"⟩ =
      .ok circularRecord.toBytes := by
    with_unfolding_all rfl
  have husable :=
    usable?_of_read hread (by with_unfolding_all decide) (by with_unfolding_all decide)
  obtain ⟨found, hload, hsafe⟩ := load_safe hfile hlock
  have hexists : circularDisk.exists? ⟨"/depmap.json"⟩ = true := by rw [Disk.exists?, hfile]; rfl
  have hfound : found = some circularRecord := by
    rw [load_of_lock hexists hlock, husable] at hload
    exact (Except.ok.inj (Prod.mk.inj hload).1).symm
  obtain ⟨-, htrees, hcalls⟩ := hsafe circularRecord hfound
  have hmem : circularTree ∈ circularRecord.locations.values := by with_unfolding_all decide
  refine ⟨hfile, congrArg Prod.fst hlock, ?_, htrees circularTree hmem, hcalls _ ?_⟩
  · rw [hload, hfound]
  · intro name t h
    obtain ⟨-, rfl⟩ : name = "p" ∧ t = circularTree := by simpa using h
    exact .inl hmem

end Snapshot

end ModuleAtlas
