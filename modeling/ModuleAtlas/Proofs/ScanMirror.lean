import Mathlib.Data.Set.Card
import ModuleAtlas.Proofs.BuildOutcome
import ModuleAtlas.Proofs.SafeReading
import ModuleAtlas.Proofs.ScanRecords
import ModuleAtlas.Proofs.TreeImages
import ModuleAtlas.Proofs.WalkEntries

/-!
# Scans mirror the disk

Below a directory without links, all of which can be looked at, a scan succeeds, and its tree has
the paths of the directories and of the modules that the source files stand for.  Files and
directories of one path share a node, and so do source files that differ in their extensions, of
which the last one by name gives the time.  An earlier tree may save reading, but it has no
influence on the nodes, the links and the times.

## Main definitions

* `ScanStats.Sound` — the counts of a scan agree with each other.
* `Entry.Source`, `Entry.IsSource`, `Entry.IsModule` — source files below a directory, and the
  modules that they are of.
* `Entry.Mirrored` — what a scan promises about its tree and its counts.

## Main results

* `descend?_scanItems_ne_none_iff` — the paths of the tree of a scan.
* `counts_scanItems` — what a scan counts.
* `exists_frame_scanItems` — **an earlier tree has no influence on nodes, links and times.**
* `Entry.exists_of_lastSource` — the last source file of a module is the last one by name.
* `Disk.exists_frame_of_scan` — **a scan mirrors the disk.**
-/

namespace ModuleAtlas

variable {previous : Option Tree} {extensions : List String} {reader : SourceReader}

/-! ### The paths of a scan -/

/-- The paths of a tree are those of its map. -/
theorem Tree.Orderly.descend?_ne_none_iff {t : Tree} (ht : t.Orderly) {path : List String} :
    t.descend? Tree.root path ≠ none ↔ t.entries path ≠ none := by
  constructor
  · intro h
    obtain ⟨i, hi⟩ := Option.ne_none_iff_exists'.1 h
    exact ht.entries_ne_none hi
  · intro h hnone
    rw [Tree.entries, hnone] at h
    exact h rfl

/-- An item adds the beginnings of the place to which it goes. -/
theorem ItemAdded.descend?_ne_none_iff {t t' : Tree} {counts counts' : ScanStats} {f : Found}
    (h : ItemAdded previous extensions reader t counts f t' counts') (ht : t.Orderly)
    (path : List String) :
    t'.descend? Tree.root path ≠ none ↔
      t.descend? Tree.root path ≠ none ∨ ∃ place, f.segments? extensions = some place ∧
        path <+: place := by
  have hensured : ∀ {place : List String} {u : Tree} {i : Nat},
      f.segments? extensions = some place →
      t.ensurePath Tree.root place = .ok (u, i) → u.Linked ∧ u.descend? Tree.root place = some i ∧
        (u.descend? Tree.root path ≠ none ↔
          t.descend? Tree.root path ≠ none ∨ ∃ place, f.segments? extensions = some place ∧
          path <+: place) := by
    intro place u i hplace hensure
    have hroot : t.descend? Tree.root [] = some Tree.root := rfl
    obtain ⟨u', j, hensure', hu, -, hdescend, hentries⟩ := ht.exists_ensurePath place hroot
    obtain ⟨rfl, rfl⟩ := Prod.mk.inj (Except.ok.inj (hensure'.symm.trans hensure))
    refine ⟨hu.linked, hdescend, ?_⟩
    rw [hu.descend?_ne_none_iff, ht.descend?_ne_none_iff, hentries, hplace, List.nil_append]
    by_cases hold : t.entries path = none
    · rw [PathMap.ensure_of_eq_none hold]
      simp [hold]
    · rw [PathMap.ensure_of_ne_none hold]
      simp [hold]
  cases h with
  | skipped hplace => simp [hplace]
  | directory hplace hensure _ => exact (hensured hplace hensure).2.2
  | @recorded place u _ i bytes modified known hplace hensure _ _ hset =>
    obtain ⟨hu, hdescend, hpaths⟩ := hensured hplace hensure
    obtain ⟨n, hn⟩ := hu.exists_node?_of_path hdescend
    obtain rfl := Except.ok.inj ((Tree.setDeps_eq hn _ _ _).symm.trans hset)
    -- recording leaves the paths as they are
    rw [← hpaths, Tree.descend?_withNode (m := n.recording _ _ _) hn rfl]

/-- The tree of a scan has the beginnings of the places to which items go. -/
theorem descend?_scanItems_ne_none_iff {items : List Found} (path : List String) : ∀ {t t' : Tree}
    {counts counts' : ScanStats}, t.Orderly →
      scanItems previous extensions reader (t, counts) items = .ok (t', counts') →
        (t'.descend? Tree.root path ≠ none ↔ t.descend? Tree.root path ≠ none ∨
          ∃ f ∈ items, ∃ place, f.segments? extensions = some place ∧ path <+: place) := by
  induction items with
  | nil =>
    intro t t' counts counts' _ h
    obtain ⟨rfl, -⟩ := Prod.mk.inj (Except.ok.inj h)
    simp
  | cons f items ih =>
    intro t t' counts counts' ht h
    obtain ⟨⟨u, next⟩, hitem, hrest⟩ := scanItems_cons_eq_ok_iff.1 h
    have hadded := scanItem_eq_ok_iff.1 hitem
    rw [ih (hadded.orderly ht) hrest, hadded.descend?_ne_none_iff ht,
      List.exists_mem_cons_iff, or_assoc]

/-! ### The counts of a scan -/

/-- Every source file is read or kept, and only files that are read can fail. -/
structure ScanStats.Sound (s : ScanStats) : Prop where
  /-- Each file is read, or its record is kept. -/
  files : s.files = s.parsed + s.reused
  /-- Files that fail have been read. -/
  failed : s.failed ≤ s.parsed

theorem ScanStats.Sound.addFile {s : ScanStats} (h : s.Sound) (o : Origin) :
    (s.addFile o).Sound := by
  obtain ⟨hfiles, hfailed⟩ := h
  cases o <;> constructor <;> simp only [ScanStats.addFile] <;> omega

/-- What an item adds to the counts. -/
theorem ItemAdded.counts {t t' : Tree} {counts counts' : ScanStats} {f : Found}
    (h : ItemAdded previous extensions reader t counts f t' counts') (hsound : counts.Sound) :
    counts'.Sound ∧
      counts'.files = counts.files + (if (f.sourcePlace? extensions).isSome then 1 else 0) ∧
        counts'.directories = counts.directories + (if f.file.isNone then 1 else 0) := by
  cases h with
  | skipped hplace =>
    -- a directory is not left out
    have hfile : f.file ≠ none := by
      intro hnone
      rw [Found.segments?, hnone] at hplace
      cases hplace
    obtain ⟨content, hfile⟩ := Option.ne_none_iff_exists'.1 hfile
    rw [Found.sourcePlace?_of_file hfile, hplace, hfile]
    exact ⟨hsound, rfl, rfl⟩
  | directory _ _ hfile =>
    rw [Found.sourcePlace?, hfile]
    exact ⟨⟨hsound.files, hsound.failed⟩, rfl, rfl⟩
  | @recorded place _ _ _ bytes modified known hplace _ hfile _ _ =>
    rw [Found.sourcePlace?_of_file hfile, hplace, hfile]
    refine ⟨hsound.addFile _, ?_⟩
    cases (derive known bytes modified reader).origin <;> exact ⟨rfl, rfl⟩

/-- What a scan counts: the source files and the directories. -/
theorem counts_scanItems {items : List Found} : ∀ {t t' : Tree} {counts counts' : ScanStats},
    counts.Sound →
    scanItems previous extensions reader (t, counts) items = .ok (t', counts') → counts'.Sound ∧
      counts'.files = counts.files + items.countP (fun f => (f.sourcePlace? extensions).isSome) ∧
        counts'.directories = counts.directories + items.countP fun f => f.file.isNone := by
  induction items with
  | nil =>
    intro t t' counts counts' hsound h
    obtain ⟨-, rfl⟩ := Prod.mk.inj (Except.ok.inj h)
    exact ⟨hsound, rfl, rfl⟩
  | cons f items ih =>
    intro t t' counts counts' hsound h
    obtain ⟨⟨u, next⟩, hitem, hrest⟩ := scanItems_cons_eq_ok_iff.1 h
    obtain ⟨hnext, hfiles, hdirectories⟩ := (scanItem_eq_ok_iff.1 hitem).counts hsound
    obtain ⟨hsound', hfiles', hdirectories'⟩ := ih hnext hrest
    refine ⟨hsound', ?_, ?_⟩
    · rw [hfiles', hfiles, List.countP_cons]
      omega
    · rw [hdirectories', hdirectories, List.countP_cons]
      omega

/-! ### Scans against other trees -/

/-- What an item makes of the nodes, the links and the times does not depend on an earlier tree. -/
theorem ItemAdded.exists_frame {other : Option Tree} (hother : ∀ u, other = some u → u.Linked)
    {t t' u : Tree} {counts counts' : ScanStats} {f : Found}
    (h : ItemAdded previous extensions reader t counts f t' counts') (hframe : t.frame = u.frame)
    (next : ScanStats) :
    ∃ u' next', ItemAdded other extensions reader u next f u' next' ∧ t'.frame = u'.frame := by
  cases h with
  | skipped hplace => exact ⟨u, next, .skipped hplace, hframe⟩
  | directory hplace hensure hfile =>
    obtain ⟨u', hu', hframe'⟩ :=
      Tree.exists_ensurePath_of_mapNodes_eq Node.keepsLinks_frame hframe hensure
    exact ⟨u', _, .directory hplace hu' hfile, hframe'⟩
  | @recorded place _ _ _ bytes modified _ hplace hensure hfile _ hset =>
    obtain ⟨u₁, hu₁, hframe₁⟩ :=
      Tree.exists_ensurePath_of_mapNodes_eq Node.keepsLinks_frame hframe hensure
    obtain ⟨known, hknown⟩ := exists_cached hother place
    obtain ⟨u₂, hu₂, hframe₂⟩ := Tree.exists_setDeps_of_mapNodes_eq hframe₁
      (fun m n hmn =>
        Node.frame_recording hmn _ (derive known bytes modified reader).deps modified _
        (derive known bytes modified reader).depsModified) hset
    exact ⟨u₂, _, .recorded hplace hu₁ hfile hknown hu₂, hframe₂⟩

/-- **An earlier tree has no influence on nodes, links and times.** -/
theorem exists_frame_scanItems {other : Option Tree} (hother : ∀ u, other = some u → u.Linked)
    {items : List Found} :
    ∀ {t t' u : Tree} {counts counts' : ScanStats} (next : ScanStats), t.frame = u.frame →
      scanItems previous extensions reader (t, counts) items = .ok (t', counts') →
        ∃ u' next', scanItems other extensions reader (u, next) items = .ok (u', next') ∧
          t'.frame = u'.frame := by
  induction items with
  | nil =>
    intro t t' u counts counts' next hframe h
    obtain ⟨rfl, -⟩ := Prod.mk.inj (Except.ok.inj h)
    exact ⟨u, next, rfl, hframe⟩
  | cons f items ih =>
    intro t t' u counts counts' next hframe h
    obtain ⟨⟨t₁, counts₁⟩, hitem, hrest⟩ := scanItems_cons_eq_ok_iff.1 h
    obtain ⟨u₁, next₁, hadded, hframe₁⟩ :=
      (scanItem_eq_ok_iff.1 hitem).exists_frame hother hframe next
    obtain ⟨u', next', hscan, hframe'⟩ := ih next₁ hframe₁ hrest
    exact ⟨u', next', scanItems_cons_eq_ok_iff.2 ⟨_, scanItem_eq_ok_iff.2 hadded, hscan⟩, hframe'⟩

/-! ### Source files below a directory -/

/-- In a list in strict order, all else comes before what is last. -/
theorem eq_or_rel_of_getLast? {α : Type} {r : α → α → Prop} {l : List α} (hl : l.Pairwise r)
    {a last : α} (hlast : l.getLast? = some last) (ha : a ∈ l) : a = last ∨ r a last := by
  obtain ⟨earlier, rfl⟩ := List.getLast?_eq_some_iff.1 hlast
  rcases List.mem_append.1 ha with hbefore | hsame
  · exact .inr ((List.pairwise_append.1 hl).2.2 a hbefore last List.mem_cons_self)
  · exact .inl (List.mem_singleton.1 hsame)

namespace Entry

/-- The file of a name in the directory at a place is the source of a module, and bears a time. -/
def Source (e : Entry) (extensions above : List String) (name stem : String)
    (modified : Millis) : Prop :=
  moduleName name extensions = some stem ∧
    ∃ bytes, e.at? (above ++ [name]) = some (.file bytes modified)

/-- There is a source file at a place. -/
def IsSource (e : Entry) (extensions place : List String) : Prop :=
  ∃ above name stem modified, place = above ++ [name] ∧ e.Source extensions above name stem modified

/-- Some source file is that of the module at a path. -/
def IsModule (e : Entry) (extensions path : List String) : Prop :=
  ∃ above name stem modified, path = above ++ [stem] ∧ e.Source extensions above name stem modified

/-- A tree and its counts are those of a directory. -/
structure Mirrored (here : Entry) (extensions : List String) (t : Tree)
    (stats : ScanStats) : Prop where
  /-- The tree passes its check. -/
  intact : t.isIntact = true
  /-- Apart from the root, its paths are those of the directories and of the modules. -/
  paths : ∀ path, path ≠ [] →
    (t.descend? Tree.root path ≠ none ↔ here.isDirAt path = true ∨ here.IsModule extensions path)
  /-- The modules are its files. -/
  files : ∀ path, t.fileAt path ≠ none ↔ here.IsModule extensions path
  /-- A file bears the time of the last one by name among its source files. -/
  times : ∀ above stem n, t.fileAt (above ++ [stem]) = some n → ∃ name modified,
    here.Source extensions above name stem modified ∧ n.modified = some modified ∧
      ∀ other time, here.Source extensions above other stem time → other ≤ name
  /-- The counts agree with each other. -/
  sound : stats.Sound
  /-- All source files are counted. -/
  fileCount : {place | here.IsSource extensions place}.encard = stats.files
  /-- All directories are counted. -/
  directoryCount : {place | place ≠ [] ∧ here.isDirAt place = true}.encard = stats.directories

variable {here : Entry} {place : List String}

section Sources

variable {above : List String} {name stem : String} {modified : Millis}

/-- Source files are in directories. -/
theorem Source.isDirAt (h : here.Source extensions above name stem modified) :
    here.isDirAt above = true := by
  obtain ⟨-, bytes, hfile⟩ := h
  cases habove : here.isDirAt above with
  | true => rfl
  | false =>
    rw [at?_append_eq_none habove (List.cons_ne_nil name [])] at hfile
    cases hfile

theorem Source.isBelow (h : here.Source extensions above name stem modified) :
    here.IsBelow (above ++ [name]) := by
  obtain ⟨-, bytes, hfile⟩ := h
  rw [IsBelow, hfile]
  exact ⟨by simp, rfl⟩

end Sources

section Items

variable (hfree : here.linkFree = true)

include hfree

/-- Below a directory without links, a walk shows directories, and files with what they hold. -/
theorem item_cases (hplace : here.IsBelow place) (p : Path) (extensions : List String) :
    (here.isDirAt place = true ∧ (here.item p [] place).file = none ∧
      (here.item p [] place).segments? extensions = some place) ∨
    ∃ above name bytes modified, place = above ++ [name] ∧
      here.at? (above ++ [name]) = some (.file bytes modified) ∧
      (here.item p [] place).file = some (.ok (bytes, modified)) ∧
        (here.item p [] place).segments? extensions
          = (moduleName name extensions).map fun stem => above ++ [stem] := by
  obtain ⟨hne, hsome⟩ := hplace
  obtain ⟨e, he⟩ := Option.isSome_iff_exists.1 hsome
  have hitem : here.item p [] place = ⟨p.below place, place, e.content?⟩ := by
    rw [item, he, Option.bind_some, List.nil_append]
  rw [hitem]
  cases e with
  | dir children => exact .inl ⟨isDirAt_iff.2 ⟨children, he⟩, rfl, rfl⟩
  | link target => exact absurd (linkFree_of_at? hfree he) (by simp [linkFree])
  | file bytes modified =>
    obtain ⟨above, name, rfl⟩ := (List.eq_nil_or_concat' place).resolve_left hne
    refine .inr ⟨above, name, bytes, modified, rfl, he, rfl, ?_⟩
    simp only [Found.segments?, content?, List.getLast?_concat, List.dropLast_concat]

/-- What goes to a place of the tree as a source file. -/
theorem sourcePlace?_item_iff (hplace : here.IsBelow place) {p : Path} {path : List String} :
    (here.item p [] place).sourcePlace? extensions = some path ↔
      ∃ above name stem modified, place = above ++ [name] ∧ path = above ++ [stem] ∧
        here.Source extensions above name stem modified := by
  rcases item_cases hfree hplace p extensions with
    ⟨hdir, hfile, -⟩ | ⟨above, name, bytes, modified, rfl, he, hfile, hsegments⟩
  · obtain ⟨children, he⟩ := isDirAt_iff.1 hdir
    rw [Found.sourcePlace?, hfile]
    constructor
    · intro h
      cases h
    · rintro ⟨above, name, stem, modified, rfl, -, -, bytes, hbytes⟩
      rw [he] at hbytes
      cases hbytes
  · rw [Found.sourcePlace?_of_file hfile, hsegments, Option.map_eq_some_iff]
    constructor
    · rintro ⟨stem, hstem, rfl⟩
      exact ⟨above, name, stem, modified, rfl, rfl, hstem, bytes, he⟩
    · rintro ⟨above', name', stem, modified', hplace', rfl, hstem, -⟩
      obtain ⟨rfl, hname⟩ := List.append_inj' hplace' rfl
      obtain rfl := List.singleton_inj.1 hname
      exact ⟨stem, hstem, rfl⟩

theorem Source.sourcePlace?_eq {above : List String} {name stem : String} {modified : Millis}
    (h : here.Source extensions above name stem modified) (p : Path) :
    (here.item p [] (above ++ [name])).sourcePlace? extensions = some (above ++ [stem]) :=
  (sourcePlace?_item_iff hfree h.isBelow).2 ⟨above, name, stem, modified, rfl, rfl, h⟩

variable (hdir : here.isDir = true) (hordered : here.ordered = true) (p : Path)

include hdir hordered

/-- No item is a file that cannot be looked at. -/
theorem file_ne_error_of_mem {f : Found} (hf : f ∈ here.items p) (e : IoError) :
    f.file ≠ some (.error e) := by
  obtain ⟨place, hplace, rfl⟩ := (mem_items_iff hdir hordered).1 hf
  rcases item_cases hfree hplace p [] with ⟨-, hfile, -⟩ | ⟨-, -, bytes, modified, -, -, hfile, -⟩
  all_goals rw [hfile]; simp

/-- The places to which items go are those of the directories and of the modules, with all that is
above them. -/
theorem exists_segments?_iff {path : List String} (hne : path ≠ []) :
    (∃ f ∈ here.items p, ∃ place, f.segments? extensions = some place ∧ path <+: place) ↔
      here.isDirAt path = true ∨ here.IsModule extensions path := by
  constructor
  · rintro ⟨f, hf, place, hplace, hprefix⟩
    obtain ⟨q, hq, rfl⟩ := (mem_items_iff hdir hordered).1 hf
    rcases item_cases hfree hq p extensions with
      ⟨hqdir, -, hsegments⟩ | ⟨above, name, bytes, modified, rfl, he, -, hsegments⟩
    · obtain rfl := Option.some.inj (hsegments.symm.trans hplace)
      exact .inl <| isDirAt_of_prefix hqdir hprefix
    · obtain ⟨stem, hstem, rfl⟩ := Option.map_eq_some_iff.1 (hsegments.symm.trans hplace)
      have hsource : here.Source extensions above name stem modified := ⟨hstem, bytes, he⟩
      rcases List.prefix_concat_iff.1 hprefix with rfl | habove
      · exact .inr ⟨above, name, stem, modified, rfl, hsource⟩
      · exact .inl <| isDirAt_of_prefix hsource.isDirAt habove
  · have hitem : ∀ {q}, here.IsBelow q → (here.item p [] q).segments? extensions = some path →
        ∃ f ∈ here.items p, ∃ place, f.segments? extensions = some place ∧ path <+: place :=
      fun hq hsegments =>
        ⟨_, (mem_items_iff hdir hordered).2 ⟨_, hq, rfl⟩, path, hsegments, List.prefix_rfl⟩
    rintro (hisdir | ⟨above, name, stem, modified, rfl, hsource⟩)
    · obtain ⟨children, he⟩ := isDirAt_iff.1 hisdir
      refine hitem ⟨hne, by rw [he]; rfl⟩ ?_
      rw [item, he]
      rfl
    · refine hitem hsource.isBelow ?_
      obtain ⟨hstem, bytes, he⟩ := hsource
      rw [Found.segments?, item, he]
      simp [content?, hstem]

/-- The source files of a walk are those of the modules. -/
theorem exists_sourcePlace?_iff {path : List String} :
    (∃ f ∈ here.items p, f.sourcePlace? extensions = some path) ↔
      here.IsModule extensions path := by
  constructor
  · rintro ⟨f, hf, hpath⟩
    obtain ⟨place, hplace, rfl⟩ := (mem_items_iff hdir hordered).1 hf
    obtain ⟨above, name, stem, modified, -, hpath, hsource⟩ :=
      (sourcePlace?_item_iff hfree hplace).1 hpath
    exact ⟨above, name, stem, modified, hpath, hsource⟩
  · rintro ⟨above, name, stem, modified, rfl, hsource⟩
    exact ⟨_, (mem_items_iff hdir hordered).2 ⟨_, hsource.isBelow, rfl⟩,
      hsource.sourcePlace?_eq hfree p⟩

/-- The last source file of a module is the last one by name. -/
theorem exists_of_lastSource {above : List String} {stem : String} {f : Found}
    (h : lastSource extensions (above ++ [stem]) (here.items p) = some f) :
    ∃ name bytes modified, f.content? = some (bytes, modified) ∧
      here.Source extensions above name stem modified ∧
      ∀ other time, here.Source extensions above other stem time → other ≤ name := by
  rw [lastSource, items, List.filter_map, List.getLast?_map, Option.map_eq_some_iff] at h
  obtain ⟨last, hlast, rfl⟩ := h
  have hmem : ∀ {q}, q ∈ here.places.tail.filter
      ((fun g => decide (g.sourcePlace? extensions = some (above ++ [stem]))) ∘ here.item p []) ↔
        here.IsBelow q ∧ (here.item p [] q).sourcePlace? extensions = some (above ++ [stem]) := by
    intro q
    rw [List.mem_filter, mem_tail_places_iff hdir hordered, Function.comp_apply, decide_eq_true_eq]
  obtain ⟨hbelow, hplace⟩ := hmem.1 (List.mem_of_getLast? hlast)
  obtain ⟨above', name, stem', modified, rfl, hpath, hsource⟩ :=
    (sourcePlace?_item_iff hfree hbelow).1 hplace
  obtain ⟨rfl, hstem⟩ := List.append_inj' hpath rfl
  obtain rfl := List.singleton_inj.1 hstem
  obtain ⟨bytes, he⟩ := hsource.2
  refine ⟨name, bytes, modified, ?_, hsource, fun other time hother => ?_⟩
  · rw [Found.content?_eq_some_iff, item, he]
    rfl
  · have hlisted := hmem.2 ⟨hother.isBelow, hother.sourcePlace?_eq hfree p⟩
    rcases eq_or_rel_of_getLast? ((pairwise_places here hordered).tail.filter _) hlast hlisted with
      hsame | hlt
    · obtain ⟨-, hname⟩ := List.append_inj' hsame rfl
      obtain rfl := List.singleton_inj.1 hname
      exact String.le_refl other
    · rw [Ordered.compare_append, List.compare_cons_cons] at hlt
      have hnames : compare other name = .lt := by simpa using hlt
      exact Std.le_of_lt (compareOfLessAndEq_eq_lt.1 hnames)

omit hfree in
/-- Counting items is counting places. -/
theorem encard_eq_countP {check : Found → Bool} {s : Set (List String)}
    (hs : ∀ place, place ∈ s ↔ here.IsBelow place ∧ check (here.item p [] place) = true) :
    s.encard = (here.items p).countP check := by
  have hnodup : (here.places.tail.filter fun place => check (here.item p [] place)).Nodup := by
    refine ((pairwise_places here hordered).tail.imp fun {a b} h => ?_).filter _
    rintro rfl
    have hself : compare a a = .eq := Std.ReflCmp.compare_self
    rw [hself] at h
    cases h
  have hlisted :
      s = (here.places.tail.filter fun place => check (here.item p [] place)).toFinset := by
    ext place
    rw [hs, ← mem_tail_places_iff hdir hordered, Finset.mem_coe, List.mem_toFinset, List.mem_filter]
  rw [hlisted, Set.encard_coe_eq_coe_finsetCard, List.toFinset_card_of_nodup hnodup, items,
    List.countP_map, List.countP_eq_length_filter]
  rfl

/-- The items that are source files are as many as the source files. -/
theorem encard_isSource : {place | here.IsSource extensions place}.encard
    = (here.items p).countP fun f => (f.sourcePlace? extensions).isSome := by
  apply encard_eq_countP hdir hordered
  intro place
  constructor
  · rintro ⟨above, name, stem, modified, rfl, hsource⟩
    exact ⟨hsource.isBelow, Option.isSome_iff_exists.2 ⟨_, hsource.sourcePlace?_eq hfree p⟩⟩
  · rintro ⟨hplace, hsome⟩
    obtain ⟨path, hpath⟩ := Option.isSome_iff_exists.1 hsome
    obtain ⟨above, name, stem, modified, rfl, -, hsource⟩ :=
      (sourcePlace?_item_iff hfree hplace).1 hpath
    exact ⟨above, name, stem, modified, rfl, hsource⟩

/-- The items that are directories are as many as the directories. -/
theorem encard_isDirAt : {place | place ≠ [] ∧ here.isDirAt place = true}.encard
    = (here.items p).countP fun f => f.file.isNone := by
  apply encard_eq_countP hdir hordered
  intro place
  constructor
  · rintro ⟨hne, hisdir⟩
    obtain ⟨children, he⟩ := isDirAt_iff.1 hisdir
    rw [IsBelow, item, he]
    exact ⟨⟨hne, rfl⟩, rfl⟩
  · rintro ⟨hplace, hnone⟩
    rcases item_cases hfree hplace p [] with
      ⟨hisdir, -, -⟩ | ⟨-, -, bytes, modified, -, -, hfile, -⟩
    · exact ⟨hplace.1, hisdir⟩
    · rw [hfile] at hnone
      cases hnone

end Items

end Entry

/-! ### Scans -/

section Scan

variable {d : Disk} {p : Path} {here : Entry} {t : Tree} {stats : ScanStats}

/-- The files of a scan are the modules of the source files of its walk. -/
theorem Disk.fileAt_scan_ne_none_iff (hdir : here.isDir = true) (hfree : here.linkFree = true)
    (hordered : here.ordered = true) (hwalk : d.walk p = here.items p)
    (hscan : d.scan p previous extensions reader = .ok (t, stats)) (path : List String) :
    t.fileAt path ≠ none ↔ here.IsModule extensions path := by
  have hrecord := (Disk.record_fileAt_scan hscan).2 path
  rw [hwalk] at hrecord
  rw [← Entry.exists_sourcePlace?_iff hfree hdir hordered p, ← lastSource_ne_none_iff]
  constructor
  · intro h hlast
    rw [hlast] at hrecord
    exact h (Option.map_eq_none_iff.1 hrecord)
  · intro hlast hnone
    obtain ⟨above, -, stem, -, rfl, -⟩ :=
      (Entry.exists_sourcePlace?_iff hfree hdir hordered p).1 (lastSource_ne_none_iff.1 hlast)
    obtain ⟨f, hf⟩ := Option.ne_none_iff_exists'.1 hlast
    -- what is last has been looked at, so it is recorded
    obtain ⟨-, bytes, modified, hcontent, -⟩ := Entry.exists_of_lastSource hfree hdir hordered p hf
    rw [hnone, hf, Option.bind_some, Found.entry?, hcontent] at hrecord
    cases hrecord

/-- A file of a scan bears the time of the last of its source files. -/
theorem Disk.modified_of_fileAt_scan (hdir : here.isDir = true) (hfree : here.linkFree = true)
    (hordered : here.ordered = true) (hwalk : d.walk p = here.items p)
    (hscan : d.scan p previous extensions reader = .ok (t, stats)) {above : List String}
    {stem : String} {n : Node} (hn : t.fileAt (above ++ [stem]) = some n) :
    ∃ name modified, here.Source extensions above name stem modified ∧ n.modified = some modified ∧
      ∀ other time, here.Source extensions above other stem time → other ≤ name := by
  have hrecord := (Disk.record_fileAt_scan hscan).2 (above ++ [stem])
  rw [hwalk, hn] at hrecord
  obtain ⟨f, hlast, hentry⟩ := Option.bind_eq_some_iff.1 hrecord.symm
  obtain ⟨name, bytes, modified, hcontent, hsource, hgreatest⟩ :=
    Entry.exists_of_lastSource hfree hdir hordered p hlast
  rw [Found.entry?, hcontent] at hentry
  have htime : some modified = n.modified :=
    congrArg (fun record => record.2.1) (Option.some.inj hentry)
  exact ⟨name, modified, hsource, htime.symm, hgreatest⟩

/-- A scan that succeeds mirrors what its walk shows. -/
theorem Disk.mirrored_of_scan (hdir : here.isDir = true) (hfree : here.linkFree = true)
    (hordered : here.ordered = true) (hwalk : d.walk p = here.items p)
    (hscan : d.scan p previous extensions reader = .ok (t, stats)) :
    here.Mirrored extensions t stats := by
  have hitems : scanItems previous extensions reader (Tree.new p.displayName, {}) (here.items p) =
      .ok (t, stats) := by
    rw [← hwalk]
    exact hscan
  obtain ⟨hsound, hfiles, hdirectories⟩ := counts_scanItems ⟨rfl, Nat.zero_le _⟩ hitems
  refine {
    intact := Tree.isIntact_of_scan hscan
    paths := fun path hne => ?paths
    files := Disk.fileAt_scan_ne_none_iff hdir hfree hordered hwalk hscan
    times := fun above stem n => Disk.modified_of_fileAt_scan hdir hfree hordered hwalk hscan
    sound := hsound
    fileCount := ?fileCount
    directoryCount := ?directoryCount }
  case paths =>
    -- a new tree has the root alone
    have hnew : (Tree.new p.displayName).descend? Tree.root path = none := by
      cases path with
      | nil => exact absurd rfl hne
      | cons s path => rfl
    rw [descend?_scanItems_ne_none_iff path (Tree.orderly_new _) hitems, hnew, ne_self_iff_false,
      false_or, Entry.exists_segments?_iff hfree hdir hordered p hne]
  case fileCount => rw [Entry.encard_isSource hfree hdir hordered p, hfiles, Nat.zero_add]
  case directoryCount => rw [Entry.encard_isDirAt hfree hdir hordered p, hdirectories, Nat.zero_add]

end Scan

/-- **A scan mirrors the disk.**  Where there are no links and all can be looked at, a scan
succeeds, with the tree and the counts of its directory, and an earlier tree that passes its check
has no influence on nodes, links and times.  Directories hold their entries in the order of the
names, and only what has too long a path cannot be looked at. -/
theorem Disk.exists_frame_of_scan {d : Disk} {p : Path} {here : Entry} (hhere : d.stat p = .ok here)
    (hdir : here.isDir = true) (hfree : here.linkFree = true) (hordered : here.ordered = true)
    (hshort : ∀ place, (here.at? place).isSome = true → (p.below place).isLong = false)
    (extensions : List String) (reader : SourceReader) :
    ∃ skeleton : Tree, ∀ previous : Option Tree, (∀ u, previous = some u → u.isIntact = true) →
      ∃ t stats, d.scan p previous extensions reader = .ok (t, stats) ∧ t.frame = skeleton ∧
        here.Mirrored extensions t stats := by
  have hwalk := d.walk_eq_items hhere hdir hfree hordered hshort
  have hscans : ∀ previous : Option Tree, (∀ u, previous = some u → u.Linked) →
      ∃ result, d.scan p previous extensions reader = .ok result := by
    intro previous hlinked
    have hstart : (Tree.new p.displayName, ({} : ScanStats)).1.Linked := Tree.linked_new _
    rcases scanItems_cases hlinked hstart with hok | ⟨f, hf, e, hfile, -⟩
    · exact hok
    · rw [hwalk] at hf
      exact absurd hfile (Entry.file_ne_error_of_mem hfree hdir hordered p hf e)
  -- the scan without an earlier tree shows what every other one comes to
  obtain ⟨⟨fresh, freshStats⟩, hfresh⟩ := hscans none (by simp)
  refine ⟨fresh.frame, fun previous hprevious => ?_⟩
  have hlinked : ∀ u, previous = some u → u.Linked :=
    fun u hu => Tree.linked_of_isIntact (hprevious u hu)
  obtain ⟨t, stats, hscan, hframe⟩ := exists_frame_scanItems hlinked {} rfl hfresh
  exact ⟨t, stats, hscan, hframe.symm, Disk.mirrored_of_scan hdir hfree hordered hwalk hscan⟩

/-- A directory in which two files and a directory go to one place of a tree. -/
def mergedDirectory : Entry :=
  .dir [("a", .dir [("b.js", .file .empty 3)]), ("a.js", .file .empty 2), ("a.mjs", .file .empty 1),
    ("notes.txt", .file .empty 4)]

/-- A disk with that directory. -/
def mergedDisk : Disk where
  root := .dir [("lib", mergedDirectory)]

theorem Disk.exists_frame_of_scan_merged :
    mergedDisk.stat ⟨"/lib"⟩ = .ok mergedDirectory ∧ mergedDirectory.isDir = true ∧
      mergedDirectory.linkFree = true ∧ mergedDirectory.ordered = true ∧
        (∀ place, (mergedDirectory.at? place).isSome = true →
          ((Path.mk "/lib").below place).isLong = false) ∧
          ∃ skeleton : Tree, ∀ previous : Option Tree,
            (∀ u, previous = some u → u.isIntact = true) →
            ∃ t stats, mergedDisk.scan ⟨"/lib"⟩ previous ["js", "mjs"] = .ok (t, stats) ∧
              t.frame = skeleton ∧ mergedDirectory.Mirrored ["js", "mjs"] t stats := by
  have hstat : mergedDisk.stat ⟨"/lib"⟩ = .ok mergedDirectory := by with_unfolding_all rfl
  have hordered : mergedDirectory.ordered = true := by with_unfolding_all decide
  have hlisted : ∀ place ∈ mergedDirectory.places,
      ((Path.mk "/lib").below place).isLong = false := by
    with_unfolding_all decide
  have hshort : ∀ place, (mergedDirectory.at? place).isSome = true →
      ((Path.mk "/lib").below place).isLong = false :=
    fun place hplace => hlisted place ((Entry.mem_places_iff hordered).2 hplace)
  exact ⟨hstat, rfl, by with_unfolding_all decide, hordered, hshort,
    Disk.exists_frame_of_scan hstat rfl (by with_unfolding_all decide) hordered hshort
      ["js", "mjs"] amdReader⟩

end ModuleAtlas
