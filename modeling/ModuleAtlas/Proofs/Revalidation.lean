import ModuleAtlas.Proofs.ScanMirror
import ModuleAtlas.Proofs.StemCollisions

/-!
# Scanning the same state again

A scan against the tree of an earlier scan of the same state gives that tree again, with the same
files and the same directories.  What it does not always save is reading: a node has the time of the
last source file that goes to its place, so a file that goes there too and has another time does not
find its own time, and is read again with every scan.  What it declares is then overwritten by what
was recorded.

## Main definitions

* `Found.origin?` — how the data of an item come about in a scan.
* `overtaken` — a source file does not have the time of the last one at its place.
* `TimesAgree` — source files of one place have one time.

## Main results

* `Tree.eq_of_frame_eq` — trees are known by their frames and by what they record at paths.
* `origins_scanItems` — how many files of a walk are read, and how many of them fail.
* `derive_lastSource` — what was recorded about the last source file of a place is taken over as it
  is.
* `parsed_eq_count_overtaken` — **scanning again gives the same tree, and reads what was
  overtaken.**
* `not_idle_of_twins` — two files of one module and different times keep a scan from being idle.
-/

namespace ModuleAtlas

variable {previous : Option Tree} {extensions : List String} {reader : SourceReader} {d : Disk}
  {p : Path} {t : Tree} {stats : ScanStats} {place : List String} {f : Found}

/-! ### Trees with one frame -/

theorem Node.eq_of_frame_eq {m n : Node} (hframe : m.frame = n.frame)
    (hrecord : m.record = n.record) : m = n := by
  obtain ⟨hname, hparent, hchildren, -, -, -⟩ := Node.mk.inj hframe
  obtain ⟨hdeps, htimes⟩ := Prod.mk.inj hrecord
  obtain ⟨hmodified, hdepsModified⟩ := Prod.mk.inj htimes
  obtain ⟨name, parent, children, deps, modified, depsModified⟩ := m
  simp_all

/-- A tidy node without a time records nothing. -/
theorem Node.Tidy.record_eq {n : Node} (hn : n.Tidy) (hfile : n.isFile = false) :
    n.record = ({}, none, none) := by
  have hmodified : n.modified = none := by simpa [isFile] using hfile
  rw [hn, data?, hmodified]
  rfl

/-- Trees are known by their frames and by what they record at paths. -/
theorem Tree.eq_of_frame_eq {u : Tree} (ht : t.Orderly) (hu : u.Orderly)
    (hframe : t.frame = u.frame)
    (hrecord : ∀ place, (t.fileAt place).map Node.record = (u.fileAt place).map Node.record) :
    t = u := by
  have hnodes : ∀ i, t.node? i = u.node? i := by
    intro i
    have hrow := map_node?_of_mapNodes_eq hframe i
    cases hm : t.node? i with
    | none =>
      rw [hm] at hrow
      exact (Option.map_eq_none_iff.1 hrow.symm).symm
    | some m =>
      rw [hm] at hrow
      obtain ⟨n, hn, hnode⟩ := Option.map_eq_some_iff.1 hrow.symm
      rw [hn]
      refine congrArg some (Node.eq_of_frame_eq hnode.symm ?_)
      -- the row has the same path in both trees, where they record the same
      obtain ⟨path, hpath⟩ := ht.covered i (Array.getElem?_eq_some_iff.1 hm).1
      have hpath' : u.descend? root path = some i := by
        rw [← descend?_mapNodes Node.keepsLinks_frame,
          ← show t.frame = u.mapNodes Node.frame from hframe, frame,
          descend?_mapNodes Node.keepsLinks_frame, hpath]
      have hfile : m.isFile = n.isFile := show m.frame.isFile = n.frame.isFile by rw [hnode]
      have hsame := hrecord path
      rw [fileAt_of_descend? hpath, fileAt_of_descend? hpath', hm, hn, Option.filter_some,
        Option.filter_some, hfile] at hsame
      cases hf : n.isFile with
      | true =>
        rw [hf] at hsame
        exact Option.some.inj hsame
      | false => rw [(ht.tidy hm).record_eq (hfile.trans hf), (hu.tidy hn).record_eq hf]
  obtain ⟨rows⟩ := t
  obtain ⟨rows'⟩ := u
  exact congrArg mk (Array.ext_getElem? hnodes)

/-! ### What a scan reads -/

/-- A file is read unless its time is recorded. -/
theorem origin_derive (known : Option Node) (bytes : ByteArray) (modified : Millis)
    (reader : SourceReader) :
    (derive known bytes modified reader).origin = if known.bind Node.modified =
      some modified then .reused
      else if (declaredBy bytes reader).isSome then .parsed else .failed := by
  cases known with
  | none => rfl
  | some n =>
    rw [derive, Option.bind_some]
    split <;> rfl

namespace Found

/-- The time of a file that can be looked at. -/
def time? (f : Found) : Option Millis := f.content?.map (·.2)

/-- How the data of a source file come about, given an earlier tree. -/
def origin? (previous : Option Tree) (extensions : List String) (reader : SourceReader)
    (f : Found) : Option Origin :=
  (f.sourcePlace? extensions).bind fun place => f.content?.map fun content =>
    (derive (cached previous place).toOption.join content.1 content.2 reader).origin

/-- The data of a file are read, with or without success. -/
def isRead (previous : Option Tree) (extensions : List String) (reader : SourceReader)
    (f : Found) : Bool :=
  f.origin? previous extensions reader = some .parsed ∨
    f.origin? previous extensions reader = some .failed

end Found

/-- What an item adds to the counts of files that are read. -/
theorem ItemAdded.origins {t' : Tree} {counts counts' : ScanStats}
    (h : ItemAdded previous extensions reader t counts f t' counts') :
    counts'.parsed = counts.parsed + (if f.isRead previous extensions reader then 1 else 0) ∧
      counts'.failed =
        counts.failed + (if f.origin? previous extensions reader = some .failed then 1 else 0) := by
  cases h with
  | skipped hplace =>
    have hnone : f.origin? previous extensions reader = none := by
      rw [Found.origin?, Found.sourcePlace?, hplace, ite_self]
      rfl
    simp [Found.isRead, hnone]
  | directory _ _ hfile =>
    have hnone : f.origin? previous extensions reader = none := by
      rw [Found.origin?, Found.sourcePlace?, hfile]
      rfl
    simp [Found.isRead, hnone, ScanStats.addDirectory]
  | @recorded place _ _ _ bytes modified known hplace _ hfile hknown _ =>
    have horigin : f.origin? previous extensions reader =
        some (derive known bytes modified reader).origin := by
      rw [Found.origin?, Found.sourcePlace?_of_file hfile, hplace, Option.bind_some,
        Found.content?_eq_some_iff.2 hfile, hknown]
      rfl
    rw [Found.isRead, horigin]
    cases (derive known bytes modified reader).origin <;> simp [ScanStats.addFile]

/-- How many files of a walk are read, and how many of them fail. -/
theorem origins_scanItems {items : List Found} : ∀ {t t' : Tree} {counts counts' : ScanStats},
    scanItems previous extensions reader (t, counts) items = .ok (t', counts') →
      counts'.parsed = counts.parsed + items.countP (Found.isRead previous extensions reader) ∧
        counts'.failed = counts.failed + items.countP fun f =>
          f.origin? previous extensions reader = some .failed := by
  induction items with
  | nil =>
    intro t t' counts counts' h
    obtain ⟨-, rfl⟩ := Prod.mk.inj (Except.ok.inj h)
    exact ⟨rfl, rfl⟩
  | cons f items ih =>
    intro t t' counts counts' h
    obtain ⟨⟨u, next⟩, hitem, hrest⟩ := scanItems_cons_eq_ok_iff.1 h
    obtain ⟨hparsed, hfailed⟩ := (scanItem_eq_ok_iff.1 hitem).origins
    obtain ⟨hparsed', hfailed'⟩ := ih hrest
    rw [hparsed', hparsed, hfailed', hfailed, List.countP_cons, List.countP_cons]
    simp only [decide_eq_true_eq]
    omega

/-! ### Files that are overtaken -/

/-- A source file does not have the time of the last one that goes to its place. -/
def overtaken (extensions : List String) (items : List Found) (f : Found) : Bool :=
  (f.sourcePlace? extensions).any fun place =>
    (lastSource extensions place items).bind Found.time? != f.time?

/-- Source files that go to one place have one time. -/
def TimesAgree (extensions : List String) (items : List Found) : Prop :=
  ∀ f ∈ items, ∀ g ∈ items, ∀ place ∈ f.sourcePlace? extensions,
    g.sourcePlace? extensions = some place →
    f.time? = g.time?

/-- The times agree exactly if no file is overtaken. -/
theorem timesAgree_iff {items : List Found} :
    TimesAgree extensions items ↔ ∀ f ∈ items, overtaken extensions items f = false := by
  have hcurrent : ∀ {f place}, f.sourcePlace? extensions = some place →
      (overtaken extensions items f = false ↔
      (lastSource extensions place items).bind Found.time? = f.time?) := by
    intro f place hplace
    rw [overtaken, hplace, Option.any_some, bne_eq_false_iff_eq]
  constructor
  · intro h f hf
    cases hplace : f.sourcePlace? extensions with
    | none => rw [overtaken, hplace, Option.any_none]
    | some place =>
      obtain ⟨g, hg⟩ := Option.ne_none_iff_exists'.1 (lastSource_ne_none_iff.2 ⟨f, hf, hplace⟩)
      obtain ⟨hmem, hgplace⟩ := mem_of_lastSource hg
      rw [hcurrent hplace, hg, Option.bind_some]
      exact h g hmem f hf place hgplace hplace
  · intro h f hf g hg place hplace hgplace
    exact ((hcurrent hplace).1 (h f hf)).symm.trans ((hcurrent hgplace).1 (h g hg))

/-! ### The same state again -/

section Again

variable (hscan : d.scan p previous extensions reader = .ok (t, stats))

include hscan

/-- All source files of a walk have been looked at. -/
theorem exists_content_of_scan (hf : f ∈ d.walk p)
    (hplace : f.sourcePlace? extensions = some place) :
    ∃ bytes modified, f.content? = some (bytes, modified) := by
  cases hfile : f.file with
  | none => simp [Found.sourcePlace?, hfile] at hplace
  | some content =>
    cases content with
    | error e =>
      rw [Found.sourcePlace?_of_file hfile, segments?_eq_none_of_scanItems hscan f hf e hfile]
        at hplace
      cases hplace
    | ok content => exact ⟨content.1, content.2, Found.content?_eq_some_iff.2 hfile⟩

/-- A module has the time of the last source file at its place. -/
theorem modified_fileAt_scan (place : List String) :
    (t.fileAt place).bind Node.modified =
      (lastSource extensions place (d.walk p)).bind Found.time? := by
  have hrecord := congrArg (fun o => o.bind fun r : Deps × Option Millis × Option Millis => r.2.1)
    ((Disk.record_fileAt_scan hscan).2 place)
  simp only [Option.bind_map] at hrecord
  refine hrecord.trans ?_
  cases lastSource extensions place (d.walk p) with
  | none => rfl
  | some f =>
    rw [Option.bind_some, Option.bind_some, Found.entry?, Found.time?]
    cases f.content? <;> rfl

variable (hd : d.root.wellNamed = true)

include hd

/-- The tree of the scan is asked for the module of a source file. -/
theorem cached_of_scan (hf : f ∈ d.walk p) (hplace : f.sourcePlace? extensions = some place) :
    (cached (some t) place).toOption.join = t.fileAt place :=
  cached_of_sourcePlace? (by simpa using (Disk.record_fileAt_scan hscan).1) hd hf hplace

/-- What was recorded about the last source file of a place is taken over as it is. -/
theorem entry?_lastSource (hf : lastSource extensions place (d.walk p) = some f) :
    f.entry? (some t) reader place = f.entry? previous reader place := by
  obtain ⟨hmem, hplace⟩ := mem_of_lastSource hf
  obtain ⟨bytes, modified, hcontent⟩ := exists_content_of_scan hscan hmem hplace
  have hrecord := (Disk.record_fileAt_scan hscan).2 place
  rw [hf, Option.bind_some] at hrecord
  rw [← hrecord, Found.entry?, hcontent, cached_of_scan hscan hd hmem hplace]
  rw [Found.entry?, hcontent] at hrecord
  obtain ⟨n, hn, hnode⟩ := Option.map_eq_some_iff.1 hrecord
  obtain ⟨hdeps, htimes⟩ := Prod.mk.inj hnode
  obtain ⟨hmodified, hdepsModified⟩ := Prod.mk.inj htimes
  rw [hn]
  simp [derive, Node.record, hmodified, hdepsModified]

/-- Against the tree of the scan, the files that are read are those that were overtaken. -/
theorem isRead_eq_overtaken (hf : f ∈ d.walk p) :
    f.isRead (some t) extensions reader = overtaken extensions (d.walk p) f ∧
      (f.origin? (some t) extensions reader = some .failed ↔
        overtaken extensions (d.walk p) f = true ∧
          (f.content?.bind fun a => declaredBy a.1 reader) = none) := by
  cases hplace : f.sourcePlace? extensions with
  | none => simp [Found.isRead, Found.origin?, overtaken, hplace]
  | some place =>
    obtain ⟨bytes, modified, hcontent⟩ := exists_content_of_scan hscan hf hplace
    rw [Found.isRead, Found.origin?, overtaken, hplace, Option.bind_some, Option.any_some,
      ← modified_fileAt_scan hscan place, cached_of_scan hscan hd hf hplace, Found.time?, hcontent,
      Option.map_some,
      Option.map_some, origin_derive, Option.bind_some]
    by_cases htime : (t.fileAt place).bind Node.modified = some modified
    · simp [htime]
    · cases declaredBy bytes reader <;> simp [htime]

/-- **Scanning the same state again gives the same tree, and reads what was overtaken.**  The files
and directories are as many as before.  Files are read whose time is not that of the last source
file at their place, and those among them fail that hold no module.  So the scan is idle exactly if
source files of one place have one time. -/
theorem parsed_eq_count_overtaken : ∃ again, d.scan p (some t) extensions reader = .ok (t, again) ∧
    again.Sound ∧ again.files = stats.files ∧ again.directories = stats.directories ∧
      again.parsed = (d.walk p).countP (overtaken extensions (d.walk p)) ∧
        again.failed = (d.walk p).countP (fun f => overtaken extensions (d.walk p) f = true ∧
          (f.content?.bind fun a => declaredBy a.1 reader) = none) ∧
            ((again.parsed = 0 ∧ again.failed = 0 ∧ again.reused = again.files) ↔
              TimesAgree extensions (d.walk p)) := by
  obtain ⟨ht, hrecord⟩ := Disk.record_fileAt_scan hscan
  have hearlier : ∀ u, some t = some u → u.Linked := fun u hu => Option.some.inj hu ▸ ht
  obtain ⟨u, again, hagain, hframe⟩ := exists_frame_scanItems hearlier {} rfl hscan
  have hrecord' := (Disk.record_fileAt_scan hagain).2
  have hsame : t = u := by
    refine Tree.eq_of_frame_eq (orderly_scanItems (Tree.orderly_new _) hscan)
      (orderly_scanItems (Tree.orderly_new _) hagain) hframe fun place => ?_
    rw [hrecord, hrecord']
    cases hlast : lastSource extensions place (d.walk p) with
    | none => rfl
    | some f => exact (entry?_lastSource hscan hd hlast).symm
  subst hsame
  obtain ⟨-, hfiles, hdirectories⟩ := counts_scanItems ⟨rfl, Nat.zero_le _⟩ hscan
  obtain ⟨hsound, hfiles', hdirectories'⟩ := counts_scanItems ⟨rfl, Nat.zero_le _⟩ hagain
  obtain ⟨hparsed, hfailed⟩ := origins_scanItems hagain
  have hread : again.parsed = (d.walk p).countP (overtaken extensions (d.walk p)) := by
    rw [hparsed, Nat.zero_add]
    exact List.countP_congr fun f hf => by rw [(isRead_eq_overtaken hscan hd hf).1]
  refine ⟨again, hagain, hsound, hfiles'.trans hfiles.symm, hdirectories'.trans hdirectories.symm,
    hread, ?_, ?_⟩
  · rw [hfailed, Nat.zero_add]
    refine List.countP_congr fun f hf => ?_
    rw [decide_eq_true_eq, decide_eq_true_eq, (isRead_eq_overtaken hscan hd hf).2]
  · have hidle : again.parsed = 0 ↔ TimesAgree extensions (d.walk p) := by
      rw [hread, List.countP_eq_zero, timesAgree_iff]
      simp only [Bool.not_eq_true]
    rw [← hidle]
    have hall := hsound.files
    have hsome := hsound.failed
    omega

end Again

/-- A disk with a location that holds two source files of one module, the later one by name with the
earlier time. -/
def twinSources : Disk where
  root := .dir [("lib", .dir [("a.js", .file "define([\"./x\"], f);".toUTF8 2000),
    ("a.mjs", .file "define([\"./y\"], f);".toUTF8 1000)])]

/-- What a scan of the disk gives: the data of the later file by name. -/
def twinModule : Tree :=
  ⟨#[{ name := "lib", children := .ofList [("a", 1)] },
    { name := "a", parent := some 0, deps := { define := ["./y"] }, modified := some 1000,
      depsModified := some 1000 }]⟩

theorem scan_twins : twinSources.scan ⟨"/lib"⟩ none twoExtensions =
    .ok (twinModule, { files := 2, parsed := 2 }) := by
  with_unfolding_all rfl

/-- The earlier file by name is read with every scan. -/
theorem parsed_of_twins : twinSources.root.wellNamed = true ∧
    twinSources.scan ⟨"/lib"⟩ none twoExtensions = .ok (twinModule, { files := 2, parsed := 2 }) ∧
      ∃ again, twinSources.scan ⟨"/lib"⟩ (some twinModule) twoExtensions = .ok (twinModule, again) ∧
        again.files = 2 ∧ again.parsed = 1 ∧ again.failed = 0 ∧
          ¬ TimesAgree twoExtensions (twinSources.walk ⟨"/lib"⟩) := by
  have hnamed : twinSources.root.wellNamed = true := by with_unfolding_all decide
  obtain ⟨again, hagain, -, hfiles, -, hparsed, hfailed, hidle⟩ :=
    parsed_eq_count_overtaken scan_twins hnamed
  have hone : again.parsed = 1 := by
    rw [hparsed]
    with_unfolding_all decide
  refine ⟨hnamed, scan_twins, again, hagain, hfiles, hone, ?_, fun h => ?_⟩
  · rw [hfailed]
    with_unfolding_all decide
  · have hzero := (hidle.2 h).1
    omega

/-- **Two files of one module keep a scan from being idle**, although nothing has changed. -/
theorem not_idle_of_twins :
    ¬ ∀ (extensions : List String) (d : Disk) (p : Path) (previous : Option Tree) (t : Tree)
      (stats : ScanStats),
      d.root.wellNamed = true → (∀ u ∈ previous, u.isIntact = true) →
        d.scan p previous extensions = .ok (t, stats) →
          ∃ again, d.scan p (some t) extensions = .ok (t, again) ∧
            again.parsed = 0 ∧ again.failed = 0 ∧ again.reused = again.files := by
  intro h
  have hagain : twinSources.scan ⟨"/lib"⟩ (some twinModule) twoExtensions
      = .ok (twinModule, { files := 2, parsed := 1, reused := 1 }) := by with_unfolding_all rfl
  obtain ⟨again, hidle, hparsed, -⟩ :=
    h _ _ _ none _ _ (by with_unfolding_all decide) (by simp) scan_twins
  rw [hagain] at hidle
  obtain rfl := (Prod.mk.inj (Except.ok.inj hidle)).2
  simp at hparsed

end ModuleAtlas
