import ModuleAtlas.Proofs.FreshScan
import ModuleAtlas.Proofs.SafeReading

/-!
# Source files with the same stem

An earlier tree is asked for the module of a file and the time of the file, not for the file itself.
So where a file of one name takes the place of another with the same stem and the same time, what
was recorded about the old one stays, although a scan without an earlier tree would read the new
one.  Nothing else can go wrong: when files at one path differ in time wherever they differ in
bytes, a scan against the tree of an earlier scan records the right dependencies exactly if such
files declare the same ones.

## Main definitions

* `Tree.SameLists` — two trees have the same modules with the same dependencies.
* `StemsAgree` — different files of one place and one time declare the same dependencies.

## Main results

* `isOk_scan_eq_of_linked` — whether a scan succeeds does not depend on the earlier tree.
* `deps_derive_iff_of_scan` — what is taken over at one place.
* `sameLists_iff_stemsAgree` — **an earlier tree does not show exactly if the stems agree.**
* `not_sameLists_of_renamed` — it shows when a file gets another extension.
* `stemsAgree_singleton` — with one extension the stems agree.
-/

namespace ModuleAtlas

/-- Two trees have the same modules, and these have the same dependencies. -/
def Tree.SameLists (t u : Tree) : Prop :=
  ∀ place, (t.fileAt place).map Node.deps = (u.fileAt place).map Node.deps

/-- Where two walks end up with different source files at one place, these declare the same
dependencies or have different times. -/
def StemsAgree (extensions : List String) (reader : SourceReader)
    (before after : List Found) : Prop :=
  ∀ place, ∀ f ∈ lastSource extensions place before, ∀ g ∈ lastSource extensions place after,
    f.path ≠ g.path → ∀ a ∈ f.content?, ∀ b ∈ g.content?, a.2 = b.2 →
      (declaredBy a.1 reader).getD {} = (declaredBy b.1 reader).getD {}

variable {extensions : List String} {reader : SourceReader}

/-! ### When a scan succeeds -/

/-- A scan that succeeds has been able to look at all source files. -/
theorem segments?_eq_none_of_scanItems {previous : Option Tree} {items : List Found} :
    ∀ {state result : Tree × ScanStats},
      scanItems previous extensions reader state items = .ok result →
      ∀ f ∈ items, ∀ e, f.file = some (.error e) → f.segments? extensions = none := by
  induction items with
  | nil => simp
  | cons g items ih =>
    intro ⟨t, counts⟩ result h f hf e hfile
    obtain ⟨⟨u, next⟩, hitem, hrest⟩ := scanItems_cons_eq_ok_iff.1 h
    rcases List.mem_cons.1 hf with rfl | hf
    · cases scanItem_eq_ok_iff.1 hitem with
      | skipped hplace => exact hplace
      | directory _ _ hnone => simp [hfile] at hnone
      | recorded _ _ hok => simp [hfile] at hok
    · exact ih hrest f hf e hfile

/-- Whether a scan succeeds does not depend on the earlier tree. -/
theorem isOk_scan_eq_of_linked {t : Tree} (ht : t.Linked) (d : Disk) (p : Path) :
    (d.scan p (some t) extensions reader).isOk = (d.scan p none extensions reader).isOk := by
  have hagainst : ∀ u, some t = some u → u.Linked := fun u hu => Option.some.inj hu ▸ ht
  have hwithout : ∀ u : Tree, none = some u → u.Linked := fun u hu => by simp at hu
  have hstart : (Tree.new p.displayName, ({} : ScanStats)).1.Linked := Tree.linked_new _
  -- a file that stops one of the scans would stop the other one too
  rw [Disk.scan, Disk.scan]
  rcases scanItems_cases hagainst hstart with ⟨r, hr⟩ | ⟨f, hf, e, hfile, hplace, he⟩
  · rcases scanItems_cases hwithout hstart with ⟨r', hr'⟩ | ⟨f, hf, e, hfile, hplace, -⟩
    · rw [hr, hr']
      rfl
    · exact absurd (segments?_eq_none_of_scanItems hr f hf e hfile) hplace
  · rcases scanItems_cases hwithout hstart with ⟨r', hr'⟩ | ⟨f', hf', e', -, -, he'⟩
    · exact absurd (segments?_eq_none_of_scanItems hr' f hf e hfile) hplace
    · rw [he, he']
      rfl

/-! ### What is taken over -/

variable {d e : Disk} {p : Path} {t : Tree} {stats : ScanStats}

/-- What is recorded about the last source file at a place is what its bytes declare, unless the
last source file that the earlier scan came to there has the same time and declares something
else. -/
theorem deps_derive_iff_of_scan (he : e.root.wellNamed = true)
    (hscan : d.scan p none extensions reader = .ok (t, stats)) {place : List String} {g : Found}
    (hg : lastSource extensions place (e.walk p) = some g) {bytes : ByteArray} {modified : Millis}
    (hcontent : g.content? = some (bytes, modified)) :
    (derive (cached (some t) place).toOption.join bytes modified reader).deps =
      (declaredBy bytes reader).getD {} ↔
      ∀ f ∈ lastSource extensions place (d.walk p), ∀ a ∈ f.content?, a.2 = modified →
        (declaredBy a.1 reader).getD {} = (declaredBy bytes reader).getD {} := by
  obtain ⟨ht, hrecord⟩ := Disk.record_fileAt_scan hscan
  -- the tree is asked for the file at the place
  have hknown : (cached (some t) place).toOption.join = t.fileAt place := by
    obtain ⟨hmem, hplace⟩ := mem_of_lastSource hg
    rw [Found.sourcePlace?_of_file (Found.content?_eq_some_iff.1 hcontent)] at hplace
    have hproper := (Disk.reached_of_mem_walk he hmem).properSegment_of_segments? hplace
    obtain ⟨known, hcached⟩ :=
      exists_cached (fun u (hu : some t = some u) => Option.some.inj hu ▸ ht) place
    rw [hcached, ← cached_eq_fileAt hproper hcached]
    rfl
  rw [hknown, deps_derive_iff]
  constructor
  · intro h f hf a ha htime
    have hentry := hrecord place
    rw [hf, Option.bind_some, Found.entry?, ha] at hentry
    obtain ⟨n, hn, hnode⟩ := Option.map_eq_some_iff.1 hentry
    have hdeps : n.deps = (declaredBy a.1 reader).getD {} := congrArg (·.1) hnode
    have hmodified : n.modified = some a.2 := congrArg (·.2.1) hnode
    rw [← hdeps]
    exact h n hn (by rw [hmodified, htime])
  · intro h n hn hmodified
    have hentry := hrecord place
    rw [hn] at hentry
    obtain ⟨f, hf, hnode⟩ := Option.bind_eq_some_iff.1 hentry.symm
    obtain ⟨a, ha, hnode⟩ := Option.map_eq_some_iff.1 hnode
    have hdeps : (declaredBy a.1 reader).getD {} = n.deps := congrArg (·.1) hnode
    have htime : some a.2 = n.modified := congrArg (·.2.1) hnode
    rw [← hdeps]
    exact h f hf a ha (Option.some.inj (htime.trans hmodified))

/-- The dependencies that a scan leaves at a place. -/
theorem deps_fileAt_scan {previous : Option Tree}
    (hscan : d.scan p previous extensions reader = .ok (t, stats)) (place : List String) :
    (t.fileAt place).map Node.deps = (lastSource extensions place (d.walk p)).bind fun f =>
      f.content?.map fun a =>
      (derive (cached previous place).toOption.join a.1 a.2 reader).deps := by
  have hrecord := congrArg (Option.map Prod.fst) ((Disk.record_fileAt_scan hscan).2 place)
  rw [Option.map_map, Option.map_bind] at hrecord
  rw [show Node.deps = Prod.fst ∘ Node.record from rfl, hrecord]
  congr 1
  funext f
  rw [Function.comp_apply, Found.entry?, Option.map_map]
  rfl

/-- **An earlier tree does not show exactly if the stems agree.**  The files at one path are to have
the same bytes whenever they have the same time; whether the scan succeeds does not depend on the
earlier tree at all. -/
theorem sameLists_iff_stemsAgree (he : e.root.wellNamed = true)
    (hagree : ∀ f ∈ d.walk p, ∀ g ∈ e.walk p, f.path = g.path → f.Agrees g)
    (hscan : d.scan p none extensions reader = .ok (t, stats)) :
    (e.scan p (some t) extensions reader).isOk = (e.scan p none extensions reader).isOk ∧
      ∀ u counts v counts', e.scan p (some t) extensions reader = .ok (u, counts) →
        e.scan p none extensions reader = .ok (v, counts') →
          (u.SameLists v ↔ StemsAgree extensions reader (d.walk p) (e.walk p)) := by
  refine ⟨isOk_scan_eq_of_linked (Disk.record_fileAt_scan hscan).1 e p, ?_⟩
  intro u counts v counts' hu hv
  constructor
  · intro h place f hf g hg _ a ha b hb htime
    have hlists := h place
    rw [deps_fileAt_scan hu, deps_fileAt_scan hv, hg, Option.bind_some, Option.bind_some, hb]
      at hlists
    exact (deps_derive_iff_of_scan he hscan hg hb).1 (Option.some.inj hlists) f hf a ha htime
  · intro h place
    rw [deps_fileAt_scan hu, deps_fileAt_scan hv]
    cases hg : lastSource extensions place (e.walk p) with
    | none => rfl
    | some g =>
      cases hb : g.content? with
      | none => rw [Option.bind_some, Option.bind_some, hb]; rfl
      | some b =>
        rw [Option.bind_some, Option.bind_some, hb]
        refine congrArg some ((deps_derive_iff_of_scan he hscan hg hb).2 ?_)
        intro f hf a ha htime
        -- the file is the same one, and so are its bytes, or the stems decide
        by_cases hpath : f.path = g.path
        · have hagrees := hagree f (mem_of_lastSource hf).1 g (mem_of_lastSource hg).1 hpath
          rw [hagrees a ha b hb htime]
        · exact h place f hf g hg hpath a ha b hb htime

/-- A disk with a location that holds one source file, of the given name and specifier. -/
def oneSource (name specifier : String) : Disk where
  root := .dir [("lib", .dir [(name, .file s!"define([\"{specifier}\"], f);".toUTF8 1)])]

/-- What a scan of such a disk gives. -/
def oneModule (specifier : String) : Tree :=
  ⟨#[{ name := "lib", children := .ofList [("a", 1)] },
    { name := "a", parent := some 0, deps := { define := [specifier] }, modified := some 1,
      depsModified := some 1 }]⟩

/-- Files with either extension are source files. -/
def twoExtensions : List String := ["js", "mjs"]

theorem scan_oneSource : (oneSource "a.js" "./x").scan ⟨"/lib"⟩ none twoExtensions
    = .ok (oneModule "./x", { files := 1, parsed := 1 }) := by with_unfolding_all rfl

theorem scan_renamed : (oneSource "a.mjs" "./y").scan ⟨"/lib"⟩ none twoExtensions
    = .ok (oneModule "./y", { files := 1, parsed := 1 }) := by with_unfolding_all rfl

theorem scan_renamed_against :
    (oneSource "a.mjs" "./y").scan ⟨"/lib"⟩ (some (oneModule "./x")) twoExtensions
    = .ok (oneModule "./x", { files := 1, reused := 1 }) := by with_unfolding_all rfl

theorem agrees_renamed : ∀ f ∈ (oneSource "a.js" "./x").walk ⟨"/lib"⟩,
    ∀ g ∈ (oneSource "a.mjs" "./y").walk ⟨"/lib"⟩, f.path = g.path → f.Agrees g := by
      with_unfolding_all decide

theorem not_stemsAgree_renamed : (oneSource "a.mjs" "./y").root.wellNamed = true ∧
    ¬ StemsAgree twoExtensions amdReader ((oneSource "a.js" "./x").walk ⟨"/lib"⟩)
      ((oneSource "a.mjs" "./y").walk ⟨"/lib"⟩) := by
  have hnamed : (oneSource "a.mjs" "./y").root.wellNamed = true := by with_unfolding_all decide
  obtain ⟨-, hlists⟩ := sameLists_iff_stemsAgree hnamed agrees_renamed scan_oneSource
  refine ⟨hnamed, fun h => ?_⟩
  have hsame := (hlists _ _ _ _ scan_renamed_against scan_renamed).2 h ["a"]
  exact absurd hsame (by with_unfolding_all decide)

/-- **A file with another extension and the old time keeps what was recorded about the old file**,
although no path has two contents of one time. -/
theorem not_sameLists_of_renamed :
    ¬ ∀ (extensions : List String) (d e : Disk) (p : Path) (t u v : Tree)
      (stats counts counts' : ScanStats),
      d.root.wellNamed = true → e.root.wellNamed = true →
        (∀ f ∈ d.walk p, ∀ g ∈ e.walk p, f.path = g.path → f.Agrees g) →
          d.scan p none extensions = .ok (t, stats) →
            e.scan p (some t) extensions = .ok (u, counts) →
              e.scan p none extensions = .ok (v, counts') → u.SameLists v := by
  intro h
  have hsame :=
    h _ _ _ _ _ _ _ _ _ _ (by with_unfolding_all decide) (by with_unfolding_all decide)
      agrees_renamed scan_oneSource scan_renamed_against scan_renamed ["a"]
  exact absurd hsame (by with_unfolding_all decide)

/-! ### One extension -/

/-- With one extension the stem of a source file tells its name. -/
theorem names_eq_of_sourcePlace? {ext : String} {f g : Found} {place : List String}
    (hf : f.sourcePlace? [ext] = some place) (hg : g.sourcePlace? [ext] = some place) :
    f.names = g.names := by
  -- a source file lies in a directory, under a name that is the stem with the extension
  have hlies : ∀ {h : Found}, h.sourcePlace? [ext] = some place → ∃ name stem,
      h.names = h.names.dropLast ++ [name] ∧ name.toList = stem.toList ++ '.' :: ext.toList ∧
        place = h.names.dropLast ++ [stem] := by
    intro h hplace
    rw [Found.sourcePlace?] at hplace
    split at hplace
    · next hfile =>
      rw [Found.segments?] at hplace
      split at hplace
      · simp [*] at hfile
      · simp at hplace
      · next name _ hlast =>
        obtain ⟨stem, hstem, rfl⟩ := Option.map_eq_some_iff.1 hplace
        obtain ⟨-, ext', hext, hname⟩ := exists_extension_of_moduleName hstem
        obtain rfl := List.mem_singleton.1 hext
        exact ⟨name, stem, (List.dropLast_append_getLast? name hlast).symm, hname, rfl⟩
    · simp at hplace
  obtain ⟨name, stem, hnames, hchars, rfl⟩ := hlies hf
  obtain ⟨name', stem', hnames', hchars', hplace⟩ := hlies hg
  obtain ⟨hdir, hstem⟩ := List.append_inj' hplace rfl
  obtain rfl : stem = stem' := List.cons.inj hstem |>.1
  rw [hnames, hnames', hdir, String.toList_inj.1 (hchars.trans hchars'.symm)]

/-- With one extension the stems always agree, so no scan against an earlier tree goes wrong. -/
theorem stemsAgree_singleton (hd : d.root.wellNamed = true) (he : e.root.wellNamed = true)
    (ext : String) : StemsAgree [ext] reader (d.walk p) (e.walk p) := by
  intro place f hf g hg hpath
  obtain ⟨hf, hfplace⟩ := mem_of_lastSource hf
  obtain ⟨hg, hgplace⟩ := mem_of_lastSource hg
  refine absurd ?_ hpath
  rw [(Disk.reached_of_mem_walk hd hf).spelt, (Disk.reached_of_mem_walk he hg).spelt,
    names_eq_of_sourcePlace? hfplace hgplace]

end ModuleAtlas
