import ModuleAtlas.Proofs.FreshScan
import ModuleAtlas.Proofs.Publishing
import ModuleAtlas.Proofs.RecordFile
import ModuleAtlas.Proofs.WalkLaws

/-!
# Runs of builds

A run is a sequence of builds between which files may change, the process may end, and the catalog
may be opened again from a record that was written before.  Builds take over what an earlier tree
knows about a file with the same time, and over a whole run this does not show: after a validating
build that succeeds, every tree is the one that a scan without an earlier tree gives, apart from the
times of dependencies.

## Main definitions

* `Regime` — what the builds of a run have in common.
* `Regime.Fresh` — a tree is what a scan without an earlier tree gives.
* `Regime.Coherent` — times and stems tell the files of a history apart.
* `Regime.Run` — runs, with the disks that were scanned and the records that may have been written.
* `Regime.Backed`, `Regime.Inv` — every tree was fresh once; the invariant of runs.

## Main results

* `fresh_of_scan` — **a scan against a tree that was fresh once gives a fresh tree.**
* `inv_of_run` — the invariant holds of every run.
* `exists_build_of_openWith` — opening a catalog is a part of a run.
* `fresh_of_validate` — **after a validating build that succeeds every tree is fresh.**
-/

namespace ModuleAtlas

/-- If two items are source files of one directory whose names have the same stem, they bear the
same name. -/
def Found.NamedAlike (extensions : List String) (f g : Found) : Prop :=
  ∀ place ∈ f.sourcePlace? extensions, place ∈ g.sourcePlace? extensions → f.names = g.names

instance (extensions : List String) (f g : Found) : Decidable (f.NamedAlike extensions g) :=
  inferInstanceAs
    (Decidable (∀ place ∈ f.sourcePlace? extensions, place ∈ g.sourcePlace? extensions → _ = _))

/-- What the builds of a run have in common: the locations that may be configured at some time, in
normal form, the extensions of source files, and how a source text is read. -/
structure Regime where
  /-- The locations. -/
  places : List Path
  /-- The extensions of source files. -/
  extensions : List String
  /-- The reader of source texts. -/
  reader : SourceReader

namespace Regime

/-- The settings fit the regime.  The signature and the file of the record may be any. -/
structure Admits (g : Regime) (s : Settings) : Prop where
  /-- The locations are among those of the regime and in normal form. -/
  locations : ∀ p ∈ s.locations.toList, p.normal = p ∧ p ∈ g.places
  /-- The extensions are those of the regime. -/
  extensions : s.extensions = g.extensions

/-- A tree is, apart from the times of dependencies, what a scan without an earlier tree gives. -/
def Fresh (g : Regime) (d : Disk) (p : Path) (t : Tree) : Prop :=
  ∃ u stats, d.scan p none g.extensions g.reader = .ok (u, stats) ∧ t.Alike u

/-- Over a whole history, entries have names that a directory can hold, a file at a path has the
same bytes whenever it has the same time, and no directory has two names of source files with the
same stem, neither at once nor at different times. -/
structure Coherent (g : Regime) (history : List Disk) : Prop where
  /-- Entries are well named. -/
  named : ∀ d ∈ history, d.root.wellNamed = true
  /-- The same path and the same time are the same bytes. -/
  timed : ∀ p ∈ g.places, ∀ d ∈ history, ∀ e ∈ history, ∀ f ∈ d.walk p, ∀ f' ∈ e.walk p,
    f.path = f'.path → f.Agrees f'
  /-- The same directory and the same stem are the same name. -/
  stems : ∀ p ∈ g.places, ∀ d ∈ history, ∀ e ∈ history, ∀ f ∈ d.walk p, ∀ f' ∈ e.walk p,
    f.NamedAlike g.extensions f'

/-- The file at a path holds no record, or one of the given records as it was written. -/
def Holds (records : List Snapshot) (d : Disk) (p : Path) : Prop :=
  ∀ bytes s, d.read p = .ok bytes → Snapshot.ofBytes bytes = some s → ∃ r ∈ records,
    bytes = r.toBytes

/-- The runs of a regime: the disks that were scanned, the records that may have been written, and
the catalog at the end. -/
inductive Run (g : Regime) : List Disk → List Snapshot → Catalog → Prop where
  /-- A run starts with a catalog without trees. -/
  | start {s : Settings} (hs : g.Admits s) : Run g [] [] { settings := s }
  /-- Files change in any way, and there is a build, which may also fail. -/
  | build {history : List Disk} {records : List Snapshot} {c : Catalog}
      (h : Run g history records c) (o : BuildOptions) (d : Disk) :
      Run g (d :: history) ((c.build o d g.reader).2.1.snapshot :: records)
        (c.build o d g.reader).2.1
  /-- The process ends, and another catalog without trees takes its place. -/
  | restart {history : List Disk} {records : List Snapshot} {c : Catalog}
      (h : Run g history records c) {s : Settings} (hs : g.Admits s) :
      Run g history records { settings := s }
  /-- A catalog looks for its record, and finds one that was written before, if any. -/
  | reopen {history : List Disk} {records : List Snapshot} {c c' : Catalog}
      (h : Run g history records c) {d d' : Disk} {found : Bool}
      (hload : c.loadSnapshot d = (.ok (found, c'), d'))
      (hfile : ∀ p, c.settings.snapshot = some p → Holds records d' p) : Run g history records c'

/-- Every tree was fresh on some disk of the history. -/
def Backed (g : Regime) (history : List Disk) (m : SortedMap Path Tree) : Prop :=
  ∀ p t, (p, t) ∈ m.toList → p.normal = p ∧ p ∈ g.places ∧ ∃ d ∈ history, g.Fresh d p t

/-- The invariant of runs. -/
structure Inv (g : Regime) (history : List Disk) (records : List Snapshot)
    (c : Catalog) : Prop where
  /-- The settings fit. -/
  settings : g.Admits c.settings
  /-- The trees of the catalog were fresh once. -/
  trees : g.Backed history c.trees
  /-- So were those of all records. -/
  records : ∀ r ∈ records, g.Backed history r.locations

variable {g : Regime} {history : List Disk}

/-! ### Settings -/

/-- Settings for locations whose normal forms are among those of the regime fit it. -/
theorem admits_ofLocations {locations : List Path} (h : ∀ p ∈ locations, p.normal ∈ g.places)
    (signature : String) (file : Option Path) :
    g.Admits
      { Settings.ofLocations locations signature with
        snapshot := file, extensions := g.extensions } where
  locations := by
    intro p hp
    obtain ⟨q, hq, rfl⟩ := List.mem_map.1 (SortedSet.mem_of_mem_ofList hp)
    exact ⟨q.normal_normal, h q hq⟩
  extensions := rfl

/-! ### Scans against earlier trees -/

theorem Coherent.mono {d : Disk} (h : g.Coherent (d :: history)) : g.Coherent history where
  named := fun e he => h.named e (List.mem_cons_of_mem _ he)
  timed := fun p hp e he e' he' =>
    h.timed p hp e (List.mem_cons_of_mem _ he) e' (List.mem_cons_of_mem _ he')
  stems := fun p hp e he e' he' =>
    h.stems p hp e (List.mem_cons_of_mem _ he) e' (List.mem_cons_of_mem _ he')

/-- What a fresh tree records at a place comes from a file of its walk. -/
theorem Fresh.exists_records {d : Disk} {p : Path} {t : Tree} (h : g.Fresh d p t)
    {place : List String} {n : Node} (hn : t.fileAt place = some n) :
    ∃ f ∈ d.walk p, Records g.extensions g.reader f place n := by
  obtain ⟨u, stats, hscan, hlike⟩ := h
  obtain ⟨m, hm, hdeps, hmodified⟩ := hlike.exists_fileAt hn
  obtain ⟨f, hf, hplace, bytes, modified, hfile, htime, hdeclared⟩ := recorded_scan hscan place m hm
  exact ⟨f, hf, hplace, bytes, modified, hfile, hmodified ▸ htime, hdeps ▸ hdeclared⟩

/-- In a coherent history, a tree that was fresh once is right about every later file. -/
theorem truthful_of_fresh (hh : g.Coherent history) {p : Path} (hp : p ∈ g.places) {d e : Disk}
    (hd : d ∈ history) (he : e ∈ history) {t : Tree} (ht : g.Fresh e p t) {f : Found}
    (hf : f ∈ d.walk p) : Truthful (some t) g.extensions g.reader f := by
  intro place bytes modified known hplace hfile hknown
  have hreached := Disk.reached_of_mem_walk (hh.named d hd) hf
  have hproper := hreached.properSegment_of_segments? hplace
  rw [cached_eq_fileAt hproper hknown]
  apply deps_derive_iff.2
  intro n hn hsame
  obtain ⟨f', hf', hplace', bytes', modified', hfile', htime, hdeps⟩ := ht.exists_records hn
  obtain rfl : modified' = modified := Option.some.inj (htime.symm.trans hsame)
  -- the recorded file lies at the same place, hence at the same path
  have hnames : f.names = f'.names := by
    apply hh.stems p hp d hd e he f hf f' hf' place
    · rw [Found.sourcePlace?_of_file hfile, hplace]
      rfl
    · rw [Found.sourcePlace?_of_file hfile', hplace']
      rfl
  have hpath : f.path = f'.path := by
    rw [hreached.spelt, (Disk.reached_of_mem_walk (hh.named e he) hf').spelt, hnames]
  have hbytes : bytes = bytes' :=
    hh.timed p hp d hd e he f hf f' hf' hpath _ (Found.content?_eq_some_iff.2 hfile)
      _ (Found.content?_eq_some_iff.2 hfile') rfl
  rw [hdeps, hbytes]

theorem truthful_none {extensions : List String} {reader : SourceReader} (f : Found) :
    Truthful none extensions reader f := by
  intro place bytes modified known _ _ hknown
  obtain rfl : known = none := (Except.ok.inj hknown).symm
  rfl

/-- **A scan against a tree that was fresh once gives a fresh tree.** -/
theorem fresh_of_scan (hh : g.Coherent history) {p : Path} (hp : p ∈ g.places) {d : Disk}
    (hd : d ∈ history) {previous : Option Tree}
    (hprevious : ∀ t, previous = some t → ∃ e ∈ history, g.Fresh e p t) {t : Tree}
    {stats : ScanStats} (hscan : d.scan p previous g.extensions g.reader = .ok (t, stats)) :
    g.Fresh d p t := by
  -- the tree is right about all files, so the scan goes as if there were none
  have htruthful : ∀ f ∈ d.walk p, Truthful previous g.extensions g.reader f := by
    intro f hf
    cases previous with
    | none => exact truthful_none f
    | some u =>
      obtain ⟨e, he, hu⟩ := hprevious u rfl
      exact truthful_of_fresh hh hp hd he hu hf
  obtain ⟨u, other, hu, hlike⟩ :=
    scanItems_alike (u := .new p.displayName) {} htruthful (Tree.Alike.refl _) hscan
  exact ⟨u, other, hu, hlike⟩

/-! ### What a step of a run preserves -/

theorem backed_empty : g.Backed history ∅ := by
  intro p t h
  simp at h

theorem Backed.mono {m : SortedMap Path Tree} (h : g.Backed history m) (d : Disk) :
    g.Backed (d :: history) m := by
  intro p t hm
  obtain ⟨hnormal, hp, e, he, hfresh⟩ := h p t hm
  exact ⟨hnormal, hp, e, List.mem_cons_of_mem _ he, hfresh⟩

namespace Inv

variable {records : List Snapshot} {c : Catalog}

theorem normal (h : g.Inv history records c) : c.Normal := by
  intro p hp
  obtain ⟨t, ht⟩ := Catalog.mem_locations_iff.1 hp
  exact (h.trees p t ht).1

theorem normal_settings (h : g.Inv history records c) :
    ∀ p ∈ c.settings.locations.toList, p.normal = p := fun p hp => (h.settings.locations p hp).1

theorem normal_of_mem_targets (h : g.Inv history records c) {p : Path} (hp : p ∈ c.targets) :
    p.normal = p :=
  Catalog.normal_of_mem_targets h.normal h.normal_settings hp

theorem mem_places (h : g.Inv history records c) {p : Path} (hp : p ∈ c.targets) :
    p ∈ g.places := by
  rcases Catalog.mem_targets_cases hp with hp | hp
  · exact (h.settings.locations p hp).2
  · obtain ⟨t, ht⟩ := Catalog.mem_locations_iff.1 hp
    exact (h.trees p t ht).2.1

/-- The scans of a build give fresh trees. -/
theorem fresh_of_target (h : g.Inv history records c) {d : Disk} (hh : g.Coherent (d :: history))
    {o : BuildOptions} {p : Path} (hp : p ∈ c.targets) {t : Tree} {stats : ScanStats}
    (hscan : d.scan p (c.previous o p) c.settings.extensions g.reader = .ok (t, stats)) :
    g.Fresh d p t := by
  rw [h.settings.extensions] at hscan
  refine fresh_of_scan hh (h.mem_places hp) List.mem_cons_self ?_ hscan
  intro u hu
  have hmem := (Catalog.location_eq_some_iff h.normal).1 (Catalog.location_of_previous hu)
  rw [h.normal_of_mem_targets hp] at hmem
  obtain ⟨-, -, e, he, hfresh⟩ := h.trees p u hmem
  exact ⟨e, List.mem_cons_of_mem _ he, hfresh⟩

/-- A build, whether it succeeds or not, leaves trees that were fresh once. -/
theorem build (h : g.Inv history records c) {d : Disk} (hh : g.Coherent (d :: history))
    (o : BuildOptions) :
    g.Inv (d :: history) ((c.build o d g.reader).2.1.snapshot :: records)
      (c.build o d g.reader).2.1 := by
  have hbacked : g.Backed (d :: history) (c.build o d g.reader).2.1.trees := by
    intro p t ht
    rcases Catalog.mem_build_cases h.normal h.normal_settings ht with ⟨hp, stats, hscan⟩ | hold
    · exact ⟨h.normal_of_mem_targets hp, h.mem_places hp, d, List.mem_cons_self,
        h.fresh_of_target hh hp hscan⟩
    · exact h.trees.mono d p t hold
  refine ⟨?_, hbacked, ?_⟩
  · rw [Catalog.settings_build]
    exact h.settings
  · intro r hr
    rcases List.mem_cons.1 hr with rfl | hr
    · exact hbacked
    · exact (h.records r hr).mono d

/-- A record that was written in the run gives its trees back. -/
theorem reopen (h : g.Inv history records c) {d d' : Disk} {found : Bool} {c' : Catalog}
    (hload : c.loadSnapshot d = (.ok (found, c'), d'))
    (hfile : ∀ p, c.settings.snapshot = some p → Holds records d' p) :
    g.Inv history records c' := by
  rcases Catalog.loadSnapshot_cases hload with rfl | ⟨p, s, hp, husable, -, rfl⟩
  · exact h
  · obtain ⟨bytes, hread, hs, -⟩ := Snapshot.usable?_cases husable
    obtain ⟨r, hr, rfl⟩ := hfile p hp bytes s hread hs
    obtain rfl := Snapshot.eq_of_ofBytes_toBytes hs
    exact ⟨h.settings, h.records s hr, h.records⟩

end Inv

/-! ### Runs -/

/-- The invariant holds of every run with a coherent history. -/
theorem inv_of_run {records : List Snapshot} {c : Catalog} (h : g.Run history records c) :
    g.Coherent history → g.Inv history records c := by
  induction h with
  | start hs => exact fun _ => ⟨hs, backed_empty, by simp⟩
  | build _ o d ih => exact fun hh => (ih hh.mono).build hh o
  | restart _ hs ih => exact fun hh => ⟨hs, backed_empty, (ih hh).records⟩
  | reopen _ hload hfile ih => exact fun hh => (ih hh).reopen hload hfile

/-- A catalog that is opened is one that is built after a restart and, unless the build is clean, a
look for the record. -/
theorem exists_build_of_openWith {records : List Snapshot} {c c' : Catalog}
    (h : g.Run history records c) {s : Settings} (hs : g.Admits s) {o : BuildOptions} {d d' : Disk}
    (hfile : ∀ p, s.snapshot = some p →
      Holds records (Catalog.loadSnapshot { settings := s } d).2 p)
      (hopen : Catalog.openWith s o d g.reader = (.ok c', d')) :
    ∃ c₀ e report, g.Run history records c₀ ∧ c₀.build o e g.reader = (.ok report, c', d') := by
  have hstart : g.Run history records { settings := s } := .restart h hs
  obtain ⟨c₀, e, report, hfound, hbuild⟩ := Catalog.exists_build_of_openWith hopen
  refine ⟨c₀, e, report, ?_, hbuild⟩
  rcases hfound with rfl | ⟨found, hload⟩
  · exact hstart
  · rw [hload] at hfile
    exact hstart.reopen hload hfile

/-- **After a validating build that succeeds every tree is fresh**: every configured location has a
tree, and every tree is, apart from the times of dependencies, the one that a scan of the disk
without an earlier tree gives. -/
theorem fresh_of_validate {records : List Snapshot} {c : Catalog} (h : g.Run history records c)
    {d : Disk} (hh : g.Coherent (d :: history)) {o : BuildOptions} (ho : o.validate = true)
    (hok : (c.build o d g.reader).1.isOk = true) :
    (∀ p ∈ c.settings.locations.toList, ((c.build o d g.reader).2.1.location p).isSome = true) ∧
      ∀ p t, (c.build o d g.reader).2.1.location p = some t → g.Fresh d p.normal t := by
  have hinv := inv_of_run h hh.mono
  refine ⟨?_, ?_⟩
  · intro p hp
    exact Catalog.isSome_location_build hinv.normal hinv.normal_settings ho hok hp
  · intro p t ht
    have hnormal : (c.build o d g.reader).2.1.Normal :=
      Catalog.normal_build hinv.normal hinv.normal_settings
    have hmem := (Catalog.location_eq_some_iff hnormal).1 ht
    obtain ⟨hp, stats, hscan⟩ :=
      Catalog.exists_scan_of_mem_build hinv.normal hinv.normal_settings ho hok hmem
    exact hinv.fresh_of_target hh hp hscan

/-- A regime of one location, where a source text is the one specifier that it declares. -/
def oneLocation : Regime := ⟨[⟨"/lib"⟩], ["js"], fun source => some { define := [source] }⟩

/-- Its settings, with a file for the record. -/
def oneSettings : Settings :=
  { Settings.ofLocations [⟨"/lib"⟩] "signature" with
    snapshot := some ⟨"/cache/depmap.json"⟩, extensions := oneLocation.extensions }

/-- A disk with one source file, of the given text and time, and a directory for the record. -/
def oneFile (text : String) (modified : Millis) (cache : List (String × Entry)) : Disk where
  root := .dir [("cache", .dir cache), ("lib", .dir [("a.js", .file text.toUTF8 modified)])]
  now := 9

/-- A disk before any build. -/
def firstDisk : Disk := oneFile "./b" 1 []

/-- The record of the first build. -/
def firstRecord : Snapshot :=
  (Catalog.build { settings := oneSettings } {} firstDisk oneLocation.reader).2.1.snapshot

/-- A disk with the record of the first build and another source text. -/
def laterDisk : Disk := oneFile "./c" 2 [("depmap.json", .file firstRecord.toBytes 9)]

/-- The catalog of a process that has found the record of the first build. -/
def laterCatalog : Catalog := { settings := oneSettings, trees := firstRecord.locations }

theorem run_laterCatalog : oneLocation.Run [firstDisk] [firstRecord] laterCatalog := by
  have hsettings : oneLocation.Admits oneSettings :=
    admits_ofLocations (by decide +kernel) "signature" (some ⟨"/cache/depmap.json"⟩)
  have hfirst : oneLocation.Run [firstDisk] [firstRecord]
      (Catalog.build { settings := oneSettings } {} firstDisk oneLocation.reader).2.1 :=
    (Run.start hsettings).build {} firstDisk
  have hlock : lock ⟨"/cache/depmap.json"⟩ laterDisk
      = (.ok ⟨"/cache/depmap.json.lock"⟩, (lock ⟨"/cache/depmap.json"⟩ laterDisk).2) :=
    Prod.ext (by decide +kernel) rfl
  have hread : (lock ⟨"/cache/depmap.json"⟩ laterDisk).2.read ⟨"/cache/depmap.json"⟩ =
      .ok firstRecord.toBytes := by
    with_unfolding_all rfl
  have husable := Snapshot.usable?_of_read hread (by decide +kernel) (by decide +kernel)
  have hload :=
    Catalog.loadSnapshot_of_usable (c := { settings := oneSettings }) rfl (by decide +kernel) hlock
    husable (by decide +kernel)
  refine (hfirst.restart hsettings).reopen hload ?_
  intro p hp bytes s hbytes _
  obtain rfl : ⟨"/cache/depmap.json"⟩ = p := Option.some.inj hp
  exact ⟨_, List.mem_cons_self, Except.ok.inj (hbytes.symm.trans hread)⟩

theorem fresh_after_reopening :
    (∀ p ∈ oneSettings.locations.toList,
      ((laterCatalog.build { validate := true } laterDisk oneLocation.reader).2.1.location
        p).isSome = true) ∧
    ∀ p t,
      (laterCatalog.build { validate := true } laterDisk oneLocation.reader).2.1.location p =
        some t → oneLocation.Fresh laterDisk p.normal t := by
  have hcoherent : oneLocation.Coherent [laterDisk, firstDisk] :=
    ⟨by decide +kernel, by decide +kernel, by decide +kernel⟩
  exact fresh_of_validate run_laterCatalog hcoherent rfl (by decide +kernel)

end Regime

end ModuleAtlas
