import ModuleAtlas.Catalog.Build
import ModuleAtlas.Proofs.MapLaws
import ModuleAtlas.Proofs.NormalPaths

/-!
# What a build publishes

After a build every tree of the catalog is that of a scan of the build or one that was there before
and whose location had no scan that succeeded.  As long as all locations are in normal form, a
location is one key.

## Main definitions

* `Outcome.tree?` — the tree of a scan that succeeded.
* `Catalog.Normal` — all locations that have trees are in normal form.

## Main results

* `location_eq_some_iff` — the tree of a location, under its normal form.
* `mem_publishAll_cases`, `mem_values_publishAll_cases` — **where the trees come from after
  publishing.**
* `mem_build_cases` — where they come from after a build.
* `exists_scan_of_mem_build` — **a validating build that succeeds leaves trees of its own scans
  only.**
* `isSome_location_of_configured` — a build that succeeds leaves a tree for every configured
  location.
-/

namespace ModuleAtlas

/-- The tree of a scan that succeeded. -/
def Outcome.tree? (s : Outcome) : Option Tree := s.result.toOption.map (·.1)

namespace Catalog

/-! ### Locations in normal form -/

/-- All locations that have trees are in normal form. -/
def Normal (c : Catalog) : Prop := ∀ p ∈ c.locations, p.normal = p

theorem mem_locations_iff {c : Catalog} {p : Path} : p ∈ c.locations ↔
    ∃ t, (p, t) ∈ c.trees.toList := by
  rw [locations, SortedMap.keys, List.mem_map]
  constructor
  · rintro ⟨⟨q, t⟩, h, rfl⟩
    exact ⟨t, h⟩
  · rintro ⟨t, h⟩
    exact ⟨(p, t), h, rfl⟩

theorem mem_locations_of_mem {c : Catalog} {p : Path} {t : Tree} (h : (p, t) ∈ c.trees.toList) :
    p ∈ c.locations := mem_locations_iff.2 ⟨t, h⟩

/-- The tree of a location is kept under the normal form of the location. -/
theorem location_eq_some_iff {c : Catalog} (hc : c.Normal) {p : Path} {t : Tree} :
    c.location p = some t ↔ (p.normal, t) ∈ c.trees.toList := by
  rw [location, SortedMap.find?, Ordered.lookup_eq_some_iff c.trees.increasing]
  constructor
  · rintro ⟨q, hq, he⟩
    rwa [Path.eq_of_compare_eq p.normal_normal (hc q (mem_locations_of_mem hq)) he]
  · intro h
    exact ⟨p.normal, h, Std.ReflCmp.compare_self⟩

/-! ### Targets -/

theorem mem_targets_cases {c : Catalog} {p : Path} (h : p ∈ c.targets) :
    p ∈ c.settings.locations.toList ∨ p ∈ c.locations := by
  rcases SortedSet.mem_union_cases h with h | h
  · exact .inl h
  · exact .inr (SortedSet.mem_of_mem_ofList h)

theorem mem_targets_of_configured {c : Catalog} {p : Path} (h : p ∈ c.settings.locations.toList) :
    p ∈ c.targets := SortedSet.mem_union_of_mem_left h _

theorem normal_of_mem_targets {c : Catalog} (hc : c.Normal)
    (hs : ∀ p ∈ c.settings.locations.toList, p.normal = p) {p : Path} (h : p ∈ c.targets) :
    p.normal = p := by
  rcases mem_targets_cases h with h | h
  · exact hs p h
  · exact hc p h

/-- Every location that has a tree is a target. -/
theorem mem_targets_of_mem_locations {c : Catalog} (hc : c.Normal)
    (hs : ∀ p ∈ c.settings.locations.toList, p.normal = p) {p : Path} (h : p ∈ c.locations) :
    p ∈ c.targets := by
  obtain ⟨q, hq, he⟩ := SortedSet.exists_mem_union_right c.settings.locations h
  rwa [Path.eq_of_compare_eq (hc p h) (normal_of_mem_targets hc hs hq) he]

theorem mem_scans_iff {c : Catalog} {o : BuildOptions} {d : Disk} {reader : SourceReader}
    {s : Outcome} :
    s ∈ c.scans o d reader ↔ ∃ p ∈ c.targets, c.action o p ≠ .kept ∧
      c.scanTarget o d reader p = s := by
  simp only [scans, List.mem_map, List.mem_filter, decide_eq_true_eq]
  constructor
  · rintro ⟨p, ⟨hp, hkept⟩, hs⟩
    exact ⟨p, hp, hkept, hs⟩
  · rintro ⟨p, hp, hkept, hs⟩
    exact ⟨p, ⟨hp, hkept⟩, hs⟩

/-- A build that validates keeps no tree without a scan. -/
theorem action_ne_kept {o : BuildOptions} (ho : o.validate = true) (c : Catalog) (p : Path) :
    c.action o p ≠ .kept := by
  rw [action, ho]
  split <;> simp

/-- A scan may use the tree that the catalog has for the location, if any. -/
theorem location_of_previous {c : Catalog} {o : BuildOptions} {p : Path} {t : Tree}
    (h : c.previous o p = some t) : c.location p = some t := by
  rw [previous] at h
  split at h
  · exact h
  · simp at h

/-- The tree of an outcome is that of a scan. -/
theorem tree?_scanTarget_eq_some_iff {c : Catalog} {o : BuildOptions} {d : Disk}
    {reader : SourceReader} {p : Path} {t : Tree} : (c.scanTarget o d reader p).tree? = some t ↔
      ∃ stats, d.scan p (c.previous o p) c.settings.extensions reader = .ok (t, stats) := by
  rw [Outcome.tree?, scanTarget]
  cases d.scan p (c.previous o p) c.settings.extensions reader with
  | error e =>
    show none = some t ↔ _
    simp
  | ok r =>
    obtain ⟨u, stats⟩ := r
    show some u = some t ↔ _
    simp

/-! ### Publishing -/

theorem publishOutcome_of_none {s : Outcome} (h : s.tree? = none) (c : Catalog) :
    c.publishOutcome s = c := by
  rw [publishOutcome]
  cases hs : s.result with
  | error e => rfl
  | ok r => simp [Outcome.tree?, hs, Except.toOption] at h

theorem publishOutcome_of_some {s : Outcome} {t : Tree} (h : s.tree? = some t) (c : Catalog) :
    c.publishOutcome s = c.put s.location t := by
  rw [publishOutcome]
  cases hs : s.result with
  | error e => simp [Outcome.tree?, hs, Except.toOption] at h
  | ok r =>
    obtain ⟨u, stats⟩ := r
    rw [Outcome.tree?, hs] at h
    obtain rfl : u = t := Option.some.inj h
    rfl

theorem settings_publishAll (l : List Outcome) :
    ∀ c : Catalog, (c.publishAll l).settings = c.settings := by
  induction l with
  | nil => intro c; rfl
  | cons s l ih =>
    intro c
    rw [publishAll, List.foldl_cons]
    refine (ih _).trans ?_
    cases hs : s.tree? with
    | none => rw [publishOutcome_of_none hs]
    | some t => rw [publishOutcome_of_some hs, settings_put]

/-- Where a tree comes from after one outcome is published. -/
theorem mem_publishOutcome_cases {c : Catalog} (hc : c.Normal) {s : Outcome}
    (hs : s.location.normal = s.location) {p : Path} {t : Tree}
    (h : (p, t) ∈ (c.publishOutcome s).trees.toList) :
    (s.location = p ∧ s.tree? = some t) ∨
      ((p, t) ∈ c.trees.toList ∧ (s.location = p → s.tree? = none)) := by
  cases htree : s.tree? with
  | none =>
    rw [publishOutcome_of_none htree] at h
    exact .inr ⟨h, fun _ => rfl⟩
  | some u =>
    rw [publishOutcome_of_some htree] at h
    rcases Ordered.mem_bind_cases c.trees.increasing h with (h | ⟨rfl, he, b, hb⟩) | ⟨h, hne⟩
    · obtain ⟨rfl, rfl⟩ := Prod.mk.inj h
      exact .inl ⟨rfl, rfl⟩
    · -- the old spelling of the location is the new one
      exact .inl ⟨Path.eq_of_compare_eq hs (hc p (mem_locations_of_mem hb)) he, rfl⟩
    · refine .inr ⟨h, ?_⟩
      rintro rfl
      exact absurd Std.ReflCmp.compare_self hne

theorem normal_publishOutcome {c : Catalog} (hc : c.Normal) {s : Outcome}
    (hs : s.location.normal = s.location) : (c.publishOutcome s).Normal := by
  intro p hp
  obtain ⟨t, ht⟩ := mem_locations_iff.1 hp
  rcases mem_publishOutcome_cases hc hs ht with ⟨rfl, -⟩ | ⟨h, -⟩
  · exact hs
  · exact hc p (mem_locations_of_mem h)

/-- **Where a tree comes from after publishing**: from a scan of its location, or from before, and
then no scan of its location succeeded. -/
theorem mem_publishAll_cases {l : List Outcome} (hl : ∀ s ∈ l, s.location.normal = s.location)
    {p : Path} {t : Tree} : ∀ {c : Catalog}, c.Normal → (p, t) ∈ (c.publishAll l).trees.toList →
      (∃ s ∈ l, s.location = p ∧ s.tree? = some t) ∨
        ((p, t) ∈ c.trees.toList ∧ ∀ s ∈ l, s.location = p → s.tree? = none) := by
  induction l with
  | nil =>
    intro c _ h
    exact .inr ⟨h, by simp⟩
  | cons s l ih =>
    intro c hc h
    have hs := hl s List.mem_cons_self
    have hrest := ih (fun r hr => hl r (List.mem_cons_of_mem _ hr)) (normal_publishOutcome hc hs) h
    rcases hrest with ⟨r, hr, hloc, htree⟩ | ⟨hmem, hfailed⟩
    · exact .inl ⟨r, List.mem_cons_of_mem _ hr, hloc, htree⟩
    · rcases mem_publishOutcome_cases hc hs hmem with ⟨hloc, htree⟩ | ⟨hold, hnone⟩
      · exact .inl ⟨s, List.mem_cons_self, hloc, htree⟩
      · refine .inr ⟨hold, ?_⟩
        intro r hr hloc
        rcases List.mem_cons.1 hr with rfl | hr
        · exact hnone hloc
        · exact hfailed r hr hloc

/-- The trees after publishing are those of scans and those from before. -/
theorem mem_values_publishAll_cases {l : List Outcome} {t : Tree} : ∀ {c : Catalog},
    t ∈ (c.publishAll l).trees.values → (∃ s ∈ l, s.tree? = some t) ∨ t ∈ c.trees.values := by
  induction l with
  | nil => intro c h; exact .inr h
  | cons s l ih =>
    intro c h
    rcases ih h with ⟨r, hr, htree⟩ | h
    · exact .inl ⟨r, List.mem_cons_of_mem _ hr, htree⟩
    · cases hs : s.tree? with
      | none =>
        rw [publishOutcome_of_none hs] at h
        exact .inr h
      | some u =>
        rw [publishOutcome_of_some hs] at h
        obtain ⟨p, hp, rfl⟩ := List.mem_map.1 h
        rcases Ordered.mem_bind_cases c.trees.increasing hp with (rfl | ⟨hu, -⟩) | ⟨hp, -⟩
        · exact .inl ⟨s, List.mem_cons_self, hs⟩
        · exact .inl ⟨s, List.mem_cons_self, hu ▸ hs⟩
        · exact .inr (List.mem_map_of_mem hp)

/-- A location that has a tree has one after publishing. -/
theorem isSome_location_publishAll {p : Path} (l : List Outcome) : ∀ {c : Catalog},
    (c.location p).isSome = true → ((c.publishAll l).location p).isSome = true := by
  induction l with
  | nil => intro c h; exact h
  | cons s l ih =>
    intro c h
    rw [publishAll, List.foldl_cons]
    apply ih
    cases hs : s.tree? with
    | none => rwa [publishOutcome_of_none hs]
    | some t =>
      rw [publishOutcome_of_some hs]
      show (SortedMap.find? _ _).isSome = true
      rw [put, SortedMap.find?_insert]
      split
      · rfl
      · exact h

theorem isSome_location_of_published {l : List Outcome} {s : Outcome} (hs : s ∈ l)
    (hnormal : s.location.normal = s.location) {t : Tree} (htree : s.tree? = some t) :
    ∀ c : Catalog, ((c.publishAll l).location s.location).isSome = true := by
  induction l with
  | nil => simp at hs
  | cons r l ih =>
    intro c
    rw [publishAll, List.foldl_cons]
    rcases List.mem_cons.1 hs with rfl | hs
    · apply isSome_location_publishAll
      rw [publishOutcome_of_some htree, location, hnormal, put, SortedMap.find?_insert_self]
      rfl
    · exact ih hs _

/-! ### Builds -/

section

variable {c : Catalog} {o : BuildOptions} {d : Disk} {reader : SourceReader}

/-- Whatever a build returns, it has published all scans that succeeded. -/
theorem catalog_finish (c : Catalog) (o : BuildOptions)
    (outcomes published : List Outcome) (d : Disk) :
    (c.finish o outcomes published d).2.1 = c.publishAll published := by
  simp only [finish]
  split
  · split <;> rfl
  · rfl

theorem catalog_build (c : Catalog) (o : BuildOptions) (d : Disk) (reader : SourceReader) :
    (c.build o d reader).2.1 = c.publishAll (c.scans o d reader) := catalog_finish ..

theorem settings_build (c : Catalog) (o : BuildOptions) (d : Disk) (reader : SourceReader) :
    (c.build o d reader).2.1.settings = c.settings := by
  rw [catalog_build, settings_publishAll]

/-- Where there is no failure, every outcome has a tree. -/
theorem exists_tree_of_no_failure {outcomes : List Outcome} (h : failures outcomes = [])
    {s : Outcome} (hs : s ∈ outcomes) : ∃ t, s.tree? = some t := by
  cases hresult : s.result with
  | ok r => exact ⟨r.1, by rw [Outcome.tree?, hresult]; rfl⟩
  | error f =>
    have hf : f ∈ failures outcomes := by
      rw [failures, List.mem_filterMap]
      exact ⟨s, hs, by rw [hresult]⟩
    rw [h] at hf
    cases hf

/-- No scan of a build that succeeds has failed. -/
theorem failures_of_finish {outcomes published : List Outcome}
    (hok : (c.finish o outcomes published d).1.isOk = true) : failures outcomes = [] := by
  rw [finish] at hok
  cases hfailures : failures outcomes with
  | nil => rfl
  | cons f rest =>
    rw [hfailures] at hok
    simp [Except.isOk, Except.toBool] at hok

theorem exists_tree_of_build (hok : (c.build o d reader).1.isOk = true) {s : Outcome}
    (hs : s ∈ c.scans o d reader) : ∃ t, s.tree? = some t :=
  exists_tree_of_no_failure (failures_of_finish hok) hs

/-- A build that succeeds leaves a tree for every location that it scans. -/
theorem isSome_location_of_scanned (hok : (c.build o d reader).1.isOk = true) {p : Path}
    (hp : p ∈ c.targets) (hnormal : p.normal = p) (hkept : c.action o p ≠ .kept) :
    ((c.build o d reader).2.1.location p).isSome = true := by
  have hscan : c.scanTarget o d reader p ∈ c.scans o d reader := mem_scans_iff.2 ⟨p, hp, hkept, rfl⟩
  obtain ⟨t, ht⟩ := exists_tree_of_build hok hscan
  rw [catalog_build]
  exact isSome_location_of_published hscan hnormal ht c

/-- A build that succeeds leaves a tree for every configured location, whatever it was asked for and
whatever trees there were before. -/
theorem isSome_location_of_configured (hok : (c.build o d reader).1.isOk = true) {p : Path}
    (hp : p ∈ c.settings.locations.toList) (hnormal : p.normal = p) :
    ((c.build o d reader).2.1.location p).isSome = true := by
  by_cases hkept : c.action o p = .kept
  · -- what is kept was there before
    rw [catalog_build]
    apply isSome_location_publishAll
    cases htree : c.location p with
    | some t => rfl
    | none => simp [action, htree] at hkept
  · exact isSome_location_of_scanned hok (mem_targets_of_configured hp) hnormal hkept

variable (hc : c.Normal) (hs : ∀ p ∈ c.settings.locations.toList, p.normal = p)

include hc hs

theorem normal_location_of_mem_scans {s : Outcome} (h : s ∈ c.scans o d reader) :
    s.location.normal = s.location := by
  obtain ⟨p, hp, -, rfl⟩ := mem_scans_iff.1 h
  exact normal_of_mem_targets hc hs hp

/-- Where a tree comes from after a build: from a scan of its location, or from before. -/
theorem mem_build_cases {p : Path} {t : Tree} (h : (p, t) ∈ (c.build o d reader).2.1.trees.toList) :
    (p ∈ c.targets ∧ ∃ stats, d.scan p (c.previous o p) c.settings.extensions reader =
      .ok (t, stats)) ∨
      (p, t) ∈ c.trees.toList := by
  rw [catalog_build] at h
  rcases mem_publishAll_cases (fun s => normal_location_of_mem_scans hc hs) hc h with
    ⟨s, hscan, hloc, htree⟩ | h
  · obtain ⟨q, hq, -, rfl⟩ := mem_scans_iff.1 hscan
    obtain rfl : q = p := hloc
    exact .inl ⟨hq, tree?_scanTarget_eq_some_iff.1 htree⟩
  · exact .inr h.1

theorem normal_build : (c.build o d reader).2.1.Normal := by
  intro p hp
  obtain ⟨t, ht⟩ := mem_locations_iff.1 hp
  rcases mem_build_cases hc hs ht with ⟨htarget, -⟩ | hold
  · exact normal_of_mem_targets hc hs htarget
  · exact hc p (mem_locations_of_mem hold)

/-- **A validating build that succeeds leaves trees of its own scans only.** -/
theorem exists_scan_of_mem_build (ho : o.validate = true) (hok : (c.build o d reader).1.isOk = true)
    {p : Path} {t : Tree} (h : (p, t) ∈ (c.build o d reader).2.1.trees.toList) :
    p ∈ c.targets ∧ ∃ stats, d.scan p (c.previous o p) c.settings.extensions reader =
      .ok (t, stats) := by
  rw [catalog_build] at h
  rcases mem_publishAll_cases (fun s => normal_location_of_mem_scans hc hs) hc h with
    ⟨s, hscan, hloc, htree⟩ | ⟨hold, hfailed⟩
  · obtain ⟨q, hq, -, rfl⟩ := mem_scans_iff.1 hscan
    obtain rfl : q = p := hloc
    exact ⟨hq, tree?_scanTarget_eq_some_iff.1 htree⟩
  · -- an old tree: its location was a target, so it was scanned
    have hp := mem_targets_of_mem_locations hc hs (mem_locations_of_mem hold)
    have hscan : c.scanTarget o d reader p ∈ c.scans o d reader :=
      mem_scans_iff.2 ⟨p, hp, action_ne_kept ho c p, rfl⟩
    obtain ⟨u, hu⟩ := exists_tree_of_build hok hscan
    rw [hfailed _ hscan rfl] at hu
    simp at hu

/-- A validating build that succeeds leaves a tree for every configured location. -/
theorem isSome_location_build (ho : o.validate = true) (hok : (c.build o d reader).1.isOk = true)
    {p : Path} (h : p ∈ c.settings.locations.toList) :
    ((c.build o d reader).2.1.location p).isSome = true := by
  have htarget := mem_targets_of_configured h
  exact isSome_location_of_scanned hok htarget (normal_of_mem_targets hc hs htarget)
    (action_ne_kept ho c p)

end

end Catalog

end ModuleAtlas
