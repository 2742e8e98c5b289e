import ModuleAtlas.Proofs.PathMap
import ModuleAtlas.Proofs.Publishing
import ModuleAtlas.Proofs.SavedRecord
import ModuleAtlas.Proofs.ScanSteps

/-!
# What a build comes to

The scans of a build publish in any order, since each of them has a location of its own.  If none
fails then the catalog, the report and the record agree: each location has the tree that its scan
gave or the one that it had, and the report and the file say so.

## Main definitions

* `Outcome.item?` — what an outcome leaves under its location.
* `Catalog.Done` — what a build does with a location.
* `Catalog.Built` — what a build that succeeds comes to.

## Main results

* `Tree.isIntact_of_scan` — the tree of a scan passes its check.
* `Catalog.find?_entries_of_scan`, `Catalog.find?_entries_of_kept` — what the outcomes leave, in any
  order.
* `Catalog.done_of_no_failure` — what was done with a location, if no scan has failed.
* `Catalog.mem_locations_publishAll_iff`, `Catalog.mem_keys_report_iff` — both are about the targets
  of the build.
* `Catalog.built_of_finish` — **catalog, report and record agree after a build that succeeds.**
-/

namespace ModuleAtlas

/-! ### Trees of scans -/

section Scan

variable {previous : Option Tree} {extensions : List String} {reader : SourceReader}

/-- Every step of a scan keeps all nodes reachable and links in agreement. -/
theorem ItemAdded.orderly {t t' : Tree} {counts counts' : ScanStats} {f : Found}
    (h : ItemAdded previous extensions reader t counts f t' counts') (ht : t.Orderly) :
    t'.Orderly := by
  have hroot : t.descend? Tree.root [] = some Tree.root := rfl
  cases h with
  | skipped _ => exact ht
  | @directory place _ i _ hensure _ =>
    obtain ⟨u, j, he, hu, -⟩ := ht.exists_ensurePath place hroot
    obtain ⟨rfl, rfl⟩ := Prod.mk.inj (Except.ok.inj (he.symm.trans hensure))
    exact hu
  | @recorded place _ _ i bytes modified known _ hensure _ _ hset =>
    obtain ⟨u, j, he, hu, -, hdescend, -⟩ := ht.exists_ensurePath place hroot
    obtain ⟨rfl, rfl⟩ := Prod.mk.inj (Except.ok.inj (he.symm.trans hensure))
    obtain ⟨n, hn⟩ := hu.linked.exists_node?_of_path hdescend
    rw [Tree.setDeps_eq hn] at hset
    obtain rfl := Except.ok.inj hset
    exact hu.recording hn ⟨(derive known bytes modified reader).deps, modified,
      (derive known bytes modified reader).depsModified⟩

theorem orderly_scanItems {items : List Found} :
    ∀ {t t' : Tree} {counts counts' : ScanStats}, t.Orderly →
    scanItems previous extensions reader (t, counts) items = .ok (t', counts') → t'.Orderly := by
  induction items with
  | nil =>
    intro t t' counts counts' ht h
    obtain ⟨rfl, -⟩ := Prod.mk.inj (Except.ok.inj h)
    exact ht
  | cons f items ih =>
    intro t t' counts counts' ht h
    obtain ⟨⟨u, next⟩, hitem, hrest⟩ := scanItems_cons_eq_ok_iff.1 h
    exact ih ((scanItem_eq_ok_iff.1 hitem).orderly ht) hrest

/-- The tree of a scan passes its check. -/
theorem Tree.isIntact_of_scan {d : Disk} {location : Path} {t : Tree} {stats : ScanStats}
    (h : d.scan location previous extensions reader = .ok (t, stats)) : t.isIntact = true := by
  rw [Tree.isIntact, (orderly_scanItems (Tree.orderly_new _) h).check]
  rfl

end Scan

/-! ### What outcomes leave in a map -/

/-- What an outcome leaves under its location, if its scan succeeded. -/
def Outcome.item? {α : Type} (f : Action → Tree × ScanStats → α) (s : Outcome) :
    Option (Path × α) :=
  s.result.toOption.map fun r => (s.location, f s.action r)

namespace Catalog

variable {c : Catalog} {o : BuildOptions} {d : Disk} {reader : SourceReader} {p : Path}

/-- The trees after publishing: each outcome leaves its tree. -/
theorem trees_publishAll (l : List Outcome) : ∀ c : Catalog, (c.publishAll l).trees =
    (l.filterMap (Outcome.item? fun _ r => r.1)).foldl (fun m q => m.insert q.1 q.2) c.trees := by
  induction l with
  | nil => intro c; rfl
  | cons s l ih =>
    intro c
    rw [publishAll, List.foldl_cons, List.filterMap_cons]
    refine (ih _).trans ?_
    rw [publishOutcome, Outcome.item?]
    cases s.result <;> rfl

/-- The report: each outcome leaves its action and its counts. -/
theorem report_eq (c : Catalog) (o : BuildOptions) (l : List Outcome) : c.report o l =
    (l.filterMap (Outcome.item? fun action r => ⟨action, r.2⟩)).foldl (fun m q => m.insert q.1 q.2)
      (c.keptReport o) := by
  rw [report]
  generalize c.keptReport o = m
  induction l generalizing m with
  | nil => rfl
  | cons s l ih =>
    rw [List.foldl_cons, List.filterMap_cons, ih, addOutcome, Outcome.item?]
    cases s.result <;> rfl

/-- What the scans of a build leave. -/
theorem mem_entries_iff {α : Type} {f : Action → Tree × ScanStats → α} {a : α} :
    (p, a) ∈ (c.scans o d reader).filterMap (Outcome.item? f) ↔
      p ∈ c.targets ∧ c.action o p ≠ .kept ∧
        ∃ r, d.scan p (c.previous o p) c.settings.extensions reader = .ok r ∧
          f (c.action o p) r = a := by
  have hentry : ∀ q, (c.scanTarget o d reader q).item? f = some (p, a) ↔ q = p ∧
      ∃ r, d.scan p (c.previous o p) c.settings.extensions reader = .ok r ∧
        f (c.action o p) r = a := by
    intro q
    rw [Outcome.item?, scanTarget]
    constructor
    · intro h
      obtain ⟨r, hr, hpair⟩ := Option.map_eq_some_iff.1 h
      obtain ⟨rfl, ha⟩ := Prod.mk.inj hpair
      refine ⟨rfl, r, ?_, ha⟩
      cases hscan : d.scan q (c.previous o q) c.settings.extensions reader with
      | ok r' =>
        rw [hscan] at hr
        exact congrArg Except.ok (Option.some.inj hr)
      | error e =>
        rw [hscan] at hr
        cases hr
    · rintro ⟨rfl, r, hscan, rfl⟩
      rw [hscan]
      rfl
  rw [List.mem_filterMap]
  constructor
  · rintro ⟨s, hs, hpair⟩
    obtain ⟨q, hq, hkept, rfl⟩ := mem_scans_iff.1 hs
    obtain ⟨rfl, hr⟩ := (hentry q).1 hpair
    exact ⟨hq, hkept, hr⟩
  · rintro ⟨hp, hkept, hr⟩
    exact ⟨_, mem_scans_iff.2 ⟨p, hp, hkept, rfl⟩, (hentry p).2 ⟨rfl, hr⟩⟩

section

variable (hc : c.Normal) (hs : ∀ p ∈ c.settings.locations.toList, p.normal = p)
  {l : List Outcome} (hl : l.Perm (c.scans o d reader)) {α : Type}
  {f : Action → Tree × ScanStats → α} {m : SortedMap Path α}

include hc hs hl

/-- **In whatever order the scans of a build leave their entries**, a location that was scanned has
that of its scan. -/
theorem find?_entries_of_scan {r : Tree × ScanStats} (hp : p ∈ c.targets)
    (hkept : c.action o p ≠ .kept)
    (hscan : d.scan p (c.previous o p) c.settings.extensions reader = .ok r) :
    ((l.filterMap (Outcome.item? f)).foldl (fun m q => m.insert q.1 q.2) m).find? p
      = some (f (c.action o p) r) := by
  have hmem : ∀ {q : Path × α}, q ∈ l.filterMap (Outcome.item? f) ↔
      q ∈ (c.scans o d reader).filterMap (Outcome.item? f) := (hl.filterMap _).mem_iff
  apply SortedMap.find?_foldl_insert_of_eq
  · exact ⟨_, hmem.2 (mem_entries_iff.2 ⟨hp, hkept, r, hscan, rfl⟩), Std.ReflCmp.compare_self⟩
  · rintro ⟨q, a⟩ hq he
    obtain ⟨htarget, -, r', hscan', rfl⟩ := mem_entries_iff.1 (hmem.1 hq)
    obtain rfl :=
      Path.eq_of_compare_eq (normal_of_mem_targets hc hs hp)
        (normal_of_mem_targets hc hs htarget) he
    rw [Except.ok.inj (hscan.symm.trans hscan')]

/-- A location that was kept has what it had. -/
theorem find?_entries_of_kept (hp : p.normal = p) (hkept : c.action o p = .kept) :
    ((l.filterMap (Outcome.item? f)).foldl (fun m q => m.insert q.1 q.2) m).find? p =
      m.find? p := by
  apply SortedMap.find?_foldl_insert_of_ne
  rintro ⟨q, a⟩ hq he
  obtain ⟨htarget, hscanned, -⟩ := mem_entries_iff.1 ((hl.filterMap _).mem_iff.1 hq)
  obtain rfl := Path.eq_of_compare_eq hp (normal_of_mem_targets hc hs htarget) he
  exact hscanned hkept

omit hc hs in
/-- There are entries for targets only, beside those from before. -/
theorem mem_keys_entries_cases
    (h : p ∈ ((l.filterMap (Outcome.item? f)).foldl (fun m q => m.insert q.1 q.2) m).keys) :
    p ∈ c.targets ∨ p ∈ m.keys := by
  rcases SortedMap.mem_keys_foldl_insert_cases h with ⟨a, ha⟩ | h
  · exact .inl (mem_entries_iff.1 ((hl.filterMap _).mem_iff.1 ha)).1
  · exact .inr h

end

/-! ### Builds that succeed -/

/-- What a build does with a location: the tree that it leaves and what it reports. -/
inductive Done (c : Catalog) (o : BuildOptions) (d : Disk) (reader : SourceReader) (p : Path) :
    Tree → LocationReport → Prop where
  /-- It is scanned against nothing if the build is clean or there was no tree. -/
  | scanned {t : Tree} {stats : ScanStats} (hnothing : o.clean = true ∨ c.location p = none)
      (hscan : d.scan p none c.settings.extensions reader = .ok (t, stats)) :
      Done c o d reader p t ⟨.scanned, stats⟩
  /-- Otherwise it is scanned against its tree if the build validates. -/
  | validated {t u : Tree} {stats : ScanStats} (hclean : o.clean = false)
      (hvalidate : o.validate = true) (htree : c.location p = some u)
      (hscan : d.scan p (some u) c.settings.extensions reader = .ok (t, stats)) :
      Done c o d reader p t ⟨.validated, stats⟩
  /-- Otherwise its tree is kept, and nothing is counted. -/
  | kept {t : Tree} (hclean : o.clean = false) (hvalidate : o.validate = false)
      (htree : c.location p = some t) :
      Done c o d reader p t ⟨.kept, {}⟩

/-- What a build that succeeds comes to. -/
structure Built (c : Catalog) (o : BuildOptions) (d : Disk) (reader : SourceReader)
    (report : BuildReport) (c' : Catalog) (d' : Disk) : Prop where
  /-- The locations that have trees are those configured and those that had trees before. -/
  locations : ∀ p, p ∈ c'.locations ↔ p ∈ c.settings.locations.toList ∨ p ∈ c.locations
  /-- They are reported on, and no others. -/
  reported : ∀ p, p ∈ report.locations.keys ↔ p ∈ c.settings.locations.toList ∨ p ∈ c.locations
  /-- Each has the tree and the report of what was done with it. -/
  done : ∀ p ∈ c'.locations, ∃ t r, c'.location p = some t ∧ report.locations.find? p = some r ∧
    c.Done o d reader p t r
  /-- The record is written if there is a file for it. -/
  persisted : report.persisted = c.settings.snapshot.isSome
  /-- The file is read as the trees under the signature, exactly if it and its lock file are
  apart. -/
  record : ∀ p, c.settings.snapshot = some p →
    ((Snapshot.load p d').1 = .ok (some (.new c.settings.signature c'.trees)) ↔ Snapshot.Apart p d')
  /-- They are apart if they were before. -/
  apart : ∀ p, c.settings.snapshot = some p → Snapshot.Apart p d → Snapshot.Apart p d'

/-- A build that succeeds has no failed scan, and has written the record. -/
theorem persist_of_finish {outcomes published : List Outcome} {report : BuildReport} {c' : Catalog}
    {d' : Disk} (h : c.finish o outcomes published d = (.ok report, c', d')) :
    failures outcomes = [] ∧ c' = c.publishAll published ∧ report.locations = c.report o outcomes ∧
      c'.persist d = (.ok report.persisted, d') := by
  have hok : (c.finish o outcomes published d).1.isOk = true := by rw [h]; rfl
  have hfailures := failures_of_finish hok
  rw [finish, hfailures] at h
  dsimp only at h
  cases hpersist : (c.publishAll published).persist d with
  | mk result after =>
    rw [hpersist] at h
    cases result with
    | error f => cases (Prod.mk.inj h).1
    | ok persisted =>
      obtain ⟨hreport, hrest⟩ := Prod.mk.inj h
      obtain ⟨rfl, rfl⟩ := Prod.mk.inj hrest
      obtain rfl := Except.ok.inj hreport
      exact ⟨hfailures, rfl, rfl, hpersist⟩

theorem exists_report_of_isOk {outcomes published : List Outcome}
    (h : (c.finish o outcomes published d).1.isOk = true) :
    ∃ report, c.finish o outcomes published d =
      (.ok report, (c.finish o outcomes published d).2.1,
        (c.finish o outcomes published d).2.2) := by
  generalize c.finish o outcomes published d = r at h ⊢
  obtain ⟨result, c', d'⟩ := r
  cases result with
  | ok report => exact ⟨report, rfl⟩
  | error f => cases h

theorem persist_cases {persisted : Bool} {d' : Disk} (h : c.persist d = (.ok persisted, d')) :
    persisted = c.settings.snapshot.isSome ∧
      ∀ p, c.settings.snapshot = some p → c.snapshot.save p d = (.ok (), d') := by
  cases hfile : c.settings.snapshot with
  | none =>
    rw [persist, hfile] at h
    obtain ⟨hpersisted, -⟩ := Prod.mk.inj h
    exact ⟨(Except.ok.inj hpersisted).symm, fun p hp => by cases hp⟩
  | some q =>
    rw [persist_eq hfile] at h
    obtain ⟨done, e, hsave, h⟩ := OnDisk.exists_of_bind h
    obtain ⟨hpersisted, rfl⟩ := Prod.mk.inj h
    refine ⟨(Except.ok.inj hpersisted).symm, fun p hp => ?_⟩
    obtain rfl := Option.some.inj hp
    exact hsave

/-- Without a failure, every target that is not kept has been scanned. -/
theorem exists_scan_of_no_failure (h : failures (c.scans o d reader) = []) (hp : p ∈ c.targets)
    (hkept : c.action o p ≠ .kept) :
    ∃ r, d.scan p (c.previous o p) c.settings.extensions reader = .ok r := by
  obtain ⟨t, ht⟩ := exists_tree_of_no_failure h (mem_scans_iff.2 ⟨p, hp, hkept, rfl⟩)
  obtain ⟨stats, hscan⟩ := tree?_scanTarget_eq_some_iff.1 ht
  exact ⟨(t, stats), hscan⟩

theorem find?_keptReport (hp : p ∈ c.targets) (hkept : c.action o p = .kept) :
    (c.keptReport o).find? p = some ⟨.kept, {}⟩ := by
  rw [keptReport, SortedMap.ofList]
  apply SortedMap.find?_foldl_insert_of_eq
  · exact ⟨(p, ⟨.kept, {}⟩), List.mem_map.2 ⟨p, List.mem_filter.2 ⟨hp, by simpa using hkept⟩, rfl⟩,
      Std.ReflCmp.compare_self⟩
  · intro q hq _
    obtain ⟨_, -, rfl⟩ := List.mem_map.1 hq
    rfl

theorem mem_targets_of_mem_keptReport (h : p ∈ (c.keptReport o).keys) : p ∈ c.targets := by
  rcases SortedMap.mem_keys_foldl_insert_cases h with ⟨r, hr⟩ | h
  · obtain ⟨q, hq, hpair⟩ := List.mem_map.1 hr
    obtain ⟨rfl, -⟩ := Prod.mk.inj hpair
    exact List.mem_of_mem_filter hq
  · cases h

/-- Among paths in normal form, what a map finds is a key of it. -/
theorem mem_keys_of_find? {α : Type} {m : SortedMap Path α} (hm : ∀ q ∈ m.keys, q.normal = q)
    (hp : p.normal = p) {a : α} (h : m.find? p = some a) : p ∈ m.keys := by
  obtain ⟨q, hq, he⟩ := Ordered.exists_mem_of_lookup h
  have hmem : q ∈ m.keys := List.mem_map.2 ⟨_, hq, rfl⟩
  rwa [Path.eq_of_compare_eq hp (hm q hmem) he]

/-- What was done with a location leaves a tree that passes its check. -/
theorem Done.isIntact {t : Tree} {r : LocationReport} (h : c.Done o d reader p t r)
    (hintact : ∀ u, c.location p = some u → u.isIntact = true) : t.isIntact = true := by
  cases h with
  | scanned _ hscan => exact Tree.isIntact_of_scan hscan
  | validated _ _ _ hscan => exact Tree.isIntact_of_scan hscan
  | kept _ _ htree => exact hintact t htree

section

variable (hc : c.Normal) (hs : ∀ p ∈ c.settings.locations.toList, p.normal = p)

include hc hs

theorem mem_targets_iff : p ∈ c.targets ↔ p ∈ c.settings.locations.toList ∨ p ∈ c.locations :=
  ⟨mem_targets_cases, fun h =>
    h.elim mem_targets_of_configured (mem_targets_of_mem_locations hc hs)⟩

/-- What was done with a target, if no scan has failed: its tree after publishing in any order, and
the report. -/
theorem done_of_no_failure {published : List Outcome}
    (hpublished : published.Perm (c.scans o d reader)) (hok : failures (c.scans o d reader) = [])
    (hp : p ∈ c.targets) :
    ∃ t r, (c.publishAll published).location p = some t ∧
      (c.report o (c.scans o d reader)).find? p = some r ∧ c.Done o d reader p t r := by
  have hnormal := normal_of_mem_targets hc hs hp
  have hlocation : ∀ c' : Catalog, c'.location p = c'.trees.find? p :=
    fun c' => by rw [location, hnormal]
  have hscanned : c.action o p ≠ .kept →
      ∃ r, d.scan p (c.previous o p) c.settings.extensions reader = .ok r ∧
      (c.publishAll published).location p = some r.1 ∧
        (c.report o (c.scans o d reader)).find? p = some ⟨c.action o p, r.2⟩ := by
    intro hkept
    obtain ⟨r, hscan⟩ := exists_scan_of_no_failure hok hp hkept
    refine ⟨r, hscan, ?_, ?_⟩
    · rw [hlocation, trees_publishAll, find?_entries_of_scan hc hs hpublished hp hkept hscan]
    · rw [report_eq, find?_entries_of_scan hc hs (List.Perm.refl _) hp hkept hscan]
  by_cases hnothing : o.clean = true ∨ c.location p = none
  · have haction : c.action o p = .scanned := by
      rw [action, if_pos]
      simpa using hnothing
    obtain ⟨r, hscan, htree, hreport⟩ := hscanned (by rw [haction]; simp)
    rw [previous, haction, if_neg (by simp)] at hscan
    rw [haction] at hreport
    exact ⟨r.1, _, htree, hreport, .scanned hnothing hscan⟩
  · obtain ⟨hclean, htree⟩ := not_or.1 hnothing
    obtain ⟨u, hu⟩ := Option.ne_none_iff_exists'.1 htree
    rw [Bool.not_eq_true] at hclean
    have haction : c.action o p = if o.validate then .validated else .kept := by
      rw [action, if_neg (by simp [hclean, hu])]
    cases hvalidate : o.validate with
    | true =>
      rw [hvalidate, if_pos rfl] at haction
      obtain ⟨r, hscan, htree, hreport⟩ := hscanned (by rw [haction]; simp)
      rw [previous, haction, if_pos rfl, hu] at hscan
      rw [haction] at hreport
      exact ⟨r.1, _, htree, hreport, .validated hclean hvalidate hu hscan⟩
    | false =>
      rw [hvalidate, if_neg (by simp)] at haction
      refine ⟨u, ⟨.kept, {}⟩, ?_, ?_, .kept hclean hvalidate hu⟩
      · rw [hlocation, trees_publishAll, find?_entries_of_kept hc hs hpublished hnormal haction,
          ← hlocation, hu]
      · rw [report_eq, find?_entries_of_kept hc hs (List.Perm.refl _) hnormal haction,
          find?_keptReport hp haction]

section

variable {published : List Outcome} (hpublished : published.Perm (c.scans o d reader))
  (hok : failures (c.scans o d reader) = [])

include hok

/-- The report is on the targets. -/
theorem mem_keys_report_iff : p ∈ (c.report o (c.scans o d reader)).keys ↔ p ∈ c.targets := by
  have hto : ∀ q ∈ (c.report o (c.scans o d reader)).keys, q ∈ c.targets := by
    intro q hq
    rw [report_eq] at hq
    exact (mem_keys_entries_cases (.refl _) hq).elim id mem_targets_of_mem_keptReport
  refine ⟨hto p, fun hp => ?_⟩
  obtain ⟨t, r, -, hr, -⟩ := done_of_no_failure hc hs (.refl _) hok hp
  exact mem_keys_of_find?
    (fun q hq => normal_of_mem_targets hc hs (hto q hq)) (normal_of_mem_targets hc hs hp) hr

include hpublished

/-- The locations of the catalog are the targets. -/
theorem mem_locations_publishAll_iff : p ∈ (c.publishAll published).locations ↔ p ∈ c.targets := by
  have hto : ∀ q ∈ (c.publishAll published).locations, q ∈ c.targets := by
    intro q hq
    rw [locations, trees_publishAll] at hq
    exact (mem_keys_entries_cases hpublished hq).elim id (mem_targets_of_mem_locations hc hs)
  refine ⟨hto p, fun hp => ?_⟩
  have hnormal := normal_of_mem_targets hc hs hp
  obtain ⟨t, r, htree, -⟩ := done_of_no_failure hc hs hpublished hok hp
  rw [location, hnormal] at htree
  exact mem_keys_of_find? (fun q hq => normal_of_mem_targets hc hs (hto q hq)) hnormal htree

/-- Trees that pass their checks before still do. -/
theorem isIntact_publishAll (hintact : ∀ t ∈ c.trees.values, t.isIntact = true) :
    ∀ t ∈ (c.publishAll published).trees.values, t.isIntact = true := by
  have hnormal : (c.publishAll published).Normal := fun q hq =>
    normal_of_mem_targets hc hs ((mem_locations_publishAll_iff hc hs hpublished hok).1 hq)
  intro t ht
  obtain ⟨⟨q, u⟩, hmem, rfl⟩ := List.mem_map.1 ht
  have hlocation := mem_locations_of_mem hmem
  have hu : (c.publishAll published).location q = some u := by
    rwa [location_eq_some_iff hnormal, hnormal q hlocation]
  have htarget := (mem_locations_publishAll_iff hc hs hpublished hok).1 hlocation
  obtain ⟨t, r, ht, -, hwas⟩ := done_of_no_failure hc hs hpublished hok htarget
  obtain rfl := Option.some.inj (hu.symm.trans ht)
  refine hwas.isIntact fun v hv => hintact v ?_
  exact List.mem_map.2 ⟨_, (location_eq_some_iff hc).1 hv, rfl⟩

end

end

/-- **Catalog, report and record agree after a build that succeeds**, whatever the order in which
its scans publish.  The locations before are in normal form and their trees pass their checks, and
no tree is longer than a record can hold. -/
theorem built_of_finish (hc : c.Normal) (hintact : ∀ t ∈ c.trees.values, t.isIntact = true)
    {locations : List Path} {signature : String} {file : Option Path} {extensions : List String}
    (hsettings : c.settings =
      { Settings.ofLocations locations signature with snapshot := file, extensions := extensions })
    {published : List Outcome} (hpublished : published.Perm (c.scans o d reader))
    {report : BuildReport} {c' : Catalog} {d' : Disk}
    (h : c.finish o (c.scans o d reader) published d = (.ok report, c', d'))
    (hsize : ∀ t ∈ c'.trees.values, t.size ≤ placeLimit) : c.Built o d reader report c' d' := by
  have hs : ∀ p ∈ c.settings.locations.toList, p.normal = p := by
    intro p hp
    rw [hsettings] at hp
    obtain ⟨q, -, rfl⟩ := List.mem_map.1 (SortedSet.mem_of_mem_ofList hp)
    exact q.normal_normal
  obtain ⟨hok, rfl, hreport, hpersist⟩ := persist_of_finish h
  obtain ⟨hpersisted, hsave⟩ := persist_cases hpersist
  rw [settings_publishAll] at hpersisted hsave
  have hlocations (q : Path) := mem_locations_publishAll_iff (p := q) hc hs hpublished hok
  have htrees := isIntact_publishAll hc hs hpublished hok hintact
  have husable : (c.publishAll published).snapshot.isUsable = true :=
    Snapshot.isUsable_of_isIntact rfl htrees
  have hfits : (c.publishAll published).snapshot.fits = true :=
    Snapshot.fits_of_isIntact fun t ht => ⟨htrees t ht, hsize t ht⟩
  have hsnapshot : (c.publishAll published).snapshot =
      .new c.settings.signature (c.publishAll published).trees := by
    rw [snapshot, settings_publishAll]
  refine ⟨fun q => ?_, fun q => ?_, fun q hq => ?_, hpersisted, fun q hq => ?_,
    fun q hq hapart => hapart.save (hsave q hq)⟩
  · rw [hlocations, mem_targets_iff hc hs]
  · rw [hreport, mem_keys_report_iff hc hs hok, mem_targets_iff hc hs]
  · rw [hreport]
    exact done_of_no_failure hc hs hpublished hok ((hlocations q).1 hq)
  · rw [← hsnapshot]
    exact Snapshot.load_of_save_iff hfits husable (hsave q hq)

/-- A disk with two locations of one file each and a directory for the record. -/
def twoFileDisk (cache : List (String × Entry)) : Disk where
  root := .dir [("app", .dir [("b.js", .file "define(['a']);".toUTF8 7)]), ("cache", .dir cache),
    ("lib", .dir [("a.js", .file "define([]);".toUTF8 5)])]

/-- A catalog of these locations that has a tree for one of them. -/
def halfBuilt : Catalog where
  settings :=
    { Settings.ofLocations [⟨"lib/"⟩, ⟨"app"⟩] "signature" with
      snapshot := some ⟨"cache/depmap.json"⟩, extensions := ["js"] }
  trees := .ofList [(⟨"lib"⟩, .new "lib")]

theorem normal_halfBuilt : halfBuilt.Normal := by
  show ∀ p ∈ halfBuilt.locations, p.normal = p
  with_unfolding_all decide

/-- A location is validated and another one scanned, and they are published in the other order. -/
theorem built_of_finish_halfBuilt : ∃ report c' d',
    halfBuilt.finish { validate := true } (halfBuilt.scans { validate := true } (twoFileDisk []))
        (halfBuilt.scans { validate := true } (twoFileDisk [])).reverse (twoFileDisk []) =
          (.ok report, c', d') ∧
      halfBuilt.Built { validate := true } (twoFileDisk []) amdReader report c' d' := by
  let scans := halfBuilt.scans { validate := true } (twoFileDisk [])
  have hok : (halfBuilt.finish { validate := true } scans scans.reverse (twoFileDisk [])).1.isOk =
      true := by
    with_unfolding_all decide
  obtain ⟨report, hfinish⟩ := exists_report_of_isOk hok
  refine ⟨report, _, _, hfinish, ?_⟩
  exact built_of_finish normal_halfBuilt (by with_unfolding_all decide) rfl
    (List.reverse_perm scans) hfinish (by with_unfolding_all decide)

/-- A lock file that is a link to the record, which is emptied when it is loaded after a build. -/
theorem load_of_linkedLock_of_build : ¬ ∀ (c : Catalog) (locations : List Path) (signature : String)
    (file : Option Path) (extensions : List String) (o : BuildOptions) (d : Disk)
    (reader : SourceReader) (published : List Outcome) (report : BuildReport) (c' : Catalog)
    (d' : Disk), c.Normal →
      (∀ t ∈ c.trees.values, t.isIntact = true) →
        c.settings =
            { Settings.ofLocations locations signature with
              snapshot := file, extensions := extensions } →
          published.Perm (c.scans o d reader) →
            c.finish o (c.scans o d reader) published d = (.ok report, c', d') →
              (∀ t ∈ c'.trees.values, t.size ≤ placeLimit) →
                ∀ p, file = some p →
                  (Snapshot.load p d').1 = .ok (some (.new signature c'.trees)) := by
  intro h
  let d := twoFileDisk [("depmap.json.lock", .link "depmap.json")]
  let scans := halfBuilt.scans {} d
  have hok : (halfBuilt.finish {} scans scans d).1.isOk = true := by with_unfolding_all decide
  obtain ⟨report, hfinish⟩ := exists_report_of_isOk hok
  have hload : (Snapshot.load ⟨"cache/depmap.json"⟩ (halfBuilt.finish {} scans scans d).2.2).1 =
      .ok none := by
    with_unfolding_all decide
  have hsome :=
    h halfBuilt [⟨"lib/"⟩, ⟨"app"⟩] "signature" (some ⟨"cache/depmap.json"⟩) ["js"] {} d amdReader
      scans report _ _ normal_halfBuilt (by with_unfolding_all decide) rfl (.refl _) hfinish
      (by with_unfolding_all decide) ⟨"cache/depmap.json"⟩ rfl
  rw [hload] at hsome
  cases hsome

end Catalog

end ModuleAtlas
