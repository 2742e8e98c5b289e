import ModuleAtlas.Proofs.BuildOutcome
import ModuleAtlas.Proofs.RecordFile

/-!
# Keys of locations

A catalog looks a location up under its normal form, so a tree that is kept under another key cannot
be reached and is scanned by every build.  Building, publishing and editing add keys in normal form
only.  A record is taken over with the keys that it has, and so the keys are in normal form as long
as those of the last record are.

## Main definitions

* `Path.IsNormal` — a path has the components of its normal form.
* `Catalog.NormalKeys` — all keys of a catalog are in normal form.
* `Catalog.foundRecord` — the record that a look for it finds.
* `Catalog.Reached` — the catalogs that loading, building, publishing and editing lead to.

## Main results

* `Catalog.normalKeys_put_iff`, `Catalog.normalKeys_publishAll_iff` — what is published leaves old
  keys as they are.
* `Catalog.Reached.normalKeys_iff` — **all keys are in normal form exactly if those of the last
  record are.**
* `Catalog.mem_publishAll_of_mem` — as long as they are, a build that need not scan keeps every
  tree.
-/

namespace ModuleAtlas

/-! ### Paths with the components of their normal form -/

namespace Path

/-- Whether a path has the components of its normal form. -/
def IsNormal (p : Path) : Prop := compare p.normal p = .eq

instance (p : Path) : Decidable p.IsNormal := inferInstanceAs (Decidable (compare p.normal p = .eq))

variable {p q : Path}

theorem isNormal_normal (p : Path) : p.normal.IsNormal := by
  rw [IsNormal, normal_normal]
  exact Std.ReflCmp.compare_self

/-- Paths that are one key have one normal form. -/
theorem normal_eq_of_compare_eq (h : compare p q = .eq) : p.normal = q.normal := by
  have hcomponents : p.components = q.components := Std.LawfulEqOrd.compare_eq_iff_eq.1 h
  rw [normal, hcomponents, normal]

/-- A key is found under some spelling exactly if it is in normal form. -/
theorem isNormal_iff_exists : p.IsNormal ↔ ∃ q : Path, compare q.normal p = .eq := by
  constructor
  · intro h
    exact ⟨p, h⟩
  · rintro ⟨q, h⟩
    rwa [IsNormal, ← normal_eq_of_compare_eq h, normal_normal]

end Path

/-- Locations are configured in normal form. -/
theorem Settings.isNormal_of_ofLocations (locations : List Path) (signature : String) :
    ∀ p ∈ (Settings.ofLocations locations signature).locations.toList, p.IsNormal := by
  intro p h
  obtain ⟨q, -, rfl⟩ := List.mem_map.1 (SortedSet.mem_of_mem_ofList h)
  exact q.isNormal_normal

namespace Catalog

/-- All keys are in normal form. -/
def NormalKeys (c : Catalog) : Prop := ∀ p ∈ c.locations, p.IsNormal

/-! ### What is published -/

variable {c : Catalog} {p q : Path} {t : Tree}

theorem mem_locations_put (h : q ∈ c.locations) (p : Path) (t : Tree) :
    q ∈ (c.put p t).locations := by
  obtain ⟨u, hu⟩ := mem_locations_iff.1 h
  obtain ⟨v, hv⟩ := Ordered.exists_mem_bind_of_mem p t hu
  exact mem_locations_of_mem hv

/-- A tree that is published under a key in normal form, or under an old one, leaves the keys as
they are. -/
theorem normalKeys_put_iff (hp : p.IsNormal ∨ p ∈ c.locations) : (c.put p t).NormalKeys ↔
    c.NormalKeys := by
  constructor
  · intro h q hq
    exact h q (mem_locations_put hq p t)
  · intro h q hq
    rcases SortedMap.mem_keys_insert_cases hq with rfl | hq
    · exact hp.elim id (h q)
    · exact h q hq

theorem normalKeys_publish_iff : (c.publish p t).NormalKeys ↔ c.NormalKeys :=
  normalKeys_put_iff (.inl p.isNormal_normal)

theorem normalKeys_publishAll_iff {l : List Outcome} : ∀ {c : Catalog},
    (∀ s ∈ l, s.location.IsNormal ∨ s.location ∈ c.locations) →
      ((c.publishAll l).NormalKeys ↔ c.NormalKeys) := by
  induction l with
  | nil => intro c _; rfl
  | cons s l ih =>
    intro c hl
    have hrest := fun r hr => hl r (List.mem_cons_of_mem s hr)
    rw [publishAll, List.foldl_cons]
    cases hs : s.tree? with
    | none =>
      rw [publishOutcome_of_none hs]
      exact ih hrest
    | some u =>
      rw [publishOutcome_of_some hs]
      refine (ih fun r hr => (hrest r hr).imp_right fun h => mem_locations_put h _ u).trans ?_
      exact normalKeys_put_iff (hl s List.mem_cons_self)

/-- An edit publishes what it has changed, if there was a tree. -/
theorem update_cases {α : Type} (c : Catalog) (p : Path) (edit : Tree → α × Tree) :
    (c.update p edit).2 = c ∨ ∃ t, (c.update p edit).2 = c.publish p t := by
  rw [update]
  cases c.location p with
  | none => exact .inl rfl
  | some t => exact .inr ⟨(edit t).2, rfl⟩

/-! ### Records -/

/-- The record that a look for it finds. -/
def foundRecord (c : Catalog) (d : Disk) : Option Snapshot :=
  c.settings.snapshot.bind fun p => (Snapshot.load p d).1.toOption.join

/-- A catalog takes over all trees of the record that it finds, under their keys, or stays as it
is. -/
theorem adopt_foundRecord {c' : Catalog} {d d' : Disk} {found : Bool}
    (h : c.loadSnapshot d = (.ok (found, c'), d')) :
    found = false ∧ c' = c ∨ found = true ∧ ∃ r, c.foundRecord d = some r ∧
      c' = { c with trees := r.locations } := by
  rcases loadSnapshot_found_cases h with hmissed | ⟨hfound, p, r, hp, hload, -, hc⟩
  · exact .inl hmissed
  · refine .inr ⟨hfound, r, ?_, hc⟩
    rw [foundRecord, hp, Option.bind_some, hload]
    rfl

/-! ### Catalogs that are reached -/

/-- The catalogs that loading, building, publishing and editing lead to from the given settings,
each with the record that was taken over last, if one was. -/
inductive Reached (s : Settings) : Option Snapshot → Catalog → Prop where
  /-- A catalog starts without trees. -/
  | start : Reached s none { settings := s }
  /-- It looks for its record. -/
  | loaded {record : Option Snapshot} {c c' : Catalog} {d d' : Disk} {found : Bool}
      (h : Reached s record c) (hload : c.loadSnapshot d = (.ok (found, c'), d')) :
      Reached s (if found then c.foundRecord d else record) c'
  /-- It is built, and the scans publish in some order. -/
  | built {record : Option Snapshot} {c : Catalog} (h : Reached s record c) (o : BuildOptions)
      (d : Disk) (reader : SourceReader) {published : List Outcome}
      (hpublished : published.Perm (c.scans o d reader)) :
      Reached s record (c.finish o (c.scans o d reader) published d).2.1
  /-- A tree is published. -/
  | published {record : Option Snapshot} {c : Catalog} (h : Reached s record c)
      (p : Path) (t : Tree) :
      Reached s record (c.publish p t)
  /-- A tree is edited. -/
  | updated {record : Option Snapshot} {c : Catalog} {α : Type} (h : Reached s record c) (p : Path)
      (edit : Tree → α × Tree) : Reached s record (c.update p edit).2

variable {s : Settings} {record : Option Snapshot}

theorem Reached.settings_eq (h : Reached s record c) : c.settings = s := by
  induction h with
  | start => rfl
  | loaded _ hload ih =>
    rcases adopt_foundRecord hload with ⟨-, rfl⟩ | ⟨-, r, -, rfl⟩
    · exact ih
    · exact ih
  | built _ o d reader _ ih => rw [catalog_finish, settings_publishAll, ih]
  | published _ p t ih => exact ih
  | @updated _ c _ _ p edit ih =>
    rcases update_cases c p edit with hc | ⟨t, hc⟩
    · rw [hc, ih]
    · rw [hc]
      exact ih

/-- The locations that a build scans are configured ones and old keys. -/
theorem location_cases_of_mem_scans {o : BuildOptions} {d : Disk} {reader : SourceReader}
    {l : List Outcome} (hl : l.Perm (c.scans o d reader)) {r : Outcome} (hr : r ∈ l) :
    r.location ∈ c.settings.locations.toList ∨ r.location ∈ c.locations := by
  obtain ⟨p, hp, -, rfl⟩ := mem_scans_iff.1 (hl.mem_iff.1 hr)
  exact mem_targets_cases hp

/-- **All keys are in normal form exactly if those of the last record are**, which is the only way
in which others come in. -/
theorem Reached.normalKeys_iff (hs : ∀ p ∈ s.locations.toList, p.IsNormal)
    (h : Reached s record c) : c.NormalKeys ↔ ∀ r ∈ record, ∀ p ∈ r.locations.keys, p.IsNormal := by
  induction h with
  | start =>
    constructor
    · intro _ r hr
      cases hr
    · intro _ p hp
      cases hp
  | @loaded _ c _ d _ _ hc hload ih =>
    rcases adopt_foundRecord hload with ⟨rfl, rfl⟩ | ⟨rfl, r, hr, rfl⟩
    · exact ih
    · rw [if_pos rfl, hr]
      exact ⟨fun h r' hr' => Option.some.inj hr' ▸ h, fun h => h r rfl⟩
  | built hc o d reader hpublished ih =>
    rw [catalog_finish, ← ih]
    apply normalKeys_publishAll_iff
    intro r hr
    refine (location_cases_of_mem_scans hpublished hr).imp_left fun h => hs _ ?_
    rwa [hc.settings_eq] at h
  | published hc p t ih => exact normalKeys_publish_iff.trans ih
  | @updated _ c _ hc p edit ih =>
    rw [← ih]
    rcases update_cases c p edit with hsame | ⟨t, hchanged⟩
    · rw [hsame]
    · rw [hchanged]
      exact normalKeys_publish_iff

/-! ### Keys in normal form -/

/-- A key in normal form leads to its own tree. -/
theorem location_of_mem (hp : p.IsNormal) (h : (p, t) ∈ c.trees.toList) : c.location p = some t :=
  Ordered.lookup_of_mem c.trees.increasing h hp

/-- Publishing keeps the tree of every key that it does not publish under. -/
theorem mem_publishAll_of_ne {l : List Outcome} :
    ∀ {c : Catalog}, (∀ r ∈ l, compare r.location p ≠ .eq) →
    (p, t) ∈ c.trees.toList → (p, t) ∈ (c.publishAll l).trees.toList := by
  induction l with
  | nil => intro c _ h; exact h
  | cons r l ih =>
    intro c hne h
    refine ih (fun r' hr' => hne r' (List.mem_cons_of_mem _ hr')) ?_
    cases hr : r.tree? with
    | none => rwa [publishOutcome_of_none hr]
    | some u =>
      rw [publishOutcome_of_some hr]
      exact Ordered.mem_bind_of_ne u h (hne r List.mem_cons_self)

section

variable {o : BuildOptions} (hclean : o.clean = false) (hvalidate : o.validate = false)

include hclean hvalidate

theorem action_eq_kept_iff : c.action o p = .kept ↔ (c.location p).isSome = true := by
  rw [action, hclean, hvalidate]
  cases c.location p <;> simp

/-- A build that need not scan keeps the tree of a key in normal form, whatever other keys there
are. -/
theorem mem_publishAll_of_mem {d : Disk} {reader : SourceReader} {l : List Outcome}
    (hl : l.Perm (c.scans o d reader)) (hp : p.IsNormal) (h : (p, t) ∈ c.trees.toList) :
    (p, t) ∈ (c.publishAll l).trees.toList := by
  refine mem_publishAll_of_ne ?_ h
  intro r hr he
  obtain ⟨q, -, hkept, rfl⟩ := mem_scans_iff.1 (hl.mem_iff.1 hr)
  have he : compare q p = .eq := he
  -- a location that is scanned has no tree, and this one has that of the key
  apply hkept
  rw [action_eq_kept_iff hclean hvalidate, location, Path.normal_eq_of_compare_eq he]
  rw [SortedMap.find?, Ordered.lookup_of_mem c.trees.increasing h hp]
  rfl

end

/-- **When the trees of a catalog can be reached.**  Whatever it has loaded, built, published and
edited, its keys are in normal form exactly if those of the last record are.  Some spelling leads to
a key exactly if it is in normal form.  Then the key leads to its tree, and a build that neither
starts anew nor validates keeps that. -/
theorem Reached.keys_lead_to_trees {locations : List Path} {signature : String} {file : Option Path}
    {extensions : List String}
    (h : Reached
      { Settings.ofLocations locations signature with snapshot := file, extensions := extensions }
      record c) :
    (c.NormalKeys ↔ ∀ r ∈ record, ∀ p ∈ r.locations.keys, p.IsNormal) ∧
      ∀ p t, (p, t) ∈ c.trees.toList → (p.IsNormal ↔ ∃ q : Path, compare q.normal p = .eq) ∧
        (p.IsNormal → c.location p = some t ∧
          ∀ (o : BuildOptions) (d : Disk) (reader : SourceReader) (published : List Outcome),
            o.clean = false → o.validate = false → published.Perm (c.scans o d reader) →
              c.action o p = .kept ∧
                (p, t) ∈ (c.finish o (c.scans o d reader) published d).2.1.trees.toList) := by
  refine ⟨h.normalKeys_iff ?_, fun p t hmem => ⟨Path.isNormal_iff_exists, fun hp => ?_⟩⟩
  · exact Settings.isNormal_of_ofLocations locations signature
  have hlocation := location_of_mem hp hmem
  refine ⟨hlocation, fun o d reader published hclean hvalidate hpublished => ⟨?_, ?_⟩⟩
  · rw [action_eq_kept_iff hclean hvalidate, hlocation]
    rfl
  · rw [catalog_finish]
    exact mem_publishAll_of_mem hclean hvalidate hpublished hp hmem

/-- A record of one location, as it is spelt. -/
def recordOf (location : String) : Snapshot := .new "signature" (.ofList [(⟨location⟩, .new "lib")])

/-- A disk with a location of one file, another directory and a file for the record. -/
def recordDisk (location : String) : Disk where
  root := .dir [("cache", .dir [("depmap.json", .file (recordOf location).toBytes 1)]),
    ("lib", .dir [("a.js", .file "define([]);".toUTF8 1)]), ("x", .dir [])]

/-- A catalog without configured locations that has taken over the record. -/
def recordCatalog (location : String) : Catalog where
  settings :=
    { Settings.ofLocations [] "signature" with
      snapshot := some ⟨"cache/depmap.json"⟩, extensions := ["js"] }
  trees := (recordOf location).locations

theorem lock_recordDisk (location : String) : ∃ lockFile d',
    lock ⟨"cache/depmap.json"⟩ (recordDisk location) = (.ok lockFile, d') ∧
      d'.read ⟨"cache/depmap.json"⟩ = .ok (recordOf location).toBytes ∧
        (recordDisk location).exists? ⟨"cache/depmap.json"⟩ = true :=
  ⟨_, _, by with_unfolding_all rfl, by with_unfolding_all rfl, by with_unfolding_all rfl⟩

theorem reached_recordCatalog (location : String) :
    Reached (recordCatalog location).settings (some (recordOf location))
      (recordCatalog location) := by
  obtain ⟨lockFile, d', hlock, hread, hexists⟩ := lock_recordDisk location
  have husable : Snapshot.usable? d' ⟨"cache/depmap.json"⟩ = some (recordOf location) :=
    Snapshot.usable?_of_read hread (by with_unfolding_all rfl) (by with_unfolding_all rfl)
  let c : Catalog := { settings := (recordCatalog location).settings }
  have hload : c.loadSnapshot (recordDisk location) = (.ok (true, recordCatalog location), d') :=
    loadSnapshot_of_usable rfl hexists hlock husable (Snapshot.isValidFor_new _ _)
  have hrecord : c.foundRecord (recordDisk location) = some (recordOf location) := by
    have hfile : c.settings.snapshot = some ⟨"cache/depmap.json"⟩ := rfl
    rw [foundRecord, hfile, Option.bind_some, Snapshot.load_of_lock hexists hlock, husable]
    rfl
  rw [← hrecord]
  exact .loaded .start hload

/-- A record whose key is in normal form but for a slash at its end. -/
theorem keys_lead_to_trees_slashed :
    Reached (recordCatalog "lib/").settings (some (recordOf "lib/")) (recordCatalog "lib/") ∧
      (recordCatalog "lib/").NormalKeys ∧
        (recordCatalog "lib/").location ⟨"lib/"⟩ = some (.new "lib") ∧
        (⟨"lib/"⟩, .new "lib") ∈ ((recordCatalog "lib/").finish {} ((recordCatalog "lib/").scans {}
          (recordDisk "lib/")) [] (recordDisk "lib/")).2.1.trees.toList := by
  have hreached := reached_recordCatalog "lib/"
  obtain ⟨hkeys, hleads⟩ := Reached.keys_lead_to_trees hreached
  obtain ⟨-, hnormal⟩ := hleads ⟨"lib/"⟩ (.new "lib") (by decide +kernel)
  obtain ⟨hlocation, hkept⟩ := hnormal (by decide +kernel)
  have hscans : (recordCatalog "lib/").scans {} (recordDisk "lib/") = [] := by
    with_unfolding_all rfl
  refine ⟨hreached, hkeys.2 ?_, hlocation, ?_⟩
  · rintro r hr p hp
    obtain rfl := Option.some.inj hr
    revert p
    decide +kernel
  · exact (hkept {} (recordDisk "lib/") amdReader [] rfl rfl (hscans ▸ .refl _)).2

/-- **A record can bring in a key that no spelling leads to**: there is no tree for the location as
it is listed, and a build that need not scan does not keep the tree that the record has. -/
theorem detouredKey_leads_nowhere :
    Reached (recordCatalog "x/../lib").settings (some (recordOf "x/../lib"))
      (recordCatalog "x/../lib") ∧
      (recordCatalog "x/../lib").locations = [⟨"x/../lib"⟩] ∧ ¬ (Path.mk "x/../lib").IsNormal ∧
        (recordCatalog "x/../lib").location ⟨"x/../lib"⟩ = none ∧
          (recordCatalog "x/../lib").trees.toList = [(⟨"x/../lib"⟩, .new "lib")] ∧
            (⟨"x/../lib"⟩, .new "lib") ∉
              ((recordCatalog "x/../lib").build {} (recordDisk "x/../lib")).2.1.trees.toList := by
  refine ⟨reached_recordCatalog "x/../lib", ?_, ?_, ?_, ?_, ?_⟩
  · decide +kernel
  · decide +kernel
  · decide +kernel
  · decide +kernel
  · decide +kernel

end Catalog

end ModuleAtlas
