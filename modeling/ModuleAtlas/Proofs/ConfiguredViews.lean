import ModuleAtlas.Proofs.BuildOutcome
import ModuleAtlas.Proofs.SafeReading
import ModuleAtlas.Proofs.Signatures

/-!
# Views of configurations

A configuration that passes its validation gives settings whose locations are those of its aliases,
in normal form.  A catalog that is opened with them has a tree for each, whatever record it found,
so mounting the aliases never fails, and every alias leads to the root of a tree.

Aliases are different texts, but only their segments count where trees are mounted.  Of several
aliases with the same segments the last one wins, and nothing tells that the others are hidden.  So
each alias has its own place and the tree of its own location exactly if no two of them have the
same segments.

## Main definitions

* `Catalog.aliasCalls` — mounting the trees of aliases, as calls.
* `lastAlias` — the last alias with given segments.
* `Namespace.ShowsRoot` — an alias leads to the root of a mounted tree.

## Main results

* `Catalog.mapAliases_eq_run` — mounting aliases that have trees never fails.
* `Catalog.mounted_aliasCalls` — the last alias decides what is mounted.
* `Catalog.isSome_location_of_openWith`, `Catalog.isIntact_of_openWith` — the trees of a catalog
  that was opened.
* `Config.exists_view_of_openWith` — what comes of a valid configuration.
* `Config.showsRoot_of_openWith` — **every alias of a valid configuration leads to the root of a
  tree.**
* `Config.showsOwn_iff_nodup` — **no alias hides another one exactly if no two have the same
  segments.**
-/

namespace ModuleAtlas

open Namespace (Call run mounted)

/-! ### Mounting aliases -/

/-- The last of several aliases with the given segments. -/
def lastAlias (path : List String) (l : List (String × Path)) : Option (String × Path) :=
  (l.filter fun q => segments q.1 = path).getLast?

theorem lastAlias_concat (path : List String) (l : List (String × Path)) (q : String × Path) :
    lastAlias path (l ++ [q]) = if segments q.1 = path then some q else lastAlias path l := by
  rw [lastAlias, List.filter_append, lastAlias]
  split
  · next h => simp [h]
  · next h => simp [h]

theorem lastAlias_eq_none_iff {path : List String} {l : List (String × Path)} :
    lastAlias path l = none ↔ path ∉ l.map fun q => segments q.1 := by
  rw [lastAlias, List.getLast?_eq_none_iff, List.filter_eq_nil_iff]
  simp

theorem mem_of_lastAlias {path : List String} {l : List (String × Path)} {q : String × Path}
    (h : lastAlias path l = some q) : q ∈ l ∧ segments q.1 = path := by
  obtain ⟨hmem, hsegments⟩ := List.mem_filter.1 (List.mem_of_getLast? h)
  exact ⟨hmem, by simpa using hsegments⟩

/-- Where segments are those of one alias only, this is the last one. -/
theorem lastAlias_eq_of_nodup {l : List (String × Path)} (hl : (l.map fun q => segments q.1).Nodup)
    {q : String × Path} (hq : q ∈ l) : lastAlias (segments q.1) l = some q := by
  obtain ⟨r, hr⟩ : ∃ r, lastAlias (segments q.1) l = some r := by
    refine Option.ne_none_iff_exists'.1 fun hnone => ?_
    exact lastAlias_eq_none_iff.1 hnone (List.mem_map_of_mem hq)
  obtain ⟨hmem, hsegments⟩ := mem_of_lastAlias hr
  rw [hr, List.inj_on_of_nodup_map hl hmem hq hsegments]

/-- A list without repetitions is as long as one with the same members exactly if that has none
either. -/
theorem length_eq_iff_nodup {α : Type} {l m : List α} (hl : l.Nodup) (h : ∀ a, a ∈ l ↔ a ∈ m) :
    l.length = m.length ↔ m.Nodup := by
  constructor
  · intro hlength
    have hperm := (List.subperm_of_subset hl fun a ha => (h a).1 ha).perm_of_length_le hlength.ge
    exact hperm.nodup hl
  · intro hm
    exact ((List.perm_ext_iff_of_nodup hl hm).2 h).length_eq

namespace Catalog

/-- The calls that mount the trees of aliases, in order. -/
def aliasCalls (c : Catalog) (l : List (String × Path)) : List Call :=
  l.filterMap fun q => (c.location q.2).map (.attach q.1)

variable {c : Catalog} {l : List (String × Path)}

/-- **Mounting aliases that have trees never fails.** -/
theorem mapAliases_eq_run : ∀ {l : List (String × Path)},
    (∀ q ∈ l, segments q.1 ≠ [] ∧ (c.location q.2).isSome = true) →
      ∀ (strict : Bool) (calls : List Call),
      c.mapAliases strict (run calls) l = (none, run (calls ++ c.aliasCalls l)) := by
  intro l
  induction l with
  | nil =>
    intro _ strict calls
    rw [mapAliases_nil, aliasCalls, List.filterMap_nil, List.append_nil]
  | cons q l ih =>
    intro hl strict calls
    obtain ⟨name, p⟩ := q
    obtain ⟨hname, hp⟩ := hl _ List.mem_cons_self
    obtain ⟨t, ht⟩ := Option.isSome_iff_exists.1 hp
    have hattach : (run calls).attach name t = .ok (run (calls ++ [.attach name t])) := by
      rw [Namespace.run_concat, Namespace.perform, Namespace.attach, if_neg (by simpa using hname)]
    have hcalls : c.aliasCalls ((name, p) :: l) = .attach name t :: c.aliasCalls l := by
      rw [aliasCalls, List.filterMap_cons_some (by rw [ht]; rfl), aliasCalls]
    simp only [mapAliases, ht, hattach]
    rw [ih (fun r hr => hl r (List.mem_cons_of_mem _ hr)), hcalls, List.append_assoc,
      List.singleton_append]

/-- **The last alias decides what is mounted.** -/
theorem mounted_aliasCalls (hl : ∀ q ∈ l, segments q.1 ≠ [] ∧ (c.location q.2).isSome = true)
    (path : List String) :
    mounted (c.aliasCalls l) path = (lastAlias path l).bind fun q => c.location q.2 := by
  induction l using List.reverseRecOn with
  | nil => rfl
  | append_singleton l q ih =>
    obtain ⟨hname, hp⟩ := hl q (by simp)
    obtain ⟨t, ht⟩ := Option.isSome_iff_exists.1 hp
    have hcalls : c.aliasCalls (l ++ [q]) = c.aliasCalls l ++ [.attach q.1 t] := by
      rw [aliasCalls, List.filterMap_append, List.filterMap_cons_some (by rw [ht]; rfl),
        List.filterMap_nil, aliasCalls]
    rw [hcalls, Namespace.mounted_concat, Call.mounting, if_neg hname, Function.update_apply,
      lastAlias_concat, ih fun r hr => hl r (List.mem_append_left _ hr)]
    by_cases hpath : path = segments q.1
    · rw [if_pos hpath, if_pos hpath.symm, Option.bind_some, ht]
    · rw [if_neg hpath, if_neg (Ne.symm hpath)]

end Catalog

namespace Namespace

/-- An alias leads to the root of a mounted tree. -/
structure ShowsRoot (ns : Namespace) (name : String) (t : Tree) : Prop where
  /-- The alias is found, with the root of the tree, which has a row. -/
  root : ∃ v n, ns.resolve name = .ok (some v) ∧ v.place = some ⟨t, Tree.root⟩ ∧
    v.node? = .ok (some n)
  /-- The tree is listed with the segments of the alias. -/
  mounted : (segments name, t) ∈ ns.bindings

theorem Holds.showsRoot {ns : Namespace} {m : AliasMap} (hns : ns.Holds m)
    (hm : ∀ top t, m top = some t → t.Linked) {name : String} {t : Tree}
    (ht : m (segments name) = some t) : ns.ShowsRoot name t := by
  refine ⟨?_, hns.mem_bindings_iff.2 ht⟩
  obtain ⟨found, hfound, hlocates, -⟩ := (hns.projects hm).resolve name
  have hplace := hlocates.governed (AliasMap.governs_self ht) (List.append_nil _).symm
  rw [Tree.descend?_nil, Option.map_some] at hplace
  obtain ⟨v, rfl, hv⟩ := Option.bind_eq_some_iff.1 hplace
  obtain ⟨n, hn, -⟩ := (hm _ _ ht).root
  refine ⟨v, n, hfound, hv, ?_⟩
  simp only [View.node?, hv, Place.node, Tree.node, hn]
  rfl

end Namespace

/-! ### Catalogs after opening -/

namespace Catalog

variable {s : Settings} {o : BuildOptions} {reader : SourceReader} {d d' : Disk} {c : Catalog}

theorem exists_openWith_of_isOk (h : (openWith s o d reader).1.isOk = true) :
    ∃ c d', openWith s o d reader = (.ok c, d') := by
  generalize openWith s o d reader = r at h
  obtain ⟨result, d'⟩ := r
  cases result with
  | ok c => exact ⟨c, d', rfl⟩
  | error f => cases h

/-- A catalog that is opened has a tree for every location of its settings. -/
theorem isSome_location_of_openWith (hopen : openWith s o d reader = (.ok c, d')) {p : Path}
    (hp : p ∈ s.locations.toList) (hnormal : p.normal = p) : (c.location p).isSome = true := by
  obtain ⟨c₀, e, report, hfound, hbuild⟩ := exists_build_of_openWith hopen
  have hsettings : c₀.settings = s := by
    rcases hfound with rfl | ⟨found, hload⟩
    · rfl
    · rcases loadSnapshot_cases hload with rfl | ⟨-, -, -, -, -, rfl⟩
      · rfl
      · rfl
  have hok : (c₀.build o e reader).1.isOk = true := by rw [hbuild]; rfl
  have hlocation := isSome_location_of_configured hok (hsettings ▸ hp) hnormal
  rwa [hbuild] at hlocation

/-- Its trees pass their checks: those of a record have been checked, and the others come from
scans. -/
theorem isIntact_of_openWith (hopen : openWith s o d reader = (.ok c, d')) : ∀ t ∈ c.trees.values,
    t.isIntact = true := by
  obtain ⟨c₀, e, report, hfound, hbuild⟩ := exists_build_of_openWith hopen
  have hbefore : ∀ t ∈ c₀.trees.values, t.isIntact = true := by
    rcases hfound with rfl | ⟨found, hload⟩
    · intro t ht
      cases ht
    · rcases loadSnapshot_cases hload with rfl | ⟨p, r, -, husable, -, rfl⟩
      · intro t ht
        cases ht
      · obtain ⟨-, -, -, husable⟩ := Snapshot.usable?_cases husable
        exact (Snapshot.isIntact_of_isUsable husable).2
  have hcatalog : c = c₀.publishAll (c₀.scans o e reader) := by rw [← catalog_build, hbuild]
  rw [hcatalog]
  intro t ht
  rcases mem_values_publishAll_cases ht with ⟨r, hr, htree⟩ | ht
  · obtain ⟨p, -, -, rfl⟩ := mem_scans_iff.1 hr
    obtain ⟨stats, hscan⟩ := tree?_scanTarget_eq_some_iff.1 htree
    exact Tree.isIntact_of_scan hscan
  · exact hbefore t ht

end Catalog

/-! ### Configurations -/

/-- A set of paths in normal form has each of them as it is spelt. -/
theorem SortedSet.mem_ofList_of_normal {l : List Path} (hl : ∀ r ∈ l, r.normal = r) {p : Path}
    (hp : p ∈ l) : p ∈ (SortedSet.ofList l).toList := by
  obtain ⟨r, hr, he⟩ := SortedSet.exists_mem_foldl_insert hp ∅
  rwa [Path.eq_of_compare_eq (hl p hp) (hl r (SortedSet.mem_of_mem_ofList hr)) he]

namespace Config

variable {c c' : Config} {userCache : Option Path} {s : Settings}

/-- A valid configuration has aliases with segments only. -/
theorem segments_ne_nil_of_validate (h : c.validate = .ok c') : ∀ q ∈ c'.aliases.toList,
    segments q.1 ≠ [] := by
  obtain ⟨hproblem, extensions, -, rfl⟩ := validate_cases h
  intro q hq hsegments
  obtain ⟨r, hr, rfl⟩ := List.mem_map.1 hq
  have hnone := hproblem r hr
  rw [aliasProblem, if_pos hsegments] at hnone
  cases hnone

/-- The locations of the settings are those of the aliases. -/
theorem mem_locations_of_settings (h : c.settings userCache = .ok s) : ∀ q ∈ c.aliases.toList,
    q.2.normal = q.2 ∧ q.2 ∈ s.locations.toList := by
  have hnormal : ∀ p ∈ c.aliases.values, p.normal = p := by
    intro p hp
    obtain ⟨q, hq, rfl⟩ := List.mem_map.1 hp
    exact normal_of_mem_aliases q hq
  obtain ⟨hlocations, -, -⟩ := settings_cases h
  intro q hq
  have hvalue : q.2 ∈ c.aliases.values := List.mem_map_of_mem hq
  have hq := hnormal q.2 hvalue
  refine ⟨hq, ?_⟩
  rw [hlocations]
  apply SortedSet.mem_ofList_of_normal
  · intro r hr
    obtain ⟨r', -, rfl⟩ := List.mem_map.1 hr
    exact r'.normal_normal
  · exact List.mem_map.2 ⟨q.2, SortedSet.mem_ofList_of_normal hnormal hvalue, hq⟩

section

variable (hvalid : c.validate = .ok c') (hsettings : c'.settings userCache = .ok s)
  {o : BuildOptions} {reader : SourceReader} {d d' : Disk} {cat : Catalog}
  (hopen : Catalog.openWith s o d reader = (.ok cat, d'))

include hvalid hsettings hopen

/-- What comes of a valid configuration: its aliases are mounted, once for all that have the same
segments, and each leads to the root of the tree of the last one of these. -/
theorem exists_view_of_openWith : ∃ ns, cat.mapAliases true ∅ c'.aliases.toList = (none, ns) ∧
    (∀ path, path ∈ ns.bindings.map Prod.fst ↔ path ∈ c'.aliases.toList.map fun q => segments q.1) ∧
      (ns.bindings.map Prod.fst).Nodup ∧
        ∀ name ∈ c'.aliases.keys, ∃ q t, lastAlias (segments name) c'.aliases.toList = some q ∧
          cat.location q.2 = some t ∧ ns.ShowsRoot name t := by
  have hl : ∀ q ∈ c'.aliases.toList, segments q.1 ≠ [] ∧ (cat.location q.2).isSome = true := by
    intro q hq
    obtain ⟨hnormal, hmem⟩ := mem_locations_of_settings hsettings q hq
    exact ⟨segments_ne_nil_of_validate hvalid q hq,
      Catalog.isSome_location_of_openWith hopen hmem hnormal⟩
  have hholds : (run (cat.aliasCalls c'.aliases.toList)).Holds
      (fun path => (lastAlias path c'.aliases.toList).bind fun q => cat.location q.2) := by
    rw [← funext (Catalog.mounted_aliasCalls hl)]
    exact Namespace.holds_run _
  have hlast : ∀ {path}, path ∈ c'.aliases.toList.map (fun q => segments q.1) →
      ∃ q t, lastAlias path c'.aliases.toList = some q ∧ cat.location q.2 = some t := by
    intro path hpath
    obtain ⟨q, hq⟩ := Option.ne_none_iff_exists'.1 fun hnone => lastAlias_eq_none_iff.1 hnone hpath
    obtain ⟨t, ht⟩ := Option.isSome_iff_exists.1 (hl q (mem_of_lastAlias hq).1).2
    exact ⟨q, t, hq, ht⟩
  have hlinked : ∀ path t,
      ((lastAlias path c'.aliases.toList).bind fun q => cat.location q.2) = some t →
      t.Linked := by
    intro path t ht
    obtain ⟨q, -, ht⟩ := Option.bind_eq_some_iff.1 ht
    obtain ⟨r, hr, -⟩ := Ordered.exists_mem_of_lookup ht
    exact Tree.linked_of_isIntact (Catalog.isIntact_of_openWith hopen t (List.mem_map_of_mem hr))
  obtain ⟨hnodup, haliases⟩ := hholds.aliases
  refine ⟨_, Catalog.mapAliases_eq_run hl true [], fun path => (haliases path).trans ?_, hnodup, ?_⟩
  · constructor
    · intro hpath
      by_contra hnot
      exact hpath (by rw [lastAlias_eq_none_iff.2 hnot]; rfl)
    · intro hpath
      obtain ⟨q, t, hq, ht⟩ := hlast hpath
      simp [hq, ht]
  · intro name hname
    obtain ⟨r, hr, rfl⟩ := List.mem_map.1 hname
    obtain ⟨q, t, hq, ht⟩ := hlast (List.mem_map_of_mem hr)
    exact ⟨q, t, hq, ht, hholds.showsRoot hlinked (by rw [hq, Option.bind_some, ht])⟩

/-- **Every alias of a valid configuration leads to the root of a tree**: whatever was recorded
before and whatever the build is asked for, mounting the aliases does not fail once the catalog
could be opened. -/
theorem showsRoot_of_openWith : ∃ ns, cat.mapAliases true ∅ c'.aliases.toList = (none, ns) ∧
    ∀ name ∈ c'.paths.keys, ∃ t, ns.ShowsRoot name t := by
  obtain ⟨ns, hmap, -, -, hroots⟩ := exists_view_of_openWith hvalid hsettings hopen
  refine ⟨ns, hmap, fun name hname => ?_⟩
  obtain ⟨-, t, -, -, hroot⟩ := hroots name (by rwa [keys_aliases])
  exact ⟨t, hroot⟩

end

/-- A disk with two locations of one file each and a file for the record. -/
def twoLocations (record : String) : Disk where
  root := .dir [("cache", .dir [("depmap.json", .file record.toUTF8 1)]),
    ("one", .dir [("a.js", .file "define([]);".toUTF8 1)]),
    ("two", .dir [("b.js", .file "define([]);".toUTF8 1)])]

/-- A configuration with these locations under the given aliases. -/
def twoAliases (first second : String) : Config where
  cacheDir := some ⟨"cache"⟩
  paths := .ofList [(first, ⟨"./one/"⟩), (second, ⟨"two"⟩)]
  origin := some ⟨"/"⟩

/-- Its settings. -/
def twoSettings (first second : String) : Settings :=
  { Settings.ofLocations (twoAliases first second).locations.toList
    (twoAliases first second).signature with snapshot := some ⟨"/cache/depmap.json"⟩ }

/-- One alias lies below the other one, and the file of the record is damaged. -/
theorem showsRoot_nestedAliases : ∃ cat d' ns,
    Catalog.openWith (twoSettings "app" "app/own") {} (twoLocations "[") = (.ok cat, d') ∧
      cat.mapAliases true ∅ (twoAliases "app" "app/own").aliases.toList = (none, ns) ∧
        ∀ name ∈ ["app", "app/own"], ∃ t, ns.ShowsRoot name t := by
  have hvalid : (twoAliases "app" "app/own").validate = .ok (twoAliases "app" "app/own") := by
    decide +kernel
  have hsettings : (twoAliases "app" "app/own").settings none =
      .ok (twoSettings "app" "app/own") := by
    with_unfolding_all rfl
  obtain ⟨cat, d', hopen⟩ := Catalog.exists_openWith_of_isOk
    (show (Catalog.openWith (twoSettings "app" "app/own") {} (twoLocations "[")).1.isOk = true by
      decide +kernel)
  obtain ⟨ns, hmap, hroots⟩ := showsRoot_of_openWith hvalid hsettings hopen
  have hnames : (twoAliases "app" "app/own").paths.keys = ["app", "app/own"] := by decide +kernel
  exact ⟨cat, d', ns, hopen, hmap, hnames ▸ hroots⟩

section

variable (hvalid : c.validate = .ok c') (hsettings : c'.settings userCache = .ok s)
  {o : BuildOptions} {reader : SourceReader} {d d' : Disk} {cat : Catalog}
  (hopen : Catalog.openWith s o d reader = (.ok cat, d'))

include hvalid hsettings hopen

/-- **No alias hides another one exactly if no two have the same segments.**  An alias leads to the
root of the tree of the last alias that has its segments.  So if no two have the same segments, each
leads to the tree of its own location, and otherwise there are fewer of them in the name space than
in the configuration. -/
theorem showsOwn_iff_nodup : ∃ ns, cat.mapAliases true ∅ c'.aliases.toList = (none, ns) ∧
    (∀ name ∈ c'.paths.keys, ∃ q t, lastAlias (segments name) c'.aliases.toList = some q ∧
      cat.location q.2 = some t ∧ ns.ShowsRoot name t) ∧
    ((∀ q ∈ c'.aliases.toList, ∃ t, cat.location q.2 = some t ∧ ns.ShowsRoot q.1 t) ∧
        ns.aliases.length = c'.paths.size ↔ (c'.paths.keys.map segments).Nodup) := by
  obtain ⟨ns, hmap, hmem, hnodup, hroots⟩ := exists_view_of_openWith hvalid hsettings hopen
  have hsegments : c'.paths.keys.map segments = c'.aliases.toList.map fun q => segments q.1 := by
    rw [← keys_aliases, SortedMap.keys, List.map_map]
    rfl
  have hcount : ns.aliases.length = c'.paths.size ↔ (c'.paths.keys.map segments).Nodup := by
    have hlength := length_eq_iff_nodup hnodup (hsegments ▸ hmem)
    rw [List.length_map, List.length_map] at hlength
    rw [← hlength, Namespace.aliases, List.length_map, SortedMap.size, SortedMap.keys,
      List.length_map]
  rw [keys_aliases] at hroots
  refine ⟨ns, hmap, hroots, fun h => hcount.1 h.2, fun h => ⟨fun q hq => ?_, hcount.2 h⟩⟩
  have hname : q.1 ∈ c'.paths.keys := by
    rw [← keys_aliases]
    exact List.mem_map_of_mem hq
  obtain ⟨r, t, hr, ht, hroot⟩ := hroots q.1 hname
  -- there is no other alias that could come last
  rw [lastAlias_eq_of_nodup (hsegments ▸ h) hq] at hr
  obtain rfl := Option.some.inj hr
  exact ⟨t, ht, hroot⟩

end

/-- Two aliases with different segments, one of which has a slash at its end. -/
theorem showsOwn_slashedAlias : ∃ cat d' ns,
    Catalog.openWith (twoSettings "app" "lib/") {} (twoLocations "") = (.ok cat, d') ∧
      cat.mapAliases true ∅ (twoAliases "app" "lib/").aliases.toList = (none, ns) ∧
        (∀ q ∈ (twoAliases "app" "lib/").aliases.toList,
          ∃ t, cat.location q.2 = some t ∧ ns.ShowsRoot q.1 t) ∧ ns.aliases.length = 2 := by
  have hvalid : (twoAliases "app" "lib/").validate = .ok (twoAliases "app" "lib/") := by
    decide +kernel
  have hsettings : (twoAliases "app" "lib/").settings none = .ok (twoSettings "app" "lib/") := by
    with_unfolding_all rfl
  obtain ⟨cat, d', hopen⟩ := Catalog.exists_openWith_of_isOk
    (show (Catalog.openWith (twoSettings "app" "lib/") {} (twoLocations "")).1.isOk = true by
      decide +kernel)
  obtain ⟨ns, hmap, -, hown⟩ := showsOwn_iff_nodup hvalid hsettings hopen
  obtain ⟨hroots, hcount⟩ := hown.2 (by decide +kernel)
  exact ⟨cat, d', ns, hopen, hmap, hroots, hcount⟩

/-- **An alias with a slash at its end hides the alias without it**, and the configuration is
valid. -/
theorem not_showsOwn_of_slash :
    ¬ ∀ (c c' : Config) (userCache : Option Path) (s : Settings) (o : BuildOptions)
      (d d' : Disk) (cat : Catalog) (ns : Namespace),
      c.validate = .ok c' → c'.settings userCache = .ok s →
        Catalog.openWith s o d = (.ok cat, d') →
          cat.mapAliases true ∅ c'.aliases.toList = (none, ns) →
          (∀ q ∈ c'.aliases.toList, ∃ t, cat.location q.2 = some t ∧ ns.ShowsRoot q.1 t) ∧
            ns.aliases.length = c'.paths.size := by
  intro h
  have hmap :
      (Catalog.openWith (twoSettings "lib" "lib/") {} (twoLocations "")).1.toOption.map (fun cat =>
        ((cat.mapAliases true ∅ (twoAliases "lib" "lib/").aliases.toList).1,
          (cat.mapAliases true ∅ (twoAliases "lib" "lib/").aliases.toList).2.aliases)) =
        some (none, ["lib"]) := by
    decide +kernel
  obtain ⟨cat, d', hopen⟩ := Catalog.exists_openWith_of_isOk
    (show (Catalog.openWith (twoSettings "lib" "lib/") {} (twoLocations "")).1.isOk = true by
      decide +kernel)
  rw [hopen] at hmap
  obtain ⟨hnone, haliases⟩ := Prod.mk.inj (Option.some.inj hmap)
  obtain ⟨-, hcount⟩ :=
    h (twoAliases "lib" "lib/") (twoAliases "lib" "lib/") none (twoSettings "lib" "lib/") {}
      (twoLocations "") d' cat _ (by decide +kernel) (by with_unfolding_all rfl) hopen
      (Prod.ext hnone rfl)
  rw [haliases] at hcount
  exact absurd hcount (by decide +kernel)

end Config

end ModuleAtlas
