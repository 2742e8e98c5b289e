import ModuleAtlas.Proofs.BuildOutcome
import ModuleAtlas.Proofs.FreshScan

/-!
# Times of dependencies

A module has two times: that of its source file, and that of its dependencies.  The second one is
the time that the file had when its lists were last seen to change.  A scan takes it over from an
earlier tree if that has the same lists at the same place, no matter whether the file is read again,
and otherwise starts anew with the time of the file.  So along a chain of scans, each against the
tree of the one before, the time stays for as long as the file is there and its lists are the same,
while the time of the file itself may move in either direction.

## Main definitions

* `Node.timeOf`, `recordedTime` — the time that a node, or an earlier tree at a place, has for given
  lists.
* `Validations` — scans one after the other, each against the tree of the one before.

## Main results

* `depsModified_derive` — where the time of dependencies comes from, for one file.
* `depsModified_of_scan` — where it comes from, for every module of a tree.
* `Validations.depsModified_eq` — along a chain it stays while the lists stay.
* `depsModified_is_last_change` — **the time of the dependencies is that of their last change.**
-/

namespace ModuleAtlas

variable {previous : Option Tree} {extensions : List String} {reader : SourceReader} {d : Disk}
  {p : Path} {t u : Tree} {stats : ScanStats} {place : List String} {n : Node}

/-! ### One scan -/

/-- The time of the dependencies of a node, if these are the given ones. -/
def Node.timeOf (n : Node) (deps : Deps) : Option Millis :=
  if n.deps = deps then n.depsModified else none

@[simp] theorem Node.timeOf_deps (n : Node) : n.timeOf n.deps = n.depsModified := if_pos rfl

/-- The time that an earlier tree has recorded for the given lists at a place, if it has a file with
these lists there. -/
def recordedTime (previous : Option Tree) (place : List String) (deps : Deps) : Option Millis :=
  (previous.bind fun u => u.fileAt place).bind fun m => m.timeOf deps

/-- Both for a file that is kept and for one that is read, an earlier time of the same lists is
taken over. -/
theorem depsModified_derive (known : Option Node) (bytes : ByteArray) (modified : Millis)
    (reader : SourceReader) :
    some (derive known bytes modified reader).depsModified =
      (known.bind fun m => m.timeOf (derive known bytes modified reader).deps).or
        (some modified) := by
  cases known with
  | none => rfl
  | some m =>
    rw [derive, Option.bind_some, Node.timeOf]
    by_cases hkept : m.modified = some modified
    · simp [hkept]
    · by_cases hdeps : m.deps = (declaredBy bytes reader).getD {} <;> simp [hkept, hdeps]

/-- What a scan records about a module: the data of the last source file at its place, given what an
earlier tree has at the same place. -/
theorem exists_source_of_fileAt (hd : d.root.wellNamed = true)
    (hprevious : ∀ u ∈ previous, u.Linked)
    (hscan : d.scan p previous extensions reader = .ok (t, stats)) (hn : t.fileAt place = some n) :
    ∃ f bytes modified, lastSource extensions place (d.walk p) = some f ∧
      f.content? = some (bytes, modified) ∧
      let data := derive (previous.bind fun u => u.fileAt place) bytes modified reader
      n.deps = data.deps ∧ n.modified = some modified ∧
        n.depsModified = some data.depsModified := by
  have hrecord := (Disk.record_fileAt_scan hscan).2 place
  rw [hn] at hrecord
  obtain ⟨f, hlast, hentry⟩ := Option.bind_eq_some_iff.1 hrecord.symm
  obtain ⟨⟨bytes, modified⟩, hcontent, hnode⟩ := Option.map_eq_some_iff.1 hentry
  -- the earlier tree is asked for the file at the place
  obtain ⟨hmem, hplace⟩ := mem_of_lastSource hlast
  rw [cached_of_sourcePlace? hprevious hd hmem hplace] at hnode
  exact ⟨f, bytes, modified, hlast, hcontent, (congrArg (·.1) hnode).symm,
    (congrArg (·.2.1) hnode).symm, (congrArg (·.2.2) hnode).symm⟩

/-- The time of the dependencies is that recorded for the same lists, or else that of the file. -/
theorem depsModified_of_scan (hd : d.root.wellNamed = true) (hprevious : ∀ u ∈ previous, u.Linked)
    (hscan : d.scan p previous extensions reader = .ok (t, stats)) (hn : t.fileAt place = some n) :
    n.depsModified = (recordedTime previous place n.deps).or n.modified := by
  obtain ⟨f, bytes, modified, -, -, hdeps, hmodified, htime⟩ :=
    exists_source_of_fileAt hd hprevious hscan hn
  rw [htime, depsModified_derive, recordedTime, hdeps, hmodified]

/-! ### Chains of scans -/

/-- The trees of further scans of a location, each against the tree of the scan before, in order.
Anything may happen to the disk in between, and neither the extensions nor the reader need stay. -/
inductive Validations (p : Path) : Tree → List Tree → Prop
  /-- No further scan. -/
  | done {t : Tree} : Validations p t []
  /-- One more scan, and those after it. -/
  | scan {t u : Tree} {later : List Tree} {d : Disk} {extensions : List String}
      {reader : SourceReader}
    {stats : ScanStats} (named : d.root.wellNamed = true)
    (scanned : d.scan p (some t) extensions reader = .ok (u, stats))
      (rest : Validations p u later) :
    Validations p t (u :: later)

/-- A scan keeps the time of lists that stay. -/
theorem depsModified_eq_of_scan (hd : d.root.wellNamed = true) (ht : t.Linked)
    (hscan : d.scan p (some t) extensions reader = .ok (u, stats)) {time : Millis}
    (hn : t.fileAt place = some n) (htime : n.depsModified = some time) {m : Node}
    (hm : u.fileAt place = some m) (hdeps : m.deps = n.deps) : m.depsModified = some time := by
  have hrecorded : recordedTime (some t) place m.deps = some time := by
    rw [recordedTime, Option.bind_some, hn, Option.bind_some, hdeps, Node.timeOf_deps, htime]
  rw [depsModified_of_scan hd (by simpa using ht) hscan hm, hrecorded, Option.some_or]

/-- Along a chain the time of the dependencies stays for as long as the file is there and its lists
stay. -/
theorem Validations.depsModified_eq {later : List Tree} (h : Validations p t later) (ht : t.Linked)
    {time : Millis} (hn : t.fileAt place = some n) (htime : n.depsModified = some time)
    (hdeps : ∀ u ∈ later, (u.fileAt place).map Node.deps = some n.deps) :
    ∀ u ∈ later, (u.fileAt place).bind Node.depsModified = some time := by
  induction h generalizing n with
  | done => simp
  | @scan t u later d extensions reader stats named scanned rest ih =>
    obtain ⟨hfirst, hlater⟩ := List.forall_mem_cons.1 hdeps
    obtain ⟨m, hm, hsame⟩ := Option.map_eq_some_iff.1 hfirst
    have hkept := depsModified_eq_of_scan named ht scanned hn htime hm hsame
    refine List.forall_mem_cons.2 ⟨by rw [hm]; exact hkept, ?_⟩
    exact ih (Disk.record_fileAt_scan scanned).1 hm hkept (by rwa [hsame])

/-- **The time of the dependencies is that of their last change.**  In the tree of a scan every
module has the time that the earlier tree had for the same lists at the same place, and without such
a time that of its file.  Whatever happens afterwards, further scans keep it for as long as they
find the module with these lists. -/
theorem depsModified_is_last_change (hd : d.root.wellNamed = true)
    (hprevious : ∀ u ∈ previous, u.isIntact = true)
    (hscan : d.scan p previous extensions reader = .ok (t, stats)) :
    (∀ i n, t.node? i = some n → n.isFile = true → ∃ place, t.pathTo? i = some place ∧
      t.fileAt place = some n ∧
        n.depsModified = (recordedTime previous place n.deps).or n.modified) ∧
      ∀ later, Validations p t later → ∀ place n, t.fileAt place = some n →
        (∀ u ∈ later, (u.fileAt place).map Node.deps = some n.deps) →
          ∀ u ∈ later, (u.fileAt place).bind Node.depsModified = n.depsModified := by
  have hlinked : ∀ u ∈ previous, u.Linked := fun u hu => Tree.linked_of_isIntact (hprevious u hu)
  have ht : t.Orderly := orderly_scanItems (Tree.orderly_new _) hscan
  constructor
  · intro i n hi hfile
    have hlt : i < t.size := (Array.getElem?_eq_some_iff.1 hi).1
    obtain ⟨place, hplace⟩ := ht.exists_pathTo? hlt
    have hn : t.fileAt place = some n := by
      rw [Tree.fileAt_of_descend? (ht.pathTo?_eq_some_iff.1 hplace), hi,
        Option.filter_some, if_pos hfile]
    exact ⟨place, hplace, hn, depsModified_of_scan hd hlinked hscan hn⟩
  · intro later hlater place n hn hdeps
    -- the tree of a scan has a time to keep
    obtain ⟨f, bytes, modified, -, -, -, -, htime⟩ := exists_source_of_fileAt hd hlinked hscan hn
    rw [htime]
    exact hlater.depsModified_eq ht.linked hn htime hdeps

/-- A disk with a location that holds one source file of the given time. -/
def datedSource (modified : Millis) : Disk where
  root := .dir [("lib", .dir [("a.js", .file "define([\"./x\"], f);".toUTF8 modified)])]

/-- A tree that has the file with the given time, and its lists since the time 5. -/
def datedModule (modified : Millis) : Tree :=
  ⟨#[{ name := "lib", children := .ofList [("a", 1)] },
    { name := "a", parent := some 0, deps := { define := ["./x"] }, modified := some modified,
      depsModified := some 5 }]⟩

/-- The time of a file moves forwards and then far back, but the lists are those of the time 5. -/
theorem depsModified_of_dated :
    let before := datedModule 5
    let after := datedModule 7
    let last := datedModule 2
    (datedSource 7).root.wellNamed = true ∧ (∀ u ∈ some before, u.isIntact = true) ∧
      (datedSource 7).scan ⟨"/lib"⟩ (some before) ["js"] =
          .ok (after, { files := 1, parsed := 1 }) ∧
        (∃ place, after.pathTo? 1 = some place ∧
          after.nodes[1].depsModified =
            (recordedTime (some before) place after.nodes[1].deps).or (some 7)) ∧
          Validations ⟨"/lib"⟩ after [last] ∧
            (last.fileAt ["a"]).bind Node.depsModified = some 5 := by
  intro before after last
  have hnamed : (datedSource 7).root.wellNamed = true := by with_unfolding_all decide
  have hintact : ∀ u ∈ some before, u.isIntact = true := by
    intro u hu
    obtain rfl := Option.some.inj hu
    with_unfolding_all decide
  have hscan : (datedSource 7).scan ⟨"/lib"⟩ (some before) ["js"] =
      .ok (after, { files := 1, parsed := 1 }) := by
    with_unfolding_all rfl
  have hchain : Validations ⟨"/lib"⟩ after [last] := by
    have hagain : (datedSource 2).scan ⟨"/lib"⟩ (some after) ["js"] =
        .ok (last, { files := 1, parsed := 1 }) := by
      with_unfolding_all rfl
    exact .scan (by with_unfolding_all decide) hagain .done
  obtain ⟨hmodules, hkept⟩ := depsModified_is_last_change hnamed hintact hscan
  obtain ⟨place, hplace, -, htime⟩ := hmodules 1 after.nodes[1] rfl rfl
  have hlast := hkept [last] hchain ["a"] after.nodes[1] (by with_unfolding_all decide)
    (by with_unfolding_all decide) last (by simp)
  exact ⟨hnamed, hintact, hscan, ⟨place, hplace, htime⟩, hchain, hlast⟩

end ModuleAtlas
