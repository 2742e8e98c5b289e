import ModuleAtlas.Proofs.ScanRecords
import ModuleAtlas.Proofs.SegmentLaws
import ModuleAtlas.Proofs.TreeImages

/-!
# Scans against an earlier tree

A scan that may use an earlier tree gives, apart from the times of dependencies, the tree of a scan
that may not, provided the earlier tree is right about every file that it is asked about.  What a
scan records comes from some file of the walk, so whether an earlier tree is right is decided by
what files there were when it was scanned.

## Main definitions

* `Tree.withoutDepTimes`, `Tree.Alike` — trees apart from the times of dependencies.
* `Truthful` — an earlier tree is right about the files of a walk.
* `Recorded` — all that a tree records comes from files of a walk.

## Main results

* `scanItem_alike`, `scanItems_alike` — **truthful earlier trees do not show**, for an item and for
  a walk.
* `recorded_scan` — what a scan without an earlier tree records comes from files of its walk.
* `cached_eq_fileAt`, `cached_of_sourcePlace?` — an earlier tree is asked for the file at a path.
-/

namespace ModuleAtlas

/-! ### Trees without the times of dependencies -/

/-- The node without the time of its dependencies. -/
def Node.withoutDepTime (n : Node) : Node := { n with depsModified := none }

theorem Node.isFile_withoutDepTime (n : Node) : n.withoutDepTime.isFile = n.isFile := rfl

theorem Node.keepsLinks_withoutDepTime : Node.KeepsLinks Node.withoutDepTime where
  name := fun _ => rfl
  children := fun _ => rfl
  link := fun _ _ => rfl
  fresh := fun _ _ => rfl

namespace Tree

/-- The tree without the times of dependencies. -/
def withoutDepTimes (t : Tree) : Tree := ⟨t.nodes.map Node.withoutDepTime⟩

theorem withoutDepTimes_eq (t : Tree) : t.withoutDepTimes = t.mapNodes Node.withoutDepTime := rfl

/-- Two trees agree apart from the times of dependencies. -/
def Alike (t u : Tree) : Prop := t.withoutDepTimes = u.withoutDepTimes

instance (t u : Tree) : Decidable (t.Alike u) := inferInstanceAs (Decidable (_ = _))

theorem Alike.refl (t : Tree) : t.Alike t := rfl

/-- Alike trees stay alike when a path is ensured. -/
theorem Alike.exists_ensurePath {t u : Tree} (h : t.Alike u) {i j : Nat} {path : List String}
    {t' : Tree} (ht : t.ensurePath i path = .ok (t', j)) : ∃ u', u.ensurePath i path = .ok (u', j) ∧
      t'.Alike u' :=
  exists_ensurePath_of_mapNodes_eq Node.keepsLinks_withoutDepTime h ht

/-- They stay alike when the same dependencies are recorded at the same time. -/
theorem Alike.exists_setDeps {t u : Tree} (h : t.Alike u) {i : Nat} {deps : Deps}
    {modified a b : Millis} {t' : Tree} (ht : t.setDeps i deps modified a = .ok t') :
    ∃ u', u.setDeps i deps modified b = .ok u' ∧ t'.Alike u' := by
  refine exists_setDeps_of_mapNodes_eq h (fun m n hmn => ?_) ht
  obtain ⟨hname, hparent, hchildren, -, -, -⟩ := Node.mk.inj hmn
  simp only [Node.recording, Node.withoutDepTime, hname, hparent, hchildren]

theorem fileAt_withoutDepTimes (t : Tree) (path : List String) :
    t.withoutDepTimes.fileAt path = (t.fileAt path).map Node.withoutDepTime := by
  rw [withoutDepTimes_eq, fileAt, descend?_mapNodes Node.keepsLinks_withoutDepTime, fileAt]
  cases t.descend? root path with
  | none => rfl
  | some i =>
    rw [Option.bind_some, Option.bind_some, node?_mapNodes]
    cases t.node? i with
    | none => rfl
    | some n =>
      rw [Option.map_some, Option.filter_some, Option.filter_some, Node.isFile_withoutDepTime]
      split <;> rfl

/-- Alike trees record the same dependencies and times of files. -/
theorem Alike.exists_fileAt {t u : Tree} (h : t.Alike u) {path : List String} {n : Node}
    (hn : t.fileAt path = some n) : ∃ m, u.fileAt path = some m ∧ m.deps = n.deps ∧
      m.modified = n.modified := by
  have hfile := fileAt_withoutDepTimes u path
  rw [← show t.withoutDepTimes = u.withoutDepTimes from h, fileAt_withoutDepTimes, hn] at hfile
  cases hm : u.fileAt path with
  | none => rw [hm] at hfile; simp at hfile
  | some m =>
    rw [hm] at hfile
    obtain ⟨-, -, -, hdeps, hmodified, -⟩ := Node.mk.inj (Option.some.inj hfile)
    exact ⟨m, rfl, hdeps.symm, hmodified.symm⟩

end Tree

/-! ### What an earlier tree is asked for -/

theorem Tree.get?_joinSegments (t : Tree) {place : List String}
    (hplace : ∀ s ∈ place, ProperSegment s) :
    t.get? root (joinSegments place) = t.descend? root place := by
      rw [get?, segments_joinSegments hplace]

/-- An earlier tree is asked for the file at a path. -/
theorem cached_eq_fileAt {t : Tree} {place : List String} (hplace : ∀ s ∈ place, ProperSegment s)
    {known : Option Node} (h : cached (some t) place = .ok known) : known = t.fileAt place := by
  simp only [cached, t.get?_joinSegments hplace] at h
  rw [Tree.fileAt]
  -- a directory at the place is known to the tree, but nothing is recorded about it
  cases hd : t.descend? Tree.root place with
  | none =>
    rw [hd] at h
    exact (Except.ok.inj h).symm
  | some i =>
    rw [hd] at h
    show known = (t.node? i).filter Node.isFile
    cases hn : t.node? i with
    | none =>
      simp only [Tree.node, hn] at h
      simp [Except.map] at h
    | some n =>
      simp only [Tree.node, hn] at h
      rw [Option.filter_some]
      exact (Except.ok.inj h).symm

/-- An earlier tree whose links agree always has an answer. -/
theorem Tree.Linked.cached_eq {t : Tree} (ht : t.Linked) {place : List String}
    (hplace : ∀ s ∈ place, ProperSegment s) : cached (some t) place = .ok (t.fileAt place) := by
  rw [fileAt, cached, t.get?_joinSegments hplace]
  cases hdescend : t.descend? Tree.root place with
  | none => rfl
  | some i =>
    obtain ⟨r, hr, -⟩ := ht.root
    obtain ⟨n, hn⟩ := ht.exists_node?_of_descend? hr hdescend
    rw [Option.bind_some, hn, Option.filter_some]
    simp only [node, hn]
    rfl

/-- For a source file of a walk, an earlier tree whose links agree is asked for the file at its
place. -/
theorem cached_of_sourcePlace? {previous : Option Tree} (hprevious : ∀ u ∈ previous, u.Linked)
    {d : Disk} {p : Path} (hd : d.root.wellNamed = true) {f : Found} (hf : f ∈ d.walk p)
    {extensions place : List String} (hplace : f.sourcePlace? extensions = some place) :
    (cached previous place).toOption.join = previous.bind fun u => u.fileAt place := by
  cases previous with
  | none => rfl
  | some u =>
    have hproper :=
      (Disk.reached_of_mem_walk hd hf).properSegment_of_segments?
        (Found.segments?_of_sourcePlace? hplace)
    rw [(hprevious u rfl).cached_eq hproper]
    rfl

/-- What is recorded about a file is what its bytes declare, unless an earlier record of its time
tells otherwise. -/
theorem deps_derive_iff {known : Option Node} {bytes : ByteArray} {modified : Millis}
    {reader : SourceReader} :
    (derive known bytes modified reader).deps = (declaredBy bytes reader).getD {} ↔
      ∀ n, known = some n → n.modified = some modified →
        n.deps = (declaredBy bytes reader).getD {} := by
  cases known with
  | none => simp [derive]
  | some n =>
    rw [derive]
    by_cases hsame : n.modified = some modified
    · simp [hsame]
    · simp [hsame]

/-- An earlier tree is right about an item of a walk: what is recorded of a file given this tree is
what its bytes declare. -/
def Truthful (previous : Option Tree) (extensions : List String) (reader : SourceReader)
    (f : Found) : Prop :=
  ∀ {place : List String} {bytes : ByteArray} {modified : Millis} {known : Option Node},
    f.segments? extensions = some place → f.file = some (.ok (bytes, modified)) →
      cached previous place = .ok known →
        (derive known bytes modified reader).deps = (declaredBy bytes reader).getD {}

/-! ### Scans -/

variable {extensions : List String} {reader : SourceReader}

/-- **A truthful earlier tree does not show** in what an item adds, apart from the time of
dependencies. -/
theorem scanItem_alike {previous : Option Tree} {f : Found}
    (hf : Truthful previous extensions reader f) {t u t' : Tree} {counts counts' : ScanStats}
    (other : ScanStats) (h : t.Alike u)
    (ht : scanItem previous extensions reader (t, counts) f = .ok (t', counts')) :
    ∃ u' other', scanItem none extensions reader (u, other) f = .ok (u', other') ∧ t'.Alike u' := by
  cases scanItem_eq_ok_iff.1 ht with
  | skipped hplace => exact ⟨u, other, scanItem_eq_ok_iff.2 (.skipped hplace), h⟩
  | directory hplace hensure hfile =>
    obtain ⟨u', hu', hlike⟩ := h.exists_ensurePath hensure
    exact ⟨u', _, scanItem_eq_ok_iff.2 (.directory hplace hu' hfile), hlike⟩
  | recorded hplace hensure hfile hknown hset =>
    obtain ⟨u₁, hu₁, hlike⟩ := h.exists_ensurePath hensure
    -- the dependencies are those that the bytes declare, whatever the earlier tree knows
    rw [hf hplace hfile hknown] at hset
    obtain ⟨u₂, hu₂, hlike'⟩ := hlike.exists_setDeps hset
    exact ⟨u₂, _, scanItem_eq_ok_iff.2 (.recorded hplace hu₁ hfile (cached_none _) hu₂), hlike'⟩

theorem scanItems_alike {previous : Option Tree} : ∀ {items : List Found} {t u t' : Tree}
    {counts counts' : ScanStats} (other : ScanStats),
    (∀ f ∈ items, Truthful previous extensions reader f) → t.Alike u →
    scanItems previous extensions reader (t, counts) items = .ok (t', counts') →
      ∃ u' other', scanItems none extensions reader (u, other) items = .ok (u', other') ∧
        t'.Alike u' := by
  intro items
  induction items with
  | nil =>
    intro t u t' counts counts' other _ h ht
    obtain ⟨rfl, -⟩ := Prod.mk.inj (Except.ok.inj ht)
    exact ⟨u, other, rfl, h⟩
  | cons f items ih =>
    intro t u t' counts counts' other hitems h ht
    obtain ⟨⟨t₁, counts₁⟩, hstep, hrest⟩ := scanItems_cons_eq_ok_iff.1 ht
    obtain ⟨u₁, other₁, hu₁, hlike⟩ := scanItem_alike (hitems f List.mem_cons_self) other h hstep
    obtain ⟨u', other', hu', hlike'⟩ :=
      ih other₁ (fun g hg => hitems g (List.mem_cons_of_mem _ hg)) hlike hrest
    exact ⟨u', other', scanItems_cons_eq_ok_iff.2 ⟨_, hu₁, hu'⟩, hlike'⟩

/-! ### What a scan records -/

/-- A node records a file at a place: it has the time of the file and what its bytes declare. -/
structure Records (extensions : List String) (reader : SourceReader) (f : Found)
    (place : List String) (n : Node) : Prop where
  /-- The file goes to this place. -/
  segments : f.segments? extensions = some place
  /-- The node has its time and its dependencies. -/
  content : ∃ bytes modified, f.file = some (.ok (bytes, modified)) ∧ n.modified = some modified ∧
    n.deps = (declaredBy bytes reader).getD {}

/-- All that a tree records comes from files among the given items. -/
def Recorded (extensions : List String) (reader : SourceReader) (items : List Found)
    (t : Tree) : Prop :=
  ∀ place n, t.fileAt place = some n → ∃ f ∈ items, Records extensions reader f place n

/-- **What a scan without an earlier tree records comes from files of its walk.** -/
theorem recorded_scan {d : Disk} {p : Path} {t : Tree} {stats : ScanStats}
    (h : d.scan p none extensions reader = .ok (t, stats)) :
    Recorded extensions reader (d.walk p) t := by
  intro place n hn
  have hrecord := (Disk.record_fileAt_scan h).2 place
  rw [hn] at hrecord
  obtain ⟨f, hlast, hentry⟩ := Option.bind_eq_some_iff.1 hrecord.symm
  obtain ⟨hf, hplace⟩ := mem_of_lastSource hlast
  obtain ⟨⟨bytes, modified⟩, hcontent, hnode⟩ := Option.map_eq_some_iff.1 hentry
  have hfile := Found.content?_eq_some_iff.1 hcontent
  rw [Found.sourcePlace?_of_file hfile] at hplace
  -- there is no earlier record, so the dependencies are those that the bytes declare
  exact ⟨f, hf, hplace, bytes, modified, hfile, (congrArg (·.2.1) hnode).symm,
    (congrArg (·.1) hnode).symm⟩

end ModuleAtlas
