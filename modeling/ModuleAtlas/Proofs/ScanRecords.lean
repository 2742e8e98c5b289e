import ModuleAtlas.Proofs.ScanSteps
import ModuleAtlas.Proofs.WalkLaws

/-!
# What a scan records

Several source files may go to one place of the tree, since their extensions do not show there.
Each of them is recorded when the walk comes to it, in place of the one before, so what a scan
leaves at a place is what it records about the last of them.

## Main definitions

* `Found.content?`, `Found.sourcePlace?` — what a source file holds, and the place to which it goes.
* `Found.Agrees` — two items do not bear the same time with different bytes.
* `Found.entry?` — what is recorded about a source file, given an earlier tree.
* `lastSource` — the last source file of a walk that goes to a place.

## Main results

* `ItemAdded.record_fileAt` — an item changes what is recorded at its own place only.
* `record_fileAt_scanItems` — **the last source file decides what is recorded at a place.**
-/

namespace ModuleAtlas

namespace Found

/-- The bytes and the time of a file that can be looked at. -/
def content? (f : Found) : Option (ByteArray × Millis) := f.file.bind Except.toOption

theorem content?_eq_some_iff {f : Found} {content : ByteArray × Millis} :
    f.content? = some content ↔ f.file = some (.ok content) := by
  rw [content?]
  cases f.file with
  | none => simp
  | some result => cases result <;> simp [Except.toOption]

/-- Two items of walks do not bear the same time with different bytes. -/
def Agrees (f g : Found) : Prop := ∀ a ∈ f.content?, ∀ b ∈ g.content?, a.2 = b.2 → a.1 = b.1

instance (f g : Found) : Decidable (f.Agrees g) :=
  inferInstanceAs (Decidable (∀ a ∈ f.content?, ∀ b ∈ g.content?, a.2 = b.2 → a.1 = b.1))

/-- The place of a source file in the tree. -/
def sourcePlace? (extensions : List String) (f : Found) : Option (List String) :=
  if f.file.isSome then f.segments? extensions else none

theorem sourcePlace?_of_file {f : Found} {content : Except IoError (ByteArray × Millis)}
    (h : f.file = some content) (extensions : List String) :
    f.sourcePlace? extensions = f.segments? extensions := by rw [sourcePlace?, h]; rfl

theorem segments?_of_sourcePlace? {f : Found} {extensions place : List String}
    (h : f.sourcePlace? extensions = some place) : f.segments? extensions = some place := by
  rw [sourcePlace?] at h
  split at h
  · exact h
  · cases h

/-- A source file goes to a place of proper segments. -/
theorem Reached.properSegment_of_segments? {f : Found} {p : Path} (hf : f.Reached p)
    {extensions place : List String} (hplace : f.segments? extensions = some place) :
    ∀ s ∈ place, ProperSegment s := by
  intro s hs
  unfold Found.segments? at hplace
  split at hplace
  · obtain rfl := Option.some.inj hplace
    exact properSegment_of_isFileName (hf.named s hs)
  · simp at hplace
  · next name _ hlast =>
    obtain ⟨stem, hstem, rfl⟩ := Option.map_eq_some_iff.1 hplace
    rcases List.mem_append.1 hs with hs | hs
    · exact properSegment_of_isFileName (hf.named s (List.dropLast_subset _ hs))
    · obtain rfl := List.mem_singleton.1 hs
      have hname : isFileName name = true := hf.named name (List.mem_of_getLast? hlast)
      exact properSegment_moduleName hname hstem

/-- What is recorded about a source file that goes to a place, given an earlier tree. -/
def entry? (previous : Option Tree) (reader : SourceReader) (place : List String) (f : Found) :
    Option (Deps × Option Millis × Option Millis) :=
  f.content?.map fun content =>
    let d := derive (cached previous place).toOption.join content.1 content.2 reader
    (d.deps, some content.2, some d.depsModified)

end Found

/-- The last source file among the items of a walk that goes to a place. -/
def lastSource (extensions : List String) (place : List String) (items : List Found) :
    Option Found :=
  (items.filter fun f => f.sourcePlace? extensions = some place).getLast?

theorem lastSource_cons (extensions place : List String) (f : Found) (items : List Found) :
    lastSource extensions place (f :: items) = (lastSource extensions place items).or
      (if f.sourcePlace? extensions = some place then some f else none) := by
  rw [lastSource, lastSource, List.filter_cons]
  by_cases hf : f.sourcePlace? extensions = some place
  · rw [if_pos (by simpa using hf), if_pos hf, List.getLast?_cons]
    cases (items.filter fun g => g.sourcePlace? extensions = some place).getLast? <;> rfl
  · rw [if_neg (by simpa using hf), if_neg hf, Option.or_none]

theorem mem_of_lastSource {extensions place : List String} {items : List Found} {f : Found}
    (h : lastSource extensions place items = some f) :
    f ∈ items ∧ f.sourcePlace? extensions = some place := by
  obtain ⟨hmem, hplace⟩ := List.mem_filter.1 (List.mem_of_getLast? h)
  exact ⟨hmem, by simpa using hplace⟩

/-- There is a last one wherever source files go. -/
theorem lastSource_ne_none_iff {extensions place : List String} {items : List Found} :
    lastSource extensions place items ≠ none ↔
      ∃ f ∈ items, f.sourcePlace? extensions = some place := by
  rw [lastSource, ne_eq, List.getLast?_eq_none_iff, List.filter_eq_nil_iff]
  simp

variable {previous : Option Tree} {extensions : List String} {reader : SourceReader}

/-- An item changes what is recorded at the place to which it goes, if it is a source file, and
nothing else. -/
theorem ItemAdded.record_fileAt {t t' : Tree} {counts counts' : ScanStats} {f : Found}
    (h : ItemAdded previous extensions reader t counts f t' counts') (ht : t.Linked) :
    t'.Linked ∧ ∀ place, (t'.fileAt place).map Node.record =
      if f.sourcePlace? extensions = some place then f.entry? previous reader place
      else (t.fileAt place).map Node.record := by
  -- ensuring a path adds directories only
  have hensured : ∀ {place : List String} {u : Tree} {i : Nat},
      t.ensurePath Tree.root place = .ok (u, i) →
      u.Linked ∧ t.Grows u ∧ u.descend? Tree.root place = some i := by
    intro place u i hensure
    obtain ⟨r, hr, -⟩ := ht.root
    obtain ⟨u', j, hensure', hu, hgrows, hpath⟩ := @Tree.exists_ensurePath place t Tree.root r ht hr
    obtain ⟨rfl, rfl⟩ := Prod.mk.inj (Except.ok.inj (hensure.symm.trans hensure'))
    exact ⟨hu, hgrows, hpath⟩
  cases h with
  | skipped hplace =>
    have hnone : f.sourcePlace? extensions = none := by rw [Found.sourcePlace?, hplace, ite_self]
    exact ⟨ht, fun place => by rw [hnone, if_neg (by simp)]⟩
  | directory hplace hensure hfile =>
    obtain ⟨hu, hgrows, -⟩ := hensured hensure
    have hnone : f.sourcePlace? extensions = none := by rw [Found.sourcePlace?, hfile]; rfl
    exact ⟨hu, fun place => by rw [hnone, if_neg (by simp), hgrows.record_fileAt ht]⟩
  | @recorded own u v i bytes modified known hplace hensure hfile hknown hset =>
    obtain ⟨hu, hgrows, hpath⟩ := hensured hensure
    obtain ⟨r, hr, -⟩ := hu.root
    obtain ⟨n, hn⟩ := hu.exists_node?_of_descend? hr hpath
    rw [Tree.setDeps_eq hn] at hset
    obtain rfl := Except.ok.inj hset
    refine ⟨Tree.linked_withNode hu hn rfl rfl rfl, fun place => ?_⟩
    rw [Found.sourcePlace?_of_file hfile, hplace]
    by_cases hown : own = place
    · subst hown
      rw [if_pos rfl, Tree.fileAt_recording_self hpath hn, Found.entry?,
        Found.content?_eq_some_iff.2 hfile, hknown]
      rfl
    · rw [if_neg fun h => hown (Option.some.inj h), Tree.fileAt_recording_of_ne hu hpath hn hown,
        hgrows.record_fileAt ht]

/-- **The last source file decides what is recorded at a place**, and where none goes, all stays as
it was. -/
theorem record_fileAt_scanItems {items : List Found} :
    ∀ {t t' : Tree} {counts counts' : ScanStats}, t.Linked →
    scanItems previous extensions reader (t, counts) items = .ok (t', counts') →
      t'.Linked ∧ ∀ place, (t'.fileAt place).map Node.record =
        match lastSource extensions place items with
        | some f => f.entry? previous reader place
        | none => (t.fileAt place).map Node.record := by
  induction items with
  | nil =>
    intro t t' counts counts' ht h
    obtain ⟨rfl, -⟩ := Prod.mk.inj (Except.ok.inj h)
    exact ⟨ht, fun place => rfl⟩
  | cons f items ih =>
    intro t t' counts counts' ht h
    obtain ⟨⟨u, next⟩, hitem, hrest⟩ := scanItems_cons_eq_ok_iff.1 h
    obtain ⟨hu, hfirst⟩ := (scanItem_eq_ok_iff.1 hitem).record_fileAt ht
    obtain ⟨ht', hlater⟩ := ih hu hrest
    refine ⟨ht', fun place => ?_⟩
    rw [hlater, lastSource_cons]
    -- a later file at the place is the last one here too
    cases lastSource extensions place items with
    | some g => rfl
    | none =>
      rw [Option.none_or]
      dsimp only
      rw [hfirst]
      split <;> rfl

theorem Tree.fileAt_new (name : String) (place : List String) :
    (Tree.new name).fileAt place = none := by
  cases hn : (Tree.new name).fileAt place with
  | none => rfl
  | some n =>
    obtain ⟨i, -, hi, hfile⟩ := Tree.exists_of_fileAt hn
    obtain ⟨hlt, rfl⟩ := Array.getElem?_eq_some_iff.1 hi
    obtain rfl : i = 0 := Nat.lt_one_iff.1 hlt
    simp [Tree.new, Node.isFile] at hfile

/-- What a scan leaves at a place is what it records about the last source file there. -/
theorem Disk.record_fileAt_scan {d : Disk} {p : Path} {t : Tree} {stats : ScanStats}
    (h : d.scan p previous extensions reader = .ok (t, stats)) :
    t.Linked ∧ ∀ place, (t.fileAt place).map Node.record =
      (lastSource extensions place (d.walk p)).bind (Found.entry? previous reader place) := by
  obtain ⟨ht, hrecord⟩ := record_fileAt_scanItems (Tree.linked_new _) h
  refine ⟨ht, fun place => ?_⟩
  rw [hrecord, Tree.fileAt_new]
  cases lastSource extensions place (d.walk p) <;> rfl

end ModuleAtlas
