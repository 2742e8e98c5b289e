import Mathlib.Data.List.Pairwise
import ModuleAtlas.Proofs.BuildOutcome
import ModuleAtlas.Proofs.RefusedWrites

/-!
# Builds that fail

A build can fail after it has changed its catalog: scans publish their trees one by one, whatever
becomes of the others, and the record is written last.  Still there is nothing to be undone.  What
was published is what a scan came to as a whole, a location whose scan failed has what it had, and
the file of the record is as it was, unless it is its own lock file.  Such a file is emptied when
the lock is taken, and stays so if a later step is refused.

The scans of a build are here any outcomes at all for the locations that it scans, any of them
published in any order, and the build may be given up because a scan was lost.  The record is
written by a system that may refuse each step.

## Main definitions

* `Trouble.persist`, `Trouble.finish` — writing the record, and a build, under trouble.
* `Catalog.Ran` — outcomes that the scans of a build may come to, and those that were published.
* `Catalog.Undamaged` — what is in a catalog after a build: what was there, and whole results of
  scans.
* `Catalog.KeepsFile`, `Catalog.KeepsRecord` — the file of the record is as it was, always or unless
  it is its own lock file.

## Main results

* `Trouble.persist_calm`, `Trouble.finish_calm` — without trouble these are the actions of a
  catalog.
* `Catalog.ran_scans` — the scans of a build are among the outcomes that are spoken of.
* `Catalog.find?_publishAll_cases` — what is found in a catalog after publishing.
* `Catalog.undamaged_publishAll` — publishing damages no entry.
* `Catalog.undamaged_of_failure` — **a build that fails damages nothing.**
-/

namespace ModuleAtlas

open Std (OrientedCmp TransCmp)

/-! ### Builds under trouble -/

namespace Trouble

/-- Writes the record of a catalog, and tells whether there is a file for it. -/
def persist (t : Trouble) (c : Catalog) : OnDisk Failure Bool :=
  match c.settings.snapshot with
  | none => pure false
  | some p => do
    t.save c.snapshot p
    return true

/-- A build whose scans have the given outcomes and publish in the order `published`, unless one of
them is lost: what it returns, the catalog after it, and the disk after it. -/
def finish (t : Trouble) (lost : Option Failure) (c : Catalog) (o : BuildOptions)
    (outcomes published : List Outcome) (d : Disk) : Except Failure BuildReport × Catalog × Disk :=
  let after := c.publishAll published
  match lost with
  | some f => (.error (f.within "Failed to join location scan tasks"), after, d)
  | none =>
    match Catalog.failures outcomes with
    | [] =>
      match t.persist after d with
      | (.ok persisted, d) => (.ok ⟨c.report o outcomes, persisted⟩, after, d)
      | (.error f, d) => (.error f, after, d)
    | l => (.error (Catalog.failureOf l), after, d)

/-- Without trouble the record is written as a catalog does. -/
theorem persist_calm (c : Catalog) : calm.persist c = c.persist := by
  cases hp : c.settings.snapshot with
  | none => simp only [persist, Catalog.persist, hp]
  | some p => simp only [persist, Catalog.persist, hp, Snapshot.save]

/-- Without trouble a build is that of a catalog. -/
theorem finish_calm (c : Catalog) (o : BuildOptions)
    (outcomes published : List Outcome) (d : Disk) :
    calm.finish none c o outcomes published d = c.finish o outcomes published d := by
  cases hfailures : Catalog.failures outcomes with
  | cons f rest => simp only [finish, Catalog.finish, hfailures]
  | nil =>
    rcases hpersist : (c.publishAll published).persist d with ⟨result, after⟩
    cases result <;> simp only [finish, Catalog.finish, persist_calm, hfailures, hpersist]

/-- Whatever a build returns, it has published what was published. -/
theorem catalog_finish (t : Trouble) (lost : Option Failure) (c : Catalog) (o : BuildOptions)
    (outcomes published : List Outcome) (d : Disk) :
    (t.finish lost c o outcomes published d).2.1 = c.publishAll published := by
  cases lost with
  | some f => rfl
  | none =>
    simp only [finish]
    split
    · split <;> rfl
    · rfl

/-- A build that fails leaves the disk, or has failed to write the record. -/
theorem disk_of_finish_error {t : Trouble} {lost : Option Failure} {c c' : Catalog}
    {o : BuildOptions} {outcomes published : List Outcome} {d d' : Disk} {f : Failure}
    (h : t.finish lost c o outcomes published d = (.error f, c', d')) :
    d' = d ∨ t.persist (c.publishAll published) d = (.error f, d') := by
  cases lost with
  | some e => exact .inl (Prod.mk.inj (Prod.mk.inj h).2).2.symm
  | none =>
    rw [finish] at h
    split at h
    · cases hpersist : t.persist (c.publishAll published) d with
      | mk result after =>
        rw [hpersist] at h
        cases result with
        | ok persisted => cases (Prod.mk.inj h).1
        | error e =>
          obtain ⟨herror, hrest⟩ := Prod.mk.inj h
          rw [Except.error.inj herror, (Prod.mk.inj hrest).2]
          exact .inr rfl
    · exact .inl (Prod.mk.inj (Prod.mk.inj h).2).2.symm

/-- A record that is not written is one that was not saved. -/
theorem save_of_persist_error {t : Trouble} {c : Catalog} {p : Path}
    (hp : c.settings.snapshot = some p) {d d' : Disk} {f : Failure}
    (h : t.persist c d = (.error f, d')) : t.save c.snapshot p d = (.error f, d') := by
  rw [persist, hp] at h
  dsimp only at h
  rw [OnDisk.bind_apply] at h
  cases hsave : t.save c.snapshot p d with
  | mk result after =>
    rw [hsave] at h
    cases result with
    | ok u => cases (Prod.mk.inj h).1
    | error e =>
      obtain ⟨herror, hafter⟩ := Prod.mk.inj h
      rw [Except.error.inj herror, hafter]

end Trouble

namespace Catalog

variable {c c' : Catalog} {o : BuildOptions} {d d' : Disk} {reader : SourceReader}
  {outcomes published : List Outcome}

/-! ### The map of locations -/

/-- What the scans of a build may come to: there is an outcome for each location that the build
scans, and what was published is among them. -/
structure Ran (c : Catalog) (o : BuildOptions) (outcomes published : List Outcome) : Prop where
  /-- There is one outcome for each location that is scanned. -/
  locations : outcomes.map (·.location) = c.targets.filter fun p => c.action o p ≠ .kept
  /-- Nothing but outcomes is published. -/
  published : ∀ s ∈ published, s ∈ outcomes

/-- The scans of a build are such outcomes. -/
theorem ran_scans (hpublished : ∀ s ∈ published, s ∈ c.scans o d reader) :
    c.Ran o (c.scans o d reader) published where
  locations := by
    rw [scans, List.map_map]
    exact List.map_id _
  published := hpublished

/-- Different outcomes are about different locations. -/
theorem Ran.eq_of_compare_eq (h : c.Ran o outcomes published) {s r : Outcome} (hs : s ∈ outcomes)
    (hr : r ∈ outcomes) (he : compare s.location r.location = .eq) : s = r := by
  have hincreasing : (outcomes.map (·.location)).Pairwise fun p q => compare p q = .lt := by
    rw [h.locations]
    exact (SortedSet.pairwise_toList _).filter _
  have hdistinct : outcomes.Pairwise fun a b => compare a.location b.location ≠ .eq :=
    (List.pairwise_map.1 hincreasing).imp fun hlt => by simp [hlt]
  have hsymm : Std.Symm fun a b : Outcome => compare a.location b.location ≠ .eq :=
    ⟨fun a b hne heq => hne (OrientedCmp.eq_symm heq)⟩
  by_contra hne
  exact hdistinct.forall hs hr hne he

/-- What is in a catalog after a build that does no damage. -/
structure Undamaged (c : Catalog) (outcomes : List Outcome) (c' : Catalog) : Prop where
  /-- The settings are what they were. -/
  settings : c'.settings = c.settings
  /-- Under each location is what was there, or the tree of a scan of that location that
  succeeded. -/
  entry : ∀ q, c'.trees.find? q = c.trees.find? q ∨ ∃ s ∈ outcomes, compare s.location q = .eq ∧
    ∃ t stats, s.result = .ok (t, stats) ∧ c'.trees.find? q = some t
  /-- A location whose scan failed has what it had, if anything. -/
  failed : ∀ s ∈ outcomes, ∀ f, s.result = .error f →
    c'.trees.find? s.location = c.trees.find? s.location

/-- What is found in a catalog after publishing is what was there, or the tree of a scan. -/
theorem find?_publishAll_cases (q : Path) (l : List Outcome) : ∀ c : Catalog,
    (c.publishAll l).trees.find? q = c.trees.find? q ∨ ∃ s ∈ l, compare s.location q = .eq ∧
      ∃ t stats, s.result = .ok (t, stats) ∧ (c.publishAll l).trees.find? q = some t := by
  induction l with
  | nil => exact fun c => .inl rfl
  | cons s l ih =>
    intro c
    rcases ih (c.publishOutcome s) with hkept | ⟨r, hr, hloc, t, stats, hresult, htree⟩
    · cases hresult : s.result with
      | error f =>
        have hsame : c.publishOutcome s = c := by rw [publishOutcome, hresult]
        rw [hsame] at hkept
        exact .inl (by rw [publishAll, List.foldl_cons, hsame]; exact hkept)
      | ok result =>
        obtain ⟨t, stats⟩ := result
        have hput : c.publishOutcome s = c.put s.location t := by rw [publishOutcome, hresult]
        rw [hput, put, SortedMap.find?_insert] at hkept
        have hall : (c.publishAll (s :: l)).trees.find? q
            = if compare q s.location = .eq then some t else c.trees.find? q := by
          rw [publishAll, List.foldl_cons, hput]
          exact hkept
        by_cases he : compare q s.location = .eq
        · rw [if_pos he] at hall
          exact .inr ⟨s, List.mem_cons_self, OrientedCmp.eq_symm he, t, stats, hresult, hall⟩
        · rw [if_neg he] at hall
          exact .inl hall
    · exact .inr ⟨r, List.mem_cons_of_mem s hr, hloc, t, stats, hresult, htree⟩

/-- Publishing damages no entry, whatever the outcomes are and whichever of them are published. -/
theorem undamaged_publishAll (h : c.Ran o outcomes published) :
    c.Undamaged outcomes (c.publishAll published) where
  settings := settings_publishAll published c
  entry q := by
    rcases find?_publishAll_cases q published c with hkept | ⟨s, hs, htree⟩
    · exact .inl hkept
    · exact .inr ⟨s, h.published s hs, htree⟩
  failed s hs f hf := by
    rcases find?_publishAll_cases s.location published c with
      hkept | ⟨r, hr, he, t, stats, hresult, -⟩
    · exact hkept
    · -- an outcome for the same location is the one that failed
      obtain rfl := h.eq_of_compare_eq (h.published r hr) hs he
      rw [hf] at hresult
      cases hresult

/-! ### The file of the record -/

/-- The file of the record has the bytes that it had. -/
def KeepsFile (c : Catalog) (d d' : Disk) : Prop :=
  ∀ p, c.settings.snapshot = some p → ∀ bytes, d.read p = .ok bytes → d'.read p = .ok bytes

/-- A file from which a record can be loaded has the bytes that it had, and the same record can be
loaded from it.  A file that holds anything else has its bytes as well, unless it is its own lock
file, which is emptied whenever the lock is taken. -/
def KeepsRecord (c : Catalog) (d d' : Disk) : Prop :=
  ∀ p, c.settings.snapshot = some p → ∀ bytes, d.read p = .ok bytes →
    (∀ s, (Snapshot.load p d).1 = .ok (some s) → d'.read p = .ok bytes ∧
      (Snapshot.load p d').1 = .ok (some s)) ∧
      (Snapshot.Separate p d → d'.read p = .ok bytes)

theorem KeepsRecord.refl (c : Catalog) (d : Disk) : c.KeepsRecord d d :=
  fun _ _ _ hread => ⟨fun _ hload => ⟨hread, hload⟩, fun _ => hread⟩

/-- Whatever is refused, the record is kept. -/
theorem keepsRecord_of_persist_error {t : Trouble} {f : Failure}
    (h : t.persist c d = (.error f, d')) : c.KeepsRecord d d' := by
  intro p hp bytes hread
  have hsave := Trouble.save_of_persist_error hp h
  refine ⟨fun s hload => ?_, fun hseparate => Trouble.read_of_save_error hread hseparate hsave⟩
  have hseparate := (Snapshot.apart_of_read_of_load hread hload).separate
  exact ⟨Trouble.read_of_save_error hread hseparate hsave,
    Trouble.load_of_save_error hread hload hsave⟩

/-! ### Builds that fail -/

theorem keepsRecord_of_finish_error {t : Trouble} {lost : Option Failure} {f : Failure}
    (h : t.finish lost c o outcomes published d = (.error f, c', d')) : c.KeepsRecord d d' := by
  rcases Trouble.disk_of_finish_error h with rfl | hpersist
  · exact .refl c d'
  · have hkeeps := keepsRecord_of_persist_error hpersist
    rwa [KeepsRecord, settings_publishAll] at hkeeps

/-- **A build that fails damages nothing**, whatever its scans come to and whichever step of writing
the record is refused, and neither does one that only writes the record.  Every entry of the map is
what was there or the whole result of a scan of its location, and a location whose scan failed has
what it had.  The file of the record has the bytes that it had if it is not its own lock file.  So
it has if a record could be loaded from it, and then that is loaded as before. -/
theorem undamaged_of_failure (c : Catalog) (d : Disk) :
    (∀ o reader f c' d', c.build o d reader = (.error f, c', d') →
      c.Undamaged (c.scans o d reader) c' ∧ c.KeepsRecord d d') ∧
    (∀ f d', c.persist d = (.error f, d') → c.KeepsRecord d d') ∧
    (∀ (t : Trouble) lost o outcomes published f c' d', c.Ran o outcomes published →
      t.finish lost c o outcomes published d = (.error f, c', d') →
        c.Undamaged outcomes c' ∧ c.KeepsRecord d d') ∧
    ∀ (t : Trouble) f d', t.persist c d = (.error f, d') → c.KeepsRecord d d' := by
  have hfinish : ∀ (t : Trouble) lost o outcomes published f c' d', c.Ran o outcomes published →
      t.finish lost c o outcomes published d = (.error f, c', d') →
        c.Undamaged outcomes c' ∧ c.KeepsRecord d d' := by
    intro t lost o outcomes published f c' d' hran h
    have hcatalog := t.catalog_finish lost c o outcomes published d
    rw [h] at hcatalog
    obtain rfl : c' = c.publishAll published := hcatalog
    exact ⟨undamaged_publishAll hran, keepsRecord_of_finish_error h⟩
  refine ⟨fun o reader f c' d' h => ?_, fun f d' h => ?_, hfinish, fun t f d' =>
    keepsRecord_of_persist_error⟩
  · rw [build, ← Trouble.finish_calm] at h
    exact hfinish .calm none o _ _ f c' d' (ran_scans fun _ hs => hs) h
  · rw [← Trouble.persist_calm] at h
    exact keepsRecord_of_persist_error h

theorem exists_failure_of_not_isOk {α β : Type} {r : Except Failure α × β} (h : r.1.isOk = false) :
    ∃ f, r = (.error f, r.2) := by
  obtain ⟨result, rest⟩ := r
  cases result with
  | ok a => cases h
  | error f => exact ⟨f, rfl⟩

/-- The disk of `twoFileDisk` with a record of `halfBuilt`, whose lock file is a directory. -/
def lockedDisk : Disk :=
  twoFileDisk [("depmap.json", .file halfBuilt.snapshot.toBytes 3), ("depmap.json.lock", .empty)]

/-- The same with a lock file that is a file. -/
def recordedDisk : Disk :=
  twoFileDisk [("depmap.json", .file halfBuilt.snapshot.toBytes 3),
    ("depmap.json.lock", .file .empty 3)]

/-- There is no room for the draft, which then cannot be removed. -/
def noRoom : Trouble where
  refusal? step :=
    if step = .fillDraft then some ⟨.other, "No space left on device (os error 28)"⟩ else none
  leftover := some .empty

/-- One scan failed and the other one was published. -/
def halfFailed : List Outcome :=
  [⟨⟨"app"⟩, .scanned, .error (.ofMessage "unreadable")⟩,
    ⟨⟨"lib"⟩, .validated, .ok (.new "new", {})⟩]

theorem ran_halfFailed : halfBuilt.Ran { validate := true } halfFailed halfFailed.tail where
  locations := by with_unfolding_all decide
  published s hs := List.mem_of_mem_tail hs

/-- There the record is apart from its lock file. -/
theorem apart_recordedDisk : Snapshot.Apart ⟨"cache/depmap.json"⟩ recordedDisk ∧
    recordedDisk.read ⟨"cache/depmap.json"⟩ = .ok halfBuilt.snapshot.toBytes := by
  -- the bytes of the record are left open, so that they are not computed
  have hplace : ∀ bytes,
      (twoFileDisk [("depmap.json", .file bytes 3), ("depmap.json.lock", .file .empty 3)]).find
      ⟨"cache/depmap.json"⟩ = .ok ⟨["cache", "depmap.json"], some (.file bytes 3)⟩ := by
    intro bytes
    with_unfolding_all rfl
  have hlock : ∀ bytes,
      (twoFileDisk [("depmap.json", .file bytes 3), ("depmap.json.lock", .file .empty 3)]).find
      (lockPath ⟨"cache/depmap.json"⟩) =
        .ok ⟨["cache", "depmap.json.lock"], some (.file .empty 3)⟩ := by
    intro bytes
    with_unfolding_all rfl
  have hleads := Disk.find_eq_ok_iff_leadsTo.1 (hplace halfBuilt.snapshot.toBytes)
  exact ⟨⟨_, _, ⟨hleads.1, rfl⟩, ⟨(Disk.find_eq_ok_iff_leadsTo.1 (hlock _)).1, rfl⟩, by decide⟩,
    hleads.1.read_eq hleads.2.symm⟩

/-- So it is loaded. -/
theorem load_recordedDisk :
    (Snapshot.load ⟨"cache/depmap.json"⟩ recordedDisk).1 = .ok (some halfBuilt.snapshot) := by
  rw [apart_recordedDisk.1.load_eq apart_recordedDisk.2, Snapshot.ofBytes_toBytes,
    if_pos (by with_unfolding_all decide), Option.filter_some,
    if_pos (by with_unfolding_all decide)]

/-- `undamaged_of_failure` where the lock file is a directory, where a scan fails, and where there
is no room. -/
theorem undamaged_of_failure_halfBuilt :
    (∃ f c' d', halfBuilt.build { validate := true } lockedDisk = (.error f, c', d') ∧
      halfBuilt.Undamaged (halfBuilt.scans { validate := true } lockedDisk) c' ∧
        halfBuilt.KeepsRecord lockedDisk d') ∧
    (∃ f d', halfBuilt.persist lockedDisk = (.error f, d') ∧ halfBuilt.KeepsRecord lockedDisk d') ∧
    (∃ f c' d',
      noRoom.finish none halfBuilt { validate := true } halfFailed halfFailed.tail recordedDisk =
        (.error f, c', d') ∧
      halfBuilt.Undamaged halfFailed c' ∧ halfBuilt.KeepsRecord recordedDisk d') ∧
    ∃ f d', noRoom.persist halfBuilt recordedDisk = (.error f, d') ∧
      halfBuilt.KeepsRecord recordedDisk d' ∧
      (Snapshot.load ⟨"cache/depmap.json"⟩ d').1 = .ok (some halfBuilt.snapshot) := by
  obtain ⟨hbuild, hpersist, -⟩ := undamaged_of_failure halfBuilt lockedDisk
  obtain ⟨-, -, hfinish, hrefused⟩ := undamaged_of_failure halfBuilt recordedDisk
  obtain ⟨f₁, h₁⟩ := exists_failure_of_not_isOk
    (show (halfBuilt.build { validate := true } lockedDisk).1.isOk = false by
      with_unfolding_all decide)
  obtain ⟨f₂, h₂⟩ := exists_failure_of_not_isOk
    (show (halfBuilt.persist lockedDisk).1.isOk = false by with_unfolding_all decide)
  obtain ⟨f₃, h₃⟩ := exists_failure_of_not_isOk
    (show (noRoom.finish none halfBuilt { validate := true } halfFailed halfFailed.tail
      recordedDisk).1.isOk = false by with_unfolding_all decide)
  obtain ⟨f₄, h₄⟩ := exists_failure_of_not_isOk
    (show (noRoom.persist halfBuilt recordedDisk).1.isOk = false by with_unfolding_all decide)
  have hkept :=
    (hrefused _ _ _ h₄ ⟨"cache/depmap.json"⟩ rfl _ apart_recordedDisk.2).1 _ load_recordedDisk
  exact ⟨⟨f₁, _, _, h₁, hbuild _ _ _ _ _ h₁⟩, ⟨f₂, _, h₂, hpersist _ _ h₂⟩,
    ⟨f₃, _, _, h₃, hfinish _ _ _ _ _ _ _ _ ran_halfFailed h₃⟩, f₄, _, h₄,
    hrefused _ _ _ h₄, hkept.2⟩

/-- A record whose lock file is a link to it. -/
def linkedDisk : Disk :=
  twoFileDisk [("depmap.json", .file "?".toUTF8 3), ("depmap.json.lock", .link "depmap.json")]

/-- The catalog with a slash at the end of the path of its record, which is the same path
otherwise. -/
def slashed : Catalog :=
  { halfBuilt with settings := { halfBuilt.settings with snapshot := some ⟨"cache/depmap.json/"⟩ } }

/-- A record that is its own lock file is emptied by a write that fails, because there is no room or
because its path has a slash at the end. -/
theorem emptied_of_linkedLock :
    (¬ ∀ (t : Trouble) (c : Catalog) (d d' : Disk) (f : Failure), t.persist c d = (.error f, d') →
      c.KeepsFile d d') ∧
    ¬ ∀ (c : Catalog) (d d' : Disk) (f : Failure), c.persist d = (.error f, d') →
      ∀ p q bytes, c.settings.snapshot = some p → compare p q = .eq → d.read q = .ok bytes →
        d'.read q = .ok bytes := by
  have hread : linkedDisk.read ⟨"cache/depmap.json"⟩ = .ok "?".toUTF8 := by with_unfolding_all rfl
  have hempty : (.empty : ByteArray) ≠ "?".toUTF8 := by decide
  constructor
  · intro h
    obtain ⟨f, hf⟩ := exists_failure_of_not_isOk
      (show (noRoom.persist halfBuilt linkedDisk).1.isOk = false by with_unfolding_all decide)
    have hafter : (noRoom.persist halfBuilt linkedDisk).2.read ⟨"cache/depmap.json"⟩ =
        .ok .empty := by
      with_unfolding_all decide
    have hkept := h _ _ _ _ _ hf _ rfl _ hread
    rw [hafter] at hkept
    exact hempty (Except.ok.inj hkept)
  · intro h
    obtain ⟨f, hf⟩ := exists_failure_of_not_isOk
      (show (slashed.persist linkedDisk).1.isOk = false by with_unfolding_all decide)
    have hafter : (slashed.persist linkedDisk).2.read ⟨"cache/depmap.json"⟩ = .ok .empty := by
      with_unfolding_all decide
    have hkept := h _ _ _ _ hf _ ⟨"cache/depmap.json"⟩ _ rfl (by decide +kernel) hread
    rw [hafter] at hkept
    exact hempty (Except.ok.inj hkept)

end Catalog

end ModuleAtlas
