import ModuleAtlas.Proofs.OutsideWalk
import ModuleAtlas.Proofs.Publishing
import ModuleAtlas.Proofs.SavedRecord

/-!
# Records that do not count

A catalog that is opened takes over all of the record or nothing.  A record that does not count
leaves no trace: what is opened, reported and recorded then is what would be without a record, if
the record and its lock file are outside of what is scanned.  A clean opening does not depend on the
record at all.

## Main definitions

* `Snapshot.Rejected` — bytes that hold no record which counts.
* `Settings.RecordOutside` — the record and its lock file are outside all locations.
* `Catalog.opening` — a catalog that is opened, with the report on it.
* `Catalog.SameOpening` — two openings give the same.

## Main results

* `Snapshot.exists_load_of_rejected` — nothing that counts is loaded from such bytes.
* `Catalog.openWith_eq` — an opening that succeeds gives its catalog.
* `Catalog.finish_of_filePlace`, `Catalog.finish_of_save_error` — what a build gives, given its
  scans.
* `Catalog.opening_of_rejected`, `Catalog.opening_of_clean` — openings with and without what the
  record holds.
* `Catalog.opening_ignores_record` — **openings do not depend on a record that does not count.**
-/

namespace ModuleAtlas

open Disk

/-! ### Records that do not count -/

namespace Snapshot

variable {signature : String} {bytes : ByteArray} {p : Path} {d : Disk}
  {place lockPlace : List String}

/-- Bytes that hold no record which counts under a signature: if they denote a record at all, then
it is of another version, has a damaged tree or was written under another signature. -/
def Rejected (signature : String) (bytes : ByteArray) : Prop :=
  ∀ s, ofBytes bytes = some s →
    s.version ≠ currentVersion ∨ (∃ t ∈ s.locations.values, t.isIntact = false) ∨
      s.signature ≠ signature

theorem filter_of_rejected (h : Rejected signature bytes) :
    ((ofBytes bytes).filter isUsable).filter (·.isValidFor signature) = none := by
  rw [Option.filter_eq_none_iff]
  intro s hs
  obtain ⟨hs, husable⟩ := Option.filter_eq_some_iff.1 hs
  rw [isUsable, Bool.and_eq_true, List.all_eq_true] at husable
  rw [isValidFor, Bool.and_eq_true, not_and]
  intro hversion hsignature
  rcases h s hs with hne | ⟨t, ht, hdamaged⟩ | hne
  · exact hne (eq_of_beq hversion)
  · exact Bool.false_ne_true (hdamaged.symm.trans (husable.2 t ht))
  · exact hne (eq_of_beq hsignature)

/-- **Nothing that counts is loaded from such bytes**, and only the lock file is touched. -/
theorem exists_load_of_rejected {modified : Millis} (h : d.FilePlace p place)
    (hfile : d.root.at? place = some (.file bytes modified))
    (hlock : d.FilePlace (lockPath p) lockPlace) (hrejected : Rejected signature bytes) :
    ∃ r, load p d = (.ok r, d.put lockPlace (.file .empty d.now)) ∧
      r.filter (·.isValidFor signature) = none := by
  by_cases hne : place = lockPlace
  · subst hne
    have hexists : d.exists? p = true := by rw [h.1.exists?_eq, hfile]; rfl
    exact ⟨none, load_of_own_lock hexists h hlock, rfl⟩
  · exact ⟨_, load_of_apart h hfile hlock hne, filter_of_rejected hrejected⟩

end Snapshot

/-! ### Openings -/

/-- The record and its lock file are outside all locations: the path of the record leads to a place
for a file, and no scan of a location comes to that place or to where the path of the lock file
leads. -/
structure Settings.RecordOutside (settings : Settings) (d : Disk) (p : Path) (place : List String) :
    Prop where
  /-- The record is kept. -/
  snapshot : settings.snapshot = some p
  /-- Its path leads to the place. -/
  filePlace : d.FilePlace p place
  /-- No scan comes there. -/
  record : ∀ l ∈ settings.locations.toList, d.Outside l place
  /-- No scan comes to its lock file. -/
  lock : ∀ l ∈ settings.locations.toList, ∀ lockPlace, d.LeadsTo (lockPath p) lockPlace →
    d.Outside l lockPlace

namespace Settings.RecordOutside

variable {settings : Settings} {d e : Disk} {p : Path} {place : List String}

/-- Whether the record and its lock file are outside does not depend on the record. -/
theorem of_sameOff (h : settings.RecordOutside d p place) (hsame : Disk.SameOff place d e) :
    settings.RecordOutside e p place where
  snapshot := h.snapshot
  filePlace := hsame.filePlace_iff.1 h.filePlace
  record l hl := (h.record l hl).of_sameOff hsame (h.record l hl)
  lock l hl lockPlace hleads :=
    (h.record l hl).of_sameOff hsame (h.lock l hl lockPlace (hsame.leadsTo_iff.2 hleads))

end Settings.RecordOutside

namespace Catalog

variable {c : Catalog} {o : BuildOptions} {d d' e : Disk} {reader : SourceReader} {p : Path}
  {place lockPlace : List String} {settings : Settings}

/-- A catalog of the given settings that is opened: what its build returns, the catalog after it and
the disk after it.  Unless the opening is clean, the record is taken over before if it counts. -/
def opening (settings : Settings) (o : BuildOptions) (d : Disk)
    (reader : SourceReader := amdReader) : Except Failure BuildReport × Catalog × Disk :=
  if o.clean then build { settings } o d reader
  else
    match loadSnapshot { settings } d with
    | (.error f, d) => (.error f, { settings }, d)
    | (.ok (_, c), d) => c.build o d reader

/-- An opening shows the catalog if its build succeeds. -/
theorem openWith_eq (settings : Settings) (o : BuildOptions) (d : Disk) (reader : SourceReader) :
    openWith settings o d reader =
      ((opening settings o d reader).1.map fun _ => (opening settings o d reader).2.1,
        (opening settings o d reader).2.2) := by
  rw [openWith, opening]
  cases o.clean with
  | true =>
    rw [if_pos rfl, if_pos rfl]
    dsimp only [pure, ExceptT.pure, ExceptT.mk, StateT.pure]
    generalize build { settings } o d reader = r
    obtain ⟨result, c', d'⟩ := r
    cases result <;> rfl
  | false =>
    simp only [Bool.false_eq_true, if_false]
    rw [OnDisk.bind_apply]
    obtain ⟨result, d'⟩ := loadSnapshot { settings } d
    cases result with
    | error f => rfl
    | ok found =>
      dsimp only [pure, ExceptT.pure, ExceptT.mk, StateT.pure]
      generalize build found.2 o d' reader = r
      obtain ⟨result, c', d'⟩ := r
      cases result <;> rfl

/-! ### Builds whose scans are given -/

/-- What a build returns if its record can be written. -/
def reportOf (c : Catalog) (o : BuildOptions) (outcomes : List Outcome) :
    Except Failure BuildReport :=
  if failures outcomes = [] then .ok ⟨c.report o outcomes, true⟩
  else .error (failureOf (failures outcomes))

/-- A record that is written is in the file. -/
theorem exists_persist (hp : c.settings.snapshot = some p) (h : d.FilePlace p place)
    (hlock : d.FilePlace (lockPath p) lockPlace) (hdraft : Trouble.calm.draftRefusal? p d = none) :
    ∃ d', c.persist d = (.ok true, d') ∧ d'.read p = .ok c.snapshot.toBytes := by
  have hlocked := ((hlock.sameOff_put .empty d.now).filePlace_iff).1 h
  obtain ⟨own, hown, -⟩ := hlocked.exists_ownPlace
  have hread := (hlocked.own hown c.snapshot.toBytes d.now).1.read_eq
    (hown.at?_put c.snapshot.toBytes d.now)
  refine ⟨_, ?_, hread⟩
  rw [persist_eq hp, OnDisk.bind_apply, Snapshot.save_of_filePlace _ h hlock hown hdraft]
  rfl

theorem finish_of_filePlace (hp : c.settings.snapshot = some p) (h : d.FilePlace p place)
    (hlock : d.FilePlace (lockPath p) lockPlace) (hdraft : Trouble.calm.draftRefusal? p d = none)
    (outcomes published : List Outcome) :
    (c.finish o outcomes published d).1 = c.reportOf o outcomes ∧
      ((c.finish o outcomes published d).1.isOk = true →
        (c.finish o outcomes published d).2.2.read p =
          .ok (c.publishAll published).snapshot.toBytes) := by
  obtain ⟨d', hpersist, hread⟩ :=
    exists_persist (c := c.publishAll published) (by rw [settings_publishAll, hp]) h hlock hdraft
  rw [finish, reportOf]
  cases hfailures : failures outcomes with
  | nil =>
    dsimp only
    rw [hpersist]
    exact ⟨rfl, fun _ => hread⟩
  | cons f rest => exact ⟨rfl, fun hok => absurd hok (by simp [Except.isOk, Except.toBool])⟩

/-- A build that cannot write its record fails. -/
theorem finish_of_save_error {f : Failure} {outcomes published : List Outcome}
    (hp : c.settings.snapshot = some p)
    (hsave : (c.publishAll published).snapshot.save p d = (.error f, d')) :
    (c.finish o outcomes published d).1 =
      .error (if failures outcomes = [] then f else failureOf (failures outcomes)) := by
  have hpersist : (c.publishAll published).persist d = (.error f, d') := by
    rw [persist_eq (by rw [settings_publishAll, hp]), OnDisk.bind_apply, hsave]
  rw [finish]
  cases failures outcomes with
  | nil =>
    dsimp only
    rw [hpersist]
    rfl
  | cons g rest => rfl

/-! ### Two openings -/

/-- Two openings give the same: the same report or failure, the same catalog, and if they succeed
the same record in the file. -/
structure SameOpening (p : Path) (r r' : Except Failure BuildReport × Catalog × Disk) : Prop where
  /-- The reports are the same, or the failures are. -/
  report : r.1 = r'.1
  /-- The catalogs are the same. -/
  catalog : r.2.1 = r'.2.1
  /-- The records are the same. -/
  record : r.1.isOk = true → ∃ bytes, r.2.2.read p = .ok bytes ∧ r'.2.2.read p = .ok bytes

/-- Where no scan comes, the scans of a catalog without trees find no difference. -/
theorem scans_eq_of_sameOff (hout : ∀ l ∈ settings.locations.toList, d.Outside l place)
    (hsame : Disk.SameOff place d e) :
    scans { settings } o d reader = scans { settings } o e reader := by
  rw [scans, scans]
  apply List.map_congr_left
  intro l hl
  have htarget : l ∈ settings.locations.toList :=
    (mem_targets_cases (List.mem_of_mem_filter hl)).resolve_right
      (by simp [locations, SortedMap.keys])
  rw [scanTarget, scanTarget, (hout l htarget).scan_eq hsame]

/-- An opening that takes nothing over is a build of a catalog without trees. -/
theorem opening_of_load {r : Option Snapshot} (ho : o.clean = false)
    (hp : settings.snapshot = some p) (hload : Snapshot.load p d = (.ok r, d'))
    (hr : r.filter (·.isValidFor settings.signature) = none) :
    opening settings o d reader = build { settings } o d' reader := by
  have hadopt : adopt { settings } r = none := by rw [adopt, hr]; rfl
  have hloaded : loadSnapshot { settings } d = (.ok (false, { settings }), d') := by
    rw [loadSnapshot_eq hp, OnDisk.bind_apply, hload]
    dsimp only
    rw [hadopt]
    rfl
  rw [opening, if_neg (by rw [ho]; simp), hloaded]

/-- An opening that cannot read the record fails. -/
theorem opening_of_load_error {f : Failure} (ho : o.clean = false) (hp : settings.snapshot = some p)
    (hload : Snapshot.load p d = (.error f, d')) :
    opening settings o d reader = (.error f, { settings }, d') := by
  have hloaded : loadSnapshot { settings } d = (.error f, d') := by
    rw [loadSnapshot_eq hp, OnDisk.bind_apply, hload]
  rw [opening, if_neg (by rw [ho]; simp), hloaded]

/-- Builds whose scans are the same give the same if writing their record is refused for the same
reason. -/
theorem sameOpening_of_save_error {f : Failure} {locked unlocked : Disk}
    (hp : c.settings.snapshot = some p) (hscans : c.scans o d reader = c.scans o e reader)
    (hsave : ∀ s : Snapshot, s.save p d = (.error f, locked))
    (hsave' : ∀ s : Snapshot, s.save p e = (.error f, unlocked)) :
    SameOpening p (c.build o d reader) (c.build o e reader) := by
  have hreport : (c.build o d reader).1 = (c.build o e reader).1 := by
    rw [build, build, finish_of_save_error hp (hsave _), finish_of_save_error hp (hsave' _), hscans]
  refine ⟨hreport, by rw [catalog_build, catalog_build, hscans], fun hok => ?_⟩
  rw [build, finish_of_save_error hp (hsave _)] at hok
  cases hok

/-- They give the same as well if both can take the lock. -/
theorem sameOpening_of_filePlace {place' lockPlace' : List String}
    (hp : c.settings.snapshot = some p) (hscans : c.scans o d reader = c.scans o e reader)
    (hcwd : d.cwd = e.cwd) (h : d.FilePlace p place) (hlock : d.FilePlace (lockPath p) lockPlace)
    (h' : e.FilePlace p place') (hlock' : e.FilePlace (lockPath p) lockPlace') :
    SameOpening p (c.build o d reader) (c.build o e reader) := by
  have hsame := Trouble.draftRefusal?_eq hcwd .calm p
  cases hdraft : Trouble.calm.draftRefusal? p d with
  | some refusal =>
    exact sameOpening_of_save_error hp hscans
      (fun s => Snapshot.save_of_draftRefusal s h hlock hdraft)
      fun s => Snapshot.save_of_draftRefusal s h' hlock' (hsame.symm.trans hdraft)
  | none =>
    obtain ⟨hreport, hrecord⟩ :=
      finish_of_filePlace (o := o) hp h hlock hdraft (c.scans o d reader) (c.scans o d reader)
    obtain ⟨hreport', hrecord'⟩ :=
      finish_of_filePlace (o := o) hp h' hlock' (hsame.symm.trans hdraft) (c.scans o d reader)
        (c.scans o d reader)
    have heq : (c.build o d reader).1 = (c.build o e reader).1 := by
      rw [build, build, ← hscans, hreport, hreport']
    refine ⟨heq, by rw [catalog_build, catalog_build, hscans], fun hok => ⟨_, hrecord hok, ?_⟩⟩
    rw [heq] at hok
    rw [build, ← hscans] at hok ⊢
    exact hrecord' hok

section

variable (hout : settings.RecordOutside d p place) (hsame : Disk.SameOff place d e)

include hout hsame

/-- The lock is refused on both disks if on one. -/
theorem exists_errors_of_lock (hlock : ¬ ∃ lockPlace, e.FilePlace (lockPath p) lockPlace) :
    (∃ f, lock p e = (.error f, e)) ∧ ∃ f, lock p d = (.error f, d) :=
  ⟨exists_error_of_lock (hsame.filePlace_iff.1 hout.filePlace) (not_exists.1 hlock),
    exists_error_of_lock hout.filePlace fun k hk => hlock ⟨k, hsame.filePlace_iff.1 hk⟩⟩

/-- A record that does not count is as good as none, unless the lock is refused. -/
theorem opening_of_rejected {bytes : ByteArray} {modified : Millis} (ho : o.clean = false)
    (habsent : d.root.at? place = none) (hfile : e.root.at? place = some (.file bytes modified))
    (hrejected : Snapshot.Rejected settings.signature bytes) :
    SameOpening p (opening settings o e reader) (opening settings o d reader) ∨
      (lock p e).1.isOk = false ∧ (opening settings o e reader).1.isOk = false ∧
        (opening settings o d reader).1.isOk = false := by
  have hplace : e.FilePlace p place := hsame.filePlace_iff.1 hout.filePlace
  have hopening : opening settings o d reader = build { settings } o d reader := by
    refine opening_of_load ho hout.snapshot (Snapshot.load_of_not_exists ?_) rfl
    rw [hout.filePlace.1.exists?_eq, habsent]
    rfl
  by_cases hlock : ∃ lockPlace, e.FilePlace (lockPath p) lockPlace
  · -- the lock file is emptied before the scans, which do not come to it
    obtain ⟨lockPlace, hlock⟩ := hlock
    have hlocked := hlock.sameOff_put .empty e.now
    obtain ⟨r, hload, hr⟩ := Snapshot.exists_load_of_rejected hplace hfile hlock hrejected
    have hunseen : ∀ l ∈ settings.locations.toList, e.Outside l lockPlace := fun l hl =>
      (hout.of_sameOff hsame).lock l hl lockPlace hlock.1
    have hscans : scans { settings } o (e.put lockPlace (.file .empty e.now)) reader
        = scans { settings } o d reader :=
      (scans_eq_of_sameOff hunseen hlocked).symm.trans (scans_eq_of_sameOff hout.record hsame).symm
    rw [hopening, opening_of_load ho hout.snapshot hload hr]
    have hplace' := hlocked.filePlace_iff.1 hplace
    exact .inl (sameOpening_of_filePlace hout.snapshot hscans hsame.cwd.symm hplace'
      (hlocked.filePlace_iff.1 hlock) hout.filePlace (hsame.filePlace_iff.2 hlock))
  · -- the record cannot be read, nor can it be written if there is none
    obtain ⟨⟨f, hf⟩, g, hg⟩ := exists_errors_of_lock hout hsame hlock
    have hexists : e.exists? p = true := by rw [hplace.1.exists?_eq, hfile]; rfl
    refine .inr ⟨by rw [hf]; rfl, ?_, ?_⟩
    · rw [opening_of_load_error ho hout.snapshot (Snapshot.load_of_lock_error hexists hf)]
      rfl
    · rw [hopening, build, finish_of_save_error hout.snapshot (Snapshot.save_of_lock_error _ hg)]
      rfl

/-- A clean opening does not depend on the record. -/
theorem opening_of_clean {bytes bytes' : ByteArray} {modified modified' : Millis}
    (ho : o.clean = true) (hfile : d.root.at? place = some (.file bytes modified))
    (hfile' : e.root.at? place = some (.file bytes' modified')) :
    SameOpening p (opening settings o e reader) (opening settings o d reader) := by
  have hplace : e.FilePlace p place := hsame.filePlace_iff.1 hout.filePlace
  have hscans : scans { settings } o e reader = scans { settings } o d reader :=
    (scans_eq_of_sameOff hout.record hsame).symm
  rw [opening, opening, if_pos ho, if_pos ho]
  by_cases hlock : ∃ lockPlace, e.FilePlace (lockPath p) lockPlace
  · obtain ⟨lockPlace, hlock⟩ := hlock
    exact sameOpening_of_filePlace hout.snapshot hscans hsame.cwd.symm hplace hlock hout.filePlace
      (hsame.filePlace_iff.2 hlock)
  · -- the lock is refused for the same reason, since both disks have a file for the record
    obtain ⟨⟨f, hf⟩, g, hg⟩ := exists_errors_of_lock hout hsame hlock
    have hkind := hsame.root.kindAt_eq (by rw [Entry.kindAt, Entry.kindAt, hfile, hfile']; rfl)
    have hresult := lock_result_eq hout.filePlace hplace hsame.cwd hkind
    rw [hf, hg] at hresult
    obtain rfl := Except.error.inj hresult
    exact sameOpening_of_save_error hout.snapshot hscans (fun s => Snapshot.save_of_lock_error s hf)
      fun s => Snapshot.save_of_lock_error s hg

end

/-- **Openings do not depend on a record that does not count.**  Take two disks that are the same
off the file of the record, where the record and its lock file are outside all locations.  If one
has no record and the other one bytes that hold none which counts, then both openings give the same,
or the lock is refused and both fail.  Clean openings give the same whatever the two files hold. -/
theorem opening_ignores_record (hout : settings.RecordOutside d p place)
    (hsame : Disk.SameOff place d e) (o : BuildOptions) (reader : SourceReader) :
    (o.clean = false → d.root.at? place = none →
      ∀ bytes modified, e.root.at? place = some (.file bytes modified) →
        Snapshot.Rejected settings.signature bytes →
          SameOpening p (opening settings o e reader) (opening settings o d reader) ∨
            (lock p e).1.isOk = false ∧ (opening settings o e reader).1.isOk = false ∧
              (opening settings o d reader).1.isOk = false) ∧
      (o.clean = true →
        ∀ bytes modified bytes' modified', d.root.at? place = some (.file bytes modified) →
          e.root.at? place = some (.file bytes' modified') →
            SameOpening p (opening settings o e reader) (opening settings o d reader)) :=
  ⟨fun ho habsent _ _ hfile hrejected => opening_of_rejected hout hsame ho habsent hfile hrejected,
    fun ho _ _ _ _ hfile hfile' => opening_of_clean hout hsame ho hfile hfile'⟩

/-- A disk with a directory for the record and a location of one file. -/
def oneFileDisk (cache : List (String × Entry)) : Disk where
  root := .dir [("cache", .dir cache), ("lib", .dir [("a.js", .file "define([]);".toUTF8 5)])]

/-- Settings for that location and a record in that directory. -/
def oneFileSettings : Settings :=
  { locations := .ofList [⟨"lib"⟩], signature := "signature",
    snapshot := some ⟨"cache/depmap.json"⟩ }

theorem recordOutside_oneFileDisk {cache : List (String × Entry)} {e : Option Entry}
    (hfind : (oneFileDisk cache).find ⟨"cache/depmap.json"⟩ = .ok ⟨["cache", "depmap.json"], none⟩)
    (hlock : (oneFileDisk cache).find (lockPath ⟨"cache/depmap.json"⟩) =
      .ok ⟨["cache", "depmap.json.lock"], e⟩) :
    oneFileSettings.RecordOutside (oneFileDisk cache) ⟨"cache/depmap.json"⟩
    ["cache", "depmap.json"] := by
  have hlib : (oneFileDisk cache).find ⟨"lib"⟩ =
      .ok ⟨["lib"], some (.dir [("a.js", .file "define([]);".toUTF8 5)])⟩ := by
    with_unfolding_all rfl
  have hlocations : oneFileSettings.locations.toList = [⟨"lib"⟩] := by with_unfolding_all decide
  obtain ⟨hleads, hentry⟩ := find_eq_ok_iff_leadsTo.1 hfind
  refine ⟨rfl, ⟨hleads, by rw [Entry.isDirAt, ← hentry]; rfl⟩, ?_, ?_⟩
  · intro l hl
    rw [hlocations, List.mem_singleton] at hl
    subst hl
    exact outside_of_linkFree hlib rfl (by decide)
  · intro l hl lockPlace hleads
    rw [hlocations, List.mem_singleton] at hl
    subst hl
    obtain rfl := (find_eq_ok_iff_leadsTo.1 hlock).1.unique hleads
    exact outside_of_linkFree hlib rfl (show ¬ ["lib"] <+: ["cache", "depmap.json.lock"] by decide)

theorem rejected_questionMark : Snapshot.Rejected oneFileSettings.signature "?".toUTF8 := by
  intro s hs
  rw [show Snapshot.ofBytes "?".toUTF8 = none by with_unfolding_all decide] at hs
  cases hs

/-- Bytes that are no record, and a clean opening beside a record that counts. -/
theorem opening_ignores_record_oneFileDisk :
    (∃ e, e = (oneFileDisk []).put ["cache", "depmap.json"] (.file "?".toUTF8 0) ∧
      SameOpening ⟨"cache/depmap.json"⟩ (opening oneFileSettings {} e amdReader)
        (opening oneFileSettings {} (oneFileDisk []) amdReader)) ∧
      ∃ d e, d = (oneFileDisk []).put ["cache", "depmap.json"] (.file "?".toUTF8 0) ∧
        e = d.put ["cache", "depmap.json"] (.file Snapshot.oneFileRecord.toBytes 7) ∧
        SameOpening ⟨"cache/depmap.json"⟩ (opening oneFileSettings { clean := true } e amdReader)
          (opening oneFileSettings { clean := true } d amdReader) := by
  have hout := recordOutside_oneFileDisk (show (oneFileDisk []).find ⟨"cache/depmap.json"⟩ = _ by
    with_unfolding_all rfl) (show (oneFileDisk []).find _ = .ok ⟨_, none⟩ by with_unfolding_all rfl)
  have hsame := hout.filePlace.sameOff_put "?".toUTF8 0
  have hfile : ((oneFileDisk []).put ["cache", "depmap.json"] (.file "?".toUTF8 0)).root.at?
      ["cache", "depmap.json"] = some (.file "?".toUTF8 0) :=
        Entry.at?_put_self _ hout.filePlace.dirsTo
  constructor
  · refine ⟨_, rfl, ?_⟩
    refine ((opening_ignores_record hout hsame {} amdReader).1 rfl rfl _ _ hfile
      rejected_questionMark).resolve_right ?_
    rintro ⟨hrefused, -⟩
    revert hrefused
    with_unfolding_all decide
  · have hout' := hout.of_sameOff hsame
    have hsame' := hout'.filePlace.sameOff_put Snapshot.oneFileRecord.toBytes 7
    refine ⟨_, _, rfl, rfl, ?_⟩
    exact (opening_ignores_record hout' hsame' { clean := true } amdReader).2 rfl _ _ _ _ hfile
      (Entry.at?_put_self _ hout'.filePlace.dirsTo)

/-- A directory in the place of the lock file.  The opening beside bytes that are no record fails
before it scans, and the bytes stay; the one without a record fails when it has scanned, and there
is no record after it either. -/
theorem opening_of_blockedLock : ∃ d e, d = oneFileDisk [("depmap.json.lock", .empty)] ∧
    e = d.put ["cache", "depmap.json"] (.file "?".toUTF8 0) ∧
    oneFileSettings.RecordOutside d ⟨"cache/depmap.json"⟩ ["cache", "depmap.json"] ∧
    Disk.SameOff ["cache", "depmap.json"] d e ∧ d.root.at? ["cache", "depmap.json"] = none ∧
    Snapshot.Rejected oneFileSettings.signature "?".toUTF8 ∧
    (opening oneFileSettings {} e amdReader).2.1.locations = [] ∧
    (opening oneFileSettings {} d amdReader).2.1.locations = [⟨"lib"⟩] ∧
    (opening oneFileSettings {} e amdReader).2.2.read ⟨"cache/depmap.json"⟩ = .ok "?".toUTF8 ∧
    (opening oneFileSettings {} d amdReader).2.2.exists? ⟨"cache/depmap.json"⟩ = false := by
  let d := oneFileDisk [("depmap.json.lock", .empty)]
  have hout := recordOutside_oneFileDisk (show d.find ⟨"cache/depmap.json"⟩ = _ by
    with_unfolding_all rfl) (show d.find _ = .ok ⟨_, some .empty⟩ by with_unfolding_all rfl)
  refine ⟨d, _, rfl, rfl, hout, hout.filePlace.sameOff_put "?".toUTF8 0, rfl,
    rejected_questionMark, ?_⟩
  refine ⟨?_, ?_, ?_, ?_⟩ <;> with_unfolding_all decide

end Catalog

end ModuleAtlas
