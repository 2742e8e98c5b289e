import ModuleAtlas.Proofs.SavedRecord

/-!
# Writes that are refused

A record is written in steps, and a refusal may come at each of them: the record is put into bytes,
the directory is made, the lock file is opened and locked, a draft is made beside the record, filled
and brought to the disk, and moved over the record.  No step but the last one touches a record that
is not its own lock file, and nothing comes after the last one.  So a record that could be loaded
before a save that fails can be loaded after it, and it is the same.

## Main definitions

* `OnDisk.Leaves` — what an action leaves, whether it succeeds or fails.
* `Snapshot.Separate`, `Snapshot.Undisturbed` — a file that is not its own lock file, and one that
  has not changed.

## Main results

* `Trouble.undisturbed_save` — **a save that fails disturbs no file that is not its own lock file.**
* `Trouble.load_of_save_error` — a record that is loaded before is loaded after it.
-/

namespace ModuleAtlas

open Disk

/-! ### What actions leave -/

namespace OnDisk

variable {ε α β : Type} {before ok middle failed : Disk → Prop}

/-- From disks of one kind an action leaves those of a second kind if it succeeds, and of a third if
it fails. -/
structure Leaves (before : Disk → Prop) (act : OnDisk ε α) (ok failed : Disk → Prop) : Prop where
  /-- What is left of a disk of the first kind. -/
  run : ∀ d, before d → match act d with
    | (.ok _, d') => ok d'
    | (.error _, d') => failed d'

theorem Leaves.of_error {act : OnDisk ε α} (h : Leaves before act ok failed) {d d' : Disk} {e : ε}
    (hd : before d) (hact : act d = (.error e, d')) : failed d' := by
  have hleaves := h.run d hd
  rwa [hact] at hleaves

theorem Leaves.pure (a : α) : Leaves before (Pure.pure a : OnDisk ε α) before failed :=
  ⟨fun _ hd => hd⟩

theorem Leaves.bind {act : OnDisk ε α} {next : α → OnDisk ε β}
    (hact : Leaves before act middle failed) (hnext : ∀ a, Leaves middle (next a) ok failed) :
    Leaves before (act >>= next) ok failed := by
  refine ⟨fun d hd => ?_⟩
  have hmiddle := hact.run d hd
  rw [bind_apply]
  cases h : act d with
  | mk result d' =>
    rw [h] at hmiddle
    cases result with
    | ok a => exact (hnext a).run d' hmiddle
    | error e => exact hmiddle

/-- An action that does nothing to disks of a kind. -/
theorem Leaves.of_eq {act : OnDisk ε α} {a : α} (h : ∀ d, before d → act d = (.ok a, d)) :
    Leaves before act before failed := by
  refine ⟨fun d hd => ?_⟩
  rw [h d hd]
  exact hd

theorem Leaves.within {act : OnDisk Failure α} (h : Leaves before act ok failed)
    (context : String) : Leaves before (OnDisk.within context act) ok failed := by
  refine ⟨fun d hd => ?_⟩
  have hleaves := h.run d hd
  rw [OnDisk.within]
  cases hact : act d with
  | mk result d' =>
    rw [hact] at hleaves
    cases result <;> exact hleaves

theorem Leaves.ofIo {act : OnDisk IoError α} (h : Leaves before act ok failed) :
    Leaves before (OnDisk.ofIo act) ok failed := by
  refine ⟨fun d hd => ?_⟩
  have hleaves := h.run d hd
  rw [OnDisk.ofIo]
  cases hact : act d with
  | mk result d' =>
    rw [hact] at hleaves
    cases result <;> exact hleaves

/-- A change that fails leaves the disk. -/
theorem Leaves.change {f : Disk → Except ε Disk} (h : ∀ d d', before d → f d = .ok d' → ok d') :
    Leaves before (OnDisk.change f) ok before := by
  refine ⟨fun d hd => ?_⟩
  rw [OnDisk.change]
  cases hf : f d with
  | ok d' => exact h d d' hd hf
  | error e => exact hd

/-- So does a step that is refused. -/
theorem Leaves.attempt {act : OnDisk IoError α} (h : Leaves before act ok before) (t : Trouble)
    (step : WriteStep) : Leaves before (t.attempt step act) ok before := by
  refine ⟨fun d hd => ?_⟩
  rw [Trouble.attempt]
  cases t.refusal? step with
  | some e => exact hd
  | none => exact h.run d hd

/-- A draft that is given up must not matter. -/
theorem Leaves.discarding {act : OnDisk Failure Unit} (h : Leaves before act ok failed)
    (t : Trouble) (dir : Path) (hgiveUp : ∀ d, failed d → failed (t.giveUp dir d)) :
    Leaves before (t.discarding dir act) ok failed := by
  refine ⟨fun d hd => ?_⟩
  have hleaves := h.run d hd
  rw [Trouble.discarding]
  cases hact : act d with
  | mk result d' =>
    rw [hact] at hleaves
    cases result with
    | ok u => exact hleaves
    | error f => exact hgiveUp d' hleaves

end OnDisk

/-! ### Files that are not disturbed -/

namespace Snapshot

variable {s : Snapshot} {p : Path} {bytes : ByteArray} {d d' d'' : Disk} {place : List String}

/-- The lock file of a file is not the file itself. -/
def Separate (p : Path) (d : Disk) : Prop :=
  ∀ place, d.FilePlace p place → ¬ d.FilePlace (lockPath p) place

theorem Apart.separate (h : Apart p d) : Separate p d := by
  obtain ⟨place, lockPlace, hplace, hlock, hne⟩ := h
  intro other hother hother'
  exact hne ((hplace.1.unique hother.1).trans (hother'.1.unique hlock.1))

/-- A path and that of its lock file lead to the same places for files, and at that of the path
nothing has changed. -/
structure Undisturbed (p : Path) (d d' : Disk) : Prop where
  /-- The path leads to the same places. -/
  filePlace : ∀ place, d.FilePlace p place ↔ d'.FilePlace p place
  /-- So does that of the lock file. -/
  lockPlace : ∀ place, d.FilePlace (lockPath p) place ↔ d'.FilePlace (lockPath p) place
  /-- The same entry is where the path leads. -/
  entry : ∀ place, d.FilePlace p place → d.root.at? place = d'.root.at? place

namespace Undisturbed

theorem refl (p : Path) (d : Disk) : Undisturbed p d d :=
  ⟨fun _ => .rfl, fun _ => .rfl, fun _ _ => rfl⟩

/-- A change at a place to which the path does not lead disturbs nothing. -/
theorem step {x : List String} (h : Undisturbed p d d') (hsame : SameOff x d' d'')
    (hx : ¬ d'.FilePlace p x) : Undisturbed p d d'' where
  filePlace place := (h.filePlace place).trans hsame.filePlace_iff
  lockPlace place := (h.lockPlace place).trans hsame.filePlace_iff
  entry place hplace := by
    have hplace' := (h.filePlace place).1 hplace
    rw [h.entry place hplace]
    apply hsame.root.at?_eq_of_not_isDir hplace'.2
    rintro rfl
    exact hx hplace'

theorem read_eq (h : Undisturbed p d d') (hread : d.read p = .ok bytes) :
    d'.read p = .ok bytes := by
  obtain ⟨place, modified, hplace, hfile⟩ := exists_file_of_read hread
  rw [h.entry place hplace] at hfile
  exact ((h.filePlace place).1 hplace).1.read_eq hfile

theorem apart (h : Undisturbed p d d') (hapart : Apart p d) : Apart p d' := by
  obtain ⟨place, lockPlace, hplace, hlock, hne⟩ := hapart
  exact ⟨place, lockPlace, (h.filePlace place).1 hplace, (h.lockPlace lockPlace).1 hlock, hne⟩

end Undisturbed

/-- What a file apart from its lock file holds decides what is loaded. -/
theorem Apart.load_eq (h : Apart p d) (hread : d.read p = .ok bytes) :
    (load p d).1 = .ok ((ofBytes bytes).filter isUsable) := by
  obtain ⟨place, lockPlace, hplace, hlock, hne⟩ := h
  obtain ⟨place', modified, hplace', hfile⟩ := exists_file_of_read hread
  obtain rfl := hplace.1.unique hplace'.1
  rw [load_of_apart hplace hfile hlock hne]

/-- A file from which a record is loaded is apart from its lock file. -/
theorem apart_of_read_of_load (hread : d.read p = .ok bytes) (hload : (load p d).1 = .ok (some s)) :
    Apart p d := by
  obtain ⟨place, modified, hplace, -⟩ := exists_file_of_read hread
  apply apart_of_load _ hload
  intro place' hleads
  rw [hleads.unique hplace.1]
  exact hplace.2

end Snapshot

/-! ### Saves that fail -/

namespace Trouble

open OnDisk Snapshot

variable {p : Path} {place : List String} {d : Disk}

section

variable {bytes : ByteArray} (hread : d.read p = .ok bytes)

include hread

/-- A draft that stays is beside the file. -/
theorem undisturbed_giveUp (t : Trouble) (dir : Path) {d' : Disk} (h : Undisturbed p d d') :
    Undisturbed p d (t.giveUp dir d') := by
  rw [giveUp]
  split
  · next content above children _ hfind =>
    split
    · next hfree =>
      have hdir : d'.root.at? above = some (.dir children) :=
        (find_eq_ok_iff_leadsTo.1 hfind).2.symm
      have hnone : d'.root.at? (above ++ [t.draft]) = none := by
        rw [Entry.at?_concat_of_dir hdir]
        exact Option.isNone_iff_eq_none.1 hfree
      have hdirs : d'.root.DirsTo (above ++ [t.draft]) :=
        Entry.dirsTo_concat (Entry.isDirAt_iff.2 ⟨children, hdir⟩) t.draft
      have hleaf : d'.root.isDirAt (above ++ [t.draft]) = false := by rw [Entry.isDirAt, hnone]; rfl
      have hlink : d'.root.isLinkAt (above ++ [t.draft]) = false := by
        rw [Entry.isLinkAt, hnone]; rfl
      refine h.step (sameOff_put hdirs hleaf hlink content d'.now) ?_
      -- there is nothing at the place of the draft, and there is a file where the path leads
      intro hplace
      obtain ⟨place, modified, hplace', hfile⟩ := exists_file_of_read (h.read_eq hread)
      rw [hplace'.1.unique hplace.1, hnone] at hfile
      cases hfile
    · exact h
  · exact h

theorem undisturbed_atomicWrite (t : Trouble) (content : ByteArray) :
    Leaves (Undisturbed p d) (t.atomicWrite p content) (fun _ => True) (Undisturbed p d) := by
  have hdir : Leaves (Undisturbed p d) (t.ensureDir (dirOf p)) (Undisturbed p d)
      (Undisturbed p d) := by
    apply Leaves.of_eq
    intro d' h
    obtain ⟨place, modified, hplace, -⟩ := exists_file_of_read (h.read_eq hread)
    exact t.ensureDir_dirOf hplace
  have hcheck : ∀ step context,
      Leaves (Undisturbed p d) (within context (ofIo (t.attempt step (pure ()))))
        (Undisturbed p d) (Undisturbed p d) :=
    fun step context => ((Leaves.pure ()).attempt t step).ofIo.within context
  have hdraft : Leaves (Undisturbed p d) (t.makeDraft p) (Undisturbed p d) (Undisturbed p d) := by
    refine Leaves.attempt (.change fun d' d'' h hmade => ?_) t .makeDraft
    cases hrefusal : t.draftRefusal? p d' with
    | none =>
      rw [hrefusal] at hmade
      obtain rfl := Except.ok.inj hmade
      exact h
    | some e => rw [hrefusal] at hmade; cases hmade
  -- only the last step touches the file, and nothing fails after it
  have hmove : Leaves (Undisturbed p d) (change (·.replace p content))
      (fun _ => True) (Undisturbed p d) :=
    .change fun _ _ _ _ => trivial
  rw [atomicWrite]
  refine hdir.bind fun _ => ?_
  refine (hdraft.ofIo.within _).bind fun _ => ?_
  refine Leaves.discarding ?_ t _ fun d' => undisturbed_giveUp hread t _
  refine (hcheck .fillDraft _).bind fun _ => ?_
  refine (hcheck .syncDraft _).bind fun _ => ?_
  exact (hmove.attempt t .moveDraft).ofIo.within _

variable (hseparate : Separate p d)

include hseparate

omit hread in
/-- The lock file is emptied, which is not the file. -/
theorem undisturbed_truncate {d' d'' : Disk} (h : Undisturbed p d d')
    (htruncate : d'.truncate (lockPath p) = .ok d'') : Undisturbed p d d'' := by
  obtain ⟨opened, hopened, rfl⟩ := exists_filePlace_of_write htruncate
  refine h.step (hopened.sameOff_put .empty d'.now) fun hplace => ?_
  exact hseparate opened ((h.filePlace opened).2 hplace) ((h.lockPlace opened).2 hopened)

theorem undisturbed_lock (t : Trouble) :
    Leaves (Undisturbed p d) (t.lock p) (Undisturbed p d) (Undisturbed p d) := by
  have hdir : Leaves (Undisturbed p d) (t.ensureParentDir (lockPath p)) (Undisturbed p d)
      (Undisturbed p d) := by
    apply Leaves.of_eq
    intro d' h
    obtain ⟨place, modified, hplace, -⟩ := exists_file_of_read (h.read_eq hread)
    exact t.ensureParentDir_lockPath hplace
  have hopen : Leaves (Undisturbed p d) (change (·.truncate (lockPath p))) (Undisturbed p d)
      (Undisturbed p d) :=
    .change fun _ _ h => undisturbed_truncate hseparate h
  rw [lock]
  refine hdir.bind fun _ => ?_
  refine ((hopen.attempt t .openLock).ofIo.within _).bind fun _ => ?_
  refine (((Leaves.pure ()).attempt t .takeLock).ofIo.within _).bind fun _ => ?_
  exact .pure _

/-- **A save that fails disturbs no file that is not its own lock file**, at whichever step it is
refused. -/
theorem undisturbed_save (t : Trouble) (s : Snapshot) :
    Leaves (Undisturbed p d) (t.save s p) (fun _ => True) (Undisturbed p d) := by
  have hencode : Leaves (Undisturbed p d) (t.encode s p) (Undisturbed p d) (Undisturbed p d) := by
    refine ⟨fun d' h => ?_⟩
    rw [encode]
    cases t.refusal? .encode <;> exact h
  rw [save]
  refine hencode.bind fun content => ?_
  refine (undisturbed_lock hread hseparate t).bind fun _ => ?_
  exact (undisturbed_atomicWrite hread t content).within _

/-- So it keeps the bytes of the file. -/
theorem read_of_save_error {t : Trouble} {s : Snapshot} {d' : Disk} {f : Failure}
    (h : t.save s p d = (.error f, d')) : d'.read p = .ok bytes :=
  ((undisturbed_save hread hseparate t s).of_error (.refl p d) h).read_eq hread

end

/-- A record that is loaded before a save that fails is loaded after it. -/
theorem load_of_save_error {t : Trouble} {s loaded : Snapshot} {bytes : ByteArray} {d' : Disk}
    {f : Failure} (hread : d.read p = .ok bytes) (hload : (load p d).1 = .ok (some loaded))
    (h : t.save s p d = (.error f, d')) : (load p d').1 = .ok (some loaded) := by
  have hapart := apart_of_read_of_load hread hload
  have hsame := (undisturbed_save hread hapart.separate t s).of_error (.refl p d) h
  rw [(hsame.apart hapart).load_eq (hsame.read_eq hread), ← hapart.load_eq hread, hload]

end Trouble

end ModuleAtlas
