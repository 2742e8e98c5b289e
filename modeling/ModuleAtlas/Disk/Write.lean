import ModuleAtlas.Disk.Change
import ModuleAtlas.Text.Quoted

/-!
# Whole files and lock files

A file is replaced as a whole, by way of a draft beside it that takes its name when it is complete,
and a file is locked by making the lock file beside it.  These are steps that a disk may refuse,
because a path cannot be followed or used.  A system has more reasons to refuse than that: it runs
out of room or of handles, denies access, or cannot lock.  So each step is taken under trouble,
which says what is refused beside what the disk refuses; the plain actions are those without any.

A draft that is given up is removed; if that is refused as well then it stays under its own name.

## Main definitions

* `WriteStep`, `Trouble` — the steps, and what goes wrong beside what the disk refuses.
* `Trouble.ensureDir`, `Trouble.ensureParentDir` — directories.
* `Trouble.lock`, `Trouble.atomicWrite` — lock files and whole files.
* `createDirs`, `ensureDir`, `ensureParentDir`, `lock`, `atomicWrite` — the same without trouble.
-/

namespace ModuleAtlas

open OnDisk Disk

/-! ### Steps and trouble -/

/-- The steps in which a record is written to a file. -/
inductive WriteStep where
  /-- It is put into bytes. -/
  | encode
  /-- A directory is made. -/
  | makeDir (p : Path)
  /-- The lock file is opened, and emptied or made. -/
  | openLock
  /-- It is locked. -/
  | takeLock
  /-- A draft is made beside the file. -/
  | makeDraft
  /-- It gets the bytes. -/
  | fillDraft
  /-- It is brought to the disk. -/
  | syncDraft
  /-- It takes the name of the file. -/
  | moveDraft
  deriving DecidableEq

/-- What goes wrong beside what a disk refuses. -/
structure Trouble where
  /-- The refusal of a step, if it is refused. -/
  refusal? : WriteStep → Option IoError := fun _ => none
  /-- The name of the draft.  The letters at its end are made up anew for each draft. -/
  draft : String := ".tmpXXXXXX"
  /-- What the draft holds when it is given up, if it cannot be removed. -/
  leftover : Option ByteArray := none

namespace Trouble

/-- No trouble. -/
def calm : Trouble := {}

/-- A step that may be refused, which leaves the disk. -/
def attempt {α : Type} (t : Trouble) (step : WriteStep) (act : OnDisk IoError α) :
    OnDisk IoError α := fun d =>
  match t.refusal? step with
  | some e => (.error e, d)
  | none => act d

/-! ### Directories -/

/-- The disk with a new directory, unless that is refused. -/
def mkdir (t : Trouble) (d : Disk) (p : Path) : Except IoError Disk :=
  match t.refusal? (.makeDir p) with
  | some e => .error e
  | none => d.mkdir p

/-- Makes a directory and the missing ones above it. -/
def createDirs (t : Trouble) (p : Path) : OnDisk IoError Unit :=
  createFirst t.mkdir (chain (p.pieces.length + 1) p)

/-- Makes sure that there is a directory at a path. -/
def ensureDir (t : Trouble) (p : Path) : OnDisk Failure Unit := do
  if ← look (·.exists? p) then
    if !(← look (·.isDir p)) then throw (.ofMessage s!"Path exists but is not a directory: {p}")
  else
    within s!"Failed to create directory: {p}\n\nCheck directory permissions and path validity"
      (ofIo (t.createDirs p))

/-- Makes sure that there is the directory of a file. -/
def ensureParentDir (t : Trouble) (p : Path) : OnDisk Failure Unit :=
  match p.parent with
  | some q => t.ensureDir q
  | none => pure ()

/-! ### Lock files -/

/-- Takes the lock that guards a file, and returns the path of the lock file. -/
def lock (t : Trouble) (target : Path) : OnDisk Failure Path := do
  let p := lockPath target
  t.ensureParentDir p
  within s!"Failed to open lock file: {p}" (ofIo (t.attempt .openLock (change (·.truncate p))))
  within s!"Failed to acquire lock: {p}" (ofIo (t.attempt .takeLock (pure ())))
  return p

/-! ### Whole files -/

/-- The path of the draft of a file, which starts at the root so that it does not depend on the
working directory later on. -/
def draftPath (t : Trouble) (p : Path) (d : Disk) : Path :=
  (d.cwdPath.join (dirOf p)).join ⟨t.draft⟩

/-- Why no draft can be made for a file, if its path is too long.  The refusal tells the path. -/
def draftRefusal? (t : Trouble) (p : Path) (d : Disk) : Option IoError :=
  if (t.draftPath p d).isLong then
    some ⟨IoError.nameTooLong.kind,
      s!"{IoError.nameTooLong.text} at path {Text.quoted (t.draftPath p d).text}"⟩
  else none

/-- Makes a draft in the directory of a file.  It has a name that was free, so that it is not told
apart from the file that it becomes. -/
def makeDraft (t : Trouble) (p : Path) : OnDisk IoError Unit :=
  t.attempt .makeDraft (change fun d => (t.draftRefusal? p d).elim (.ok d) .error)

/-- The disk after a draft was given up in a directory: it stays there under a name that was free,
if it cannot be removed. -/
def giveUp (t : Trouble) (dir : Path) (d : Disk) : Disk :=
  match t.leftover, d.find dir with
  | some bytes, .ok ⟨place, some (.dir children)⟩ =>
    if (Ordered.lookup t.draft children).isNone then d.put (place ++ [t.draft]) (.file bytes d.now)
    else d
  | _, _ => d

/-- An action that gives up the draft in a directory if it fails. -/
def discarding (t : Trouble) (dir : Path) (act : OnDisk Failure Unit) :
    OnDisk Failure Unit := fun d =>
  match act d with
  | (.ok u, d) => (.ok u, d)
  | (.error f, d) => (.error f, t.giveUp dir d)

/-- Replaces a file as a whole, by way of a draft beside it, so that readers see its old or its new
bytes. -/
def atomicWrite (t : Trouble) (p : Path) (bytes : ByteArray) : OnDisk Failure Unit := do
  t.ensureDir (dirOf p)
  within s!"Failed to create temp file in {dirOf p}" (ofIo (t.makeDraft p))
  t.discarding (dirOf p) do
    within s!"Failed to write temp file for {p}" (ofIo (t.attempt .fillDraft (pure ())))
    within "Failed to sync temp file to disk" (ofIo (t.attempt .syncDraft (pure ())))
    within s!"Failed to replace {p}" (ofIo (t.attempt .moveDraft (change (·.replace p bytes))))

end Trouble

/-! ### Without trouble -/

/-- Makes a directory and the missing ones above it. -/
def createDirs (p : Path) : OnDisk IoError Unit := Trouble.calm.createDirs p

/-- Makes sure that there is a directory at a path. -/
def ensureDir (p : Path) : OnDisk Failure Unit := Trouble.calm.ensureDir p

/-- Makes sure that there is the directory of a file. -/
def ensureParentDir (p : Path) : OnDisk Failure Unit := Trouble.calm.ensureParentDir p

/-- Takes the lock that guards a file, and returns the path of the lock file. -/
def lock (target : Path) : OnDisk Failure Path := Trouble.calm.lock target

/-- Replaces a file as a whole. -/
def atomicWrite (p : Path) (bytes : ByteArray) : OnDisk Failure Unit :=
  Trouble.calm.atomicWrite p bytes

namespace Trouble

variable {α : Type}

/-- A step that can only be refused does nothing if it is not. -/
@[simp] theorem attempt_calm (step : WriteStep) (act : OnDisk IoError α) :
    calm.attempt step act = act := rfl

@[simp] theorem within_ofIo_pure (context : String) (a : α) :
    within context (ofIo (pure a)) = pure a := rfl

theorem discarding_calm (dir : Path) (act : OnDisk Failure Unit) :
    calm.discarding dir act = act := by
  funext d
  rw [discarding]
  split
  · next u after h => exact h.symm
  · next f after h => exact h.symm

/-- Whether a draft can be made depends on the working directory only. -/
theorem draftRefusal?_eq {d d' : Disk} (hcwd : d.cwd = d'.cwd) (t : Trouble) (p : Path) :
    t.draftRefusal? p d = t.draftRefusal? p d' := by
  have hpath : t.draftPath p d = t.draftPath p d' := by
    rw [draftPath, draftPath, cwdPath, cwdPath, hcwd]
  rw [draftRefusal?, draftRefusal?, hpath]

@[simp] theorem createDirs_empty (t : Trouble) (d : Disk) : t.createDirs ⟨""⟩ d = (.ok (), d) := by
  simp [createDirs, chain, createFirst]
  rfl

end Trouble

end ModuleAtlas
