import ModuleAtlas.Disk.Basic
import ModuleAtlas.Path.Lock

/-!
# Changes of a disk

Directories are made, files are written, emptied and replaced, links are made and entries are
removed.  A change that is refused leaves the disk; an action of several changes that fails keeps
what it has done so far.

## Main definitions

* `OnDisk` — actions on a disk that may fail.
* `Disk.mkdir`, `Disk.write`, `Disk.replace`, `Disk.linkTo`, `Disk.remove` — the single changes.
* `createFirst`, `chain` — directories that are made together with those above them.
* `dirOf` — the directory of a file.
-/

namespace ModuleAtlas

/-- An action on a disk, whose changes stay when it fails. -/
abbrev OnDisk (ε α : Type) : Type := ExceptT ε (StateM Disk) α

namespace OnDisk

variable {ε α : Type}

/-- The action that looks at the disk. -/
def look (f : Disk → α) : OnDisk ε α := fun d => (.ok (f d), d)

/-- The action that changes the disk, or fails and leaves it. -/
def change (f : Disk → Except ε Disk) : OnDisk ε Unit := fun d =>
  match f d with
  | .ok d => (.ok (), d)
  | .error e => (.error e, d)

/-- The action whose failures are told as part of an activity. -/
def within (context : String) (act : OnDisk Failure α) : OnDisk Failure α := fun d =>
  match act d with
  | (.ok a, d) => (.ok a, d)
  | (.error f, d) => (.error (f.within context), d)

/-- The action whose refusals by the file system are failures. -/
def ofIo (act : OnDisk IoError α) : OnDisk Failure α := fun d =>
  match act d with
  | (.ok a, d) => (.ok a, d)
  | (.error e, d) => (.error (.ofIo e), d)

@[simp] theorem look_apply (f : Disk → α) (d : Disk) :
    (look f : OnDisk ε α) d = (.ok (f d), d) := rfl

end OnDisk

namespace Disk

/-! ### Single changes -/

/-- The names in a path, without regard to a slash at the end. -/
def plainNames (p : Path) : List String := p.pieces.filter (· ≠ "")

/-- The disk with an entry at a place. -/
def put (d : Disk) (place : List String) (e : Entry) : Disk :=
  { d with root := .put e d.root place }

/-- The disk with a new directory, in a directory that is there. -/
def mkdir (d : Disk) (p : Path) : Except IoError Disk :=
  match d.findVia false p (plainNames p) with
  | .error e => .error e
  | .ok ⟨place, none⟩ => .ok (d.put place .empty)
  | .ok ⟨_, some _⟩ => .error .alreadyExists

/-- The disk with new bytes and a time for the file that a path leads to, which is made if it is
missing. -/
def write (d : Disk) (p : Path) (bytes : ByteArray) (modified : Millis) : Except IoError Disk :=
  match d.find p with
  | .error e => .error e
  | .ok ⟨_, some (.dir _)⟩ => .error .isADirectory
  | .ok ⟨place, _⟩ => .ok (d.put place (.file bytes modified))

/-- The disk with the file that a path leads to made empty, or made. -/
def truncate (d : Disk) (p : Path) : Except IoError Disk := d.write p .empty d.now

/-- What is wrong with a path that a new link is to hold. -/
def targetRefusal? (target : String) : Option IoError :=
  if target = "" then some .notFound
  else if target.toList.contains '\x00' then some .nulInPath
  else if (Path.mk target).isLong then some .nameTooLong
  else none

/-- The disk with a new link, in a directory that is there. -/
def linkTo (d : Disk) (p : Path) (target : String) : Except IoError Disk :=
  match targetRefusal? target with
  | some e => .error (if p.text.toList.contains '\x00' then .nulInPath else e)
  | none =>
    match d.findVia false p (plainNames p) with
    | .error e => .error e
    | .ok ⟨place, none⟩ =>
      if p.pieces.getLast? = some "" then .error .notFound else .ok (d.put place (.link target))
    | .ok ⟨_, some _⟩ => .error .alreadyExists

/-- The disk without what is at a path, and without what is below it. -/
def remove (d : Disk) (p : Path) : Except IoError Disk :=
  match d.findVia false p (plainNames p) with
  | .error e => .error e
  | .ok ⟨_, none⟩ => .error .notFound
  | .ok ⟨place, some _⟩ => .ok { d with root := d.root.remove place }

/-- The disk with a file moved to a path.  A link there is replaced and not followed, and a
directory is not replaced. -/
def replace (d : Disk) (p : Path) (bytes : ByteArray) : Except IoError Disk :=
  if p.text.toList.contains '\x00' then .error .invalidArgument
  else
    match d.findVia false p (plainNames p) with
    | .error e => .error e
    | .ok ⟨place, entry⟩ =>
      match (plainNames p).getLast? with
      | none | some "." | some ".." => .error .busy
      | some _ =>
        if p.pieces.getLast? = some "" then .error .notADirectory
        else
          match entry with
          | some (.dir _) => .error .isADirectory
          | _ => .ok (d.put place (.file bytes d.now))

end Disk

open OnDisk Disk

/-! ### Directories -/

/-- Makes the first of the given directories, where each of them lies in the next one, by way of
`mkdir`.  One that is missing is made when the one before it turns out to need it. -/
def createFirst (mkdir : Disk → Path → Except IoError Disk) : List Path → OnDisk IoError Unit
  | [] => pure ()
  | p :: above => fun d =>
    match mkdir d p with
    | .ok d => (.ok (), d)
    | .error e =>
      if e.kind = .notFound then
        match createFirst mkdir above d with
        | (.error e, d) => (.error e, d)
        | (.ok _, d) =>
          match mkdir d p with
          | .ok d => (.ok (), d)
          | .error e => (if d.isDir p then .ok () else .error e, d)
      else (if d.isDir p then .ok () else .error e, d)

/-- A path and the directories above it as they are spelt, up to a number of them. -/
def chain : Nat → Path → List Path
  | 0, _ => []
  | bound + 1, p => if p.text = "" then [] else p :: (p.parent.map (chain bound)).getD []

/-- The directory of a file, where the working directory is spelt out. -/
def dirOf (p : Path) : Path :=
  match p.parent with
  | some q => if q.text = "" then ⟨"."⟩ else q
  | none => ⟨"."⟩

end ModuleAtlas
