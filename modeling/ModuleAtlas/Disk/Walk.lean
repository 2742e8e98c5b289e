import ModuleAtlas.Disk.Basic

/-!
# Walking a directory

A walk lists everything below a directory, each directory before its entries and entries in the
order of their names.  A link stands for what it leads to, and is left out if it leads nowhere or
back to a directory that the walk is in.  Items are looked at by the paths that spell the way to
them, so the limits on links and on the length of a path count from the start of the path of the
walk.

## Main definitions

* `Found` — an item of a walk.
* `Position` — where a walk is.
* `walkEntry`, `walkEntries` — the walk, with what to do about links.
* `Disk.walkBehind` — what links stand for, up to a number of links one inside the other.
* `Disk.walk` — the walk of the directory that a path leads to.
-/

namespace ModuleAtlas

/-- A directory or file below the directory of a walk. -/
structure Found where
  /-- The path that the walk looks at. -/
  path : Path
  /-- The names that lead from the directory of the walk to the item. -/
  names : List String
  /-- The bytes and the time of a file, or why it cannot be looked at; nothing for a directory. -/
  file : Option (Except IoError (ByteArray × Millis))

/-- Where a walk is. -/
structure Position where
  /-- The path of the directory. -/
  path : Path
  /-- The names that lead there from the directory of the walk. -/
  names : List String
  /-- The places of the directory and of those through which the walk came, the innermost first. -/
  around : List (List String)

namespace Position

/-- The place of the directory of a position. -/
def place (p : Position) : List String := p.around.headD []

/-- The path of an entry of the directory of a position. -/
def pathOf (p : Position) (name : String) : Path := p.path.join ⟨name⟩

/-- The position in the directory `name`, which is at a place. -/
def enter (p : Position) (name : String) (place : List String) : Position :=
  ⟨p.pathOf name, p.names ++ [name], place :: p.around⟩

/-- The directory `name` as an item of the walk. -/
def directory (p : Position) (name : String) : Found := ⟨p.pathOf name, p.names ++ [name], none⟩

/-- The file `name` as an item of the walk. -/
def file (p : Position) (name : String) (content : Except IoError (ByteArray × Millis)) : Found :=
  ⟨p.pathOf name, p.names ++ [name], some content⟩

end Position

mutual

/-- What a walk finds at an entry by the name of `name`, given what it finds at a link.  A directory
whose path is too long shows no entries. -/
def walkEntry (atLink : Position → String → List Found) (pos : Position) (name : String) :
    Entry → List Found
  | .file bytes modified =>
    [pos.file name
      (if (pos.pathOf name).isLong then .error .nameTooLong else .ok (bytes, modified))]
  | .link _ => atLink pos name
  | .dir children =>
    pos.directory name
      :: (if (pos.pathOf name).isLong then []
        else walkEntries atLink (pos.enter name (pos.place ++ [name])) children)

/-- What a walk finds at the entries of a directory. -/
def walkEntries (atLink : Position → String → List Found) (pos : Position) :
    List (String × Entry) → List Found
  | [] => []
  | (name, e) :: rest => walkEntry atLink pos name e ++ walkEntries atLink pos rest

end

namespace Disk

/-- What a walk finds at a link, through at most `links` links one inside the other. -/
def walkBehind (d : Disk) : Nat → Position → String → List Found
  | links, pos, name =>
    match d.find (pos.pathOf name) with
    | .ok ⟨_, some (.file bytes modified)⟩ => [pos.file name (.ok (bytes, modified))]
    | .ok ⟨place, some (.dir children)⟩ =>
      if place ∈ pos.around then []
      else
        match links with
        | 0 => []
        | links + 1 =>
          pos.directory name :: walkEntries (walkBehind d links) (pos.enter name place) children
    | _ => []

/-- What a walk finds below the directory that a path leads to; nothing if it leads to none.  The
path of an item goes through all links on the way to it, so there are no more of them than a path
may have. -/
def walk (d : Disk) (p : Path) : List Found :=
  match d.find p with
  | .ok ⟨place, some (.dir children)⟩ =>
      walkEntries (d.walkBehind linkLimit) ⟨p, [], [place]⟩ children
  | _ => []

end Disk

@[simp] theorem walkEntries_nil (atLink : Position → String → List Found) (pos : Position) :
    walkEntries atLink pos [] = [] := by rw [walkEntries]

end ModuleAtlas
