import ModuleAtlas.Disk.Basic

/-!
# Differences between disks

What has to be done to a disk so that it holds what another one holds: directories to be made and
files to be written, each directory before what is in it.  Nothing is ever removed.

## Main definitions

* `Update` — a directory to be made, or a file to be written.
* `updatesOf`, `Disk.updatesTo` — what has to be done.
-/

namespace ModuleAtlas

/-- A step that brings a disk closer to another one. -/
inductive Update where
  /-- A directory is to be made. -/
  | makeDir (place : List String)
  /-- A file is to be written. -/
  | writeFile (place : List String) (bytes : ByteArray)

mutual

/-- What has to be done so that a place which holds `before` holds an entry. -/
def updatesOf (place : List String) (before : Option Entry) : Entry → List Update
  | .file bytes _ =>
    match before with
    | some (.file old _) => if old = bytes then [] else [.writeFile place bytes]
    | _ => [.writeFile place bytes]
  | .link _ => []
  | .dir children =>
    (if before.any Entry.isDir then [] else [.makeDir place])
      ++ updatesOfAll place (before.getD .empty) children

/-- What has to be done so that a directory which is `before` holds the given entries. -/
def updatesOfAll (place : List String) (before : Entry) : List (String × Entry) → List Update
  | [] => []
  | (name, e) :: rest =>
    updatesOf (place ++ [name]) (before.child? name) e ++ updatesOfAll place before rest

end

/-- What has to be done so that a disk holds what `after` holds. -/
def Disk.updatesTo (before after : Disk) : List Update := updatesOf [] (some before.root) after.root

end ModuleAtlas
