import ModuleAtlas.Millis
import ModuleAtlas.SortedMap

/-!
# Entries of a file system

A file system is a tree of entries: files with their bytes and time, symbolic links with the path
they hold, and directories with their entries in the order of the names.  A place in it is the list
of the names that lead there from the top.

## Main definitions

* `Entry` — files, links and directories.
* `Entry.at?`, `Entry.put`, `Entry.remove` — looking at a place and changing what is there.
* `Entry.linkFree` — trees without links.
-/

namespace ModuleAtlas

/-- An entry of a directory. -/
inductive Entry where
  /-- A file with its bytes and the time of its last change. -/
  | file (bytes : ByteArray) (modified : Millis)
  /-- A symbolic link with the path that it holds. -/
  | link (target : String)
  /-- A directory with its entries, in the order of their names. -/
  | dir (children : List (String × Entry))

namespace Entry

instance : Inhabited Entry := ⟨dir []⟩

/-- The directory without entries. -/
def empty : Entry := dir []

/-- The entries of a directory; none for anything else. -/
def children : Entry → List (String × Entry)
  | dir children => children
  | _ => []

/-- Whether it is a directory. -/
def isDir : Entry → Bool
  | dir _ => true
  | _ => false

/-- The entry of a directory by its name. -/
def child? (e : Entry) (name : String) : Option Entry := Ordered.lookup name e.children

/-- The entry at a place below. -/
def at? (e : Entry) (place : List String) : Option Entry := place.foldlM child? e

/-- The tree with `new` at a place, in place of what was there.  Directories on the way are
added. -/
def put (new : Entry) : Entry → List String → Entry
  | _, [] => new
  | dir children, s :: rest =>
    dir (Ordered.bind s (put new ((Ordered.lookup s children).getD empty) rest) children)
  | e, _ :: _ => e

/-- The tree without the entry at a place. -/
def remove : Entry → List String → Entry
  | e, [] => e
  | dir children, [s] => dir (Ordered.unbind s children)
  | dir children, s :: rest =>
    match Ordered.lookup s children with
    | some below => dir (Ordered.bind s (remove below rest) children)
    | none => dir children
  | e, _ :: _ => e

mutual

/-- Whether there is no link in a tree. -/
def linkFree : Entry → Bool
  | file _ _ => true
  | link _ => false
  | dir children => linkFreeAll children

/-- Whether there is no link in trees. -/
def linkFreeAll : List (String × Entry) → Bool
  | [] => true
  | (_, e) :: rest => e.linkFree && linkFreeAll rest

end

@[simp] theorem children_dir (children : List (String × Entry)) :
    (dir children).children = children := rfl

@[simp] theorem at?_nil (e : Entry) : e.at? [] = some e := rfl

@[simp] theorem at?_cons (e : Entry) (s : String) (rest : List String) :
    e.at? (s :: rest) = (e.child? s).bind fun c => c.at? rest := by
  simp [at?, List.foldlM_cons]

@[simp] theorem put_nil (new e : Entry) : put new e [] = new := by cases e <;> rfl

end Entry

end ModuleAtlas
