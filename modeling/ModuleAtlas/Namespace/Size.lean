import ModuleAtlas.Namespace.Basic

/-!
# Size of a name space

The number of directories and nodes of a name space.  A way down that meets no position twice is no
longer, since each of its steps enters a further directory or a further node.

## Main definitions

* `Dir.size`, `Namespace.size` — the number of directories and nodes.
-/

namespace ModuleAtlas

namespace Dir

mutual

/-- The number of directories and nodes at and below a directory. -/
def size : Dir → Nat
  | mk mount children => (mount.map Tree.size).getD 0 + sizeOfAll children + 1

/-- The number of directories and nodes at and below directories. -/
def sizeOfAll : List (String × Dir) → Nat
  | [] => 0
  | (_, d) :: rest => d.size + sizeOfAll rest

end

theorem size_pos (d : Dir) : 0 < d.size := by
  cases d
  simp [size]

end Dir

/-- The number of directories and nodes of a name space. -/
def Namespace.size (ns : Namespace) : Nat := ns.root.size

end ModuleAtlas
