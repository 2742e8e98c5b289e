import ModuleAtlas.Path.Basic

/-!
# Lock files

A file is guarded by a lock file beside it, whose name is that of the file with `.lock` added.

## Main definitions

* `lockPath` — the lock file of a file.
-/

namespace ModuleAtlas

/-- The path of the lock file that guards `target`. -/
def lockPath (target : Path) : Path := target.withFileName (target.fileName.getD "" ++ ".lock")

theorem lockPath_of_fileName {p : Path} {s : String} (h : p.fileName = some s) :
    lockPath p = p.withFileName (s ++ ".lock") := by simp [lockPath, h]

end ModuleAtlas
