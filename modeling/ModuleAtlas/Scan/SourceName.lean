import ModuleAtlas.Text.Split

/-!
# Names of source files

A source file is a file whose extension is on a list.  Its stem names the module, unless it could
not stand as a segment of a module id.

## Main definitions

* `moduleName` — the module that a file name stands for.
-/

namespace ModuleAtlas

/-- Whether a stem cannot be the name of a module. -/
def isReservedStem (stem : String) : Bool := stem = "" || stem = "." || stem = ".."

/-- The module name of a file: what stands before the last dot, if the rest is one of the
extensions. -/
def moduleName (fileName : String) (extensions : List String) : Option String :=
  match Text.cutLast '.' fileName with
  | some (stem, ext) => if isReservedStem stem || !extensions.contains ext then none else some stem
  | none => none

@[simp] theorem moduleName_nil (fileName : String) : moduleName fileName [] = none := by
  unfold moduleName
  split <;> simp

end ModuleAtlas
