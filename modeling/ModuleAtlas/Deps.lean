/-!
# Declared dependencies

The specifiers that one source file declares, in three lists.  The order of each list is that of the
source, and the first list keeps repetitions, since its entries are arguments by position.

## Main definitions

* `Deps` — the three lists.
* `addNew` — appending what is not there yet.
-/

namespace ModuleAtlas

/-- The dependency specifiers that a source file declares. -/
structure Deps where
  /-- The specifiers of the module's own definition, in declaration order. -/
  define : List String := []
  /-- The specifiers that the module requires as a list while it runs. -/
  require : List String := []
  /-- The specifiers that the module requires one at a time. -/
  object : List String := []
  deriving DecidableEq, Repr, Inhabited

/-- Whether nothing is declared. -/
def Deps.isEmpty (d : Deps) : Bool := d.define.isEmpty && d.require.isEmpty && d.object.isEmpty

/-- The list with `a` at its end, unless it holds `a` already. -/
def addNew {α : Type} [BEq α] (l : List α) (a : α) : List α := if l.contains a then l else l ++ [a]

@[simp] theorem addNew_nil {α : Type} [BEq α] (a : α) : addNew [] a = [a] := rfl

theorem Deps.isEmpty_iff {d : Deps} : d.isEmpty = true ↔ d = {} := by
  cases d
  simp [Deps.isEmpty, and_assoc]

end ModuleAtlas
