import ModuleAtlas.Path.Basic

/-!
# Normal form of paths

The normal form resolves `.` and `..` by the spelling alone: `.` vanishes, `..` cancels the name
before it and vanishes at the root.  What is left of `..` are those at the start of a relative path.

## Main definitions

* `settle` — one component put on the place reached so far, the innermost component first.
* `Path.normal` — the normal form.
-/

namespace ModuleAtlas

/-- Moves on from a place, given from its innermost component outwards. -/
def settle : List Component → Component → List Component
  | place, .current => place
  | .name _ :: place, .parent => place
  | .root :: place, .parent => .root :: place
  | place, .parent => .parent :: place
  | place, c => c :: place

/-- The components of the place that a list of components leads to. -/
def normalComponents (l : List Component) : List Component := (l.foldl settle []).reverse

/-- The normal form of a path. -/
def Path.normal (p : Path) : Path := .ofComponents (normalComponents p.components)

@[simp] theorem settle_current (place : List Component) : settle place .current = place := by
  unfold settle; split <;> simp_all

@[simp] theorem settle_name (place : List Component) (s : String) :
    settle place (.name s) = .name s :: place := by
  unfold settle; split <;> simp_all

@[simp] theorem settle_root (place : List Component) : settle place .root = .root :: place := by
  unfold settle; split <;> simp_all

@[simp] theorem settle_name_parent (s : String) (place : List Component) :
    settle (.name s :: place) .parent = place := rfl

@[simp] theorem settle_root_parent (place : List Component) :
    settle (.root :: place) .parent = .root :: place := rfl

@[simp] theorem normalComponents_nil : normalComponents [] = [] := rfl

end ModuleAtlas
