import ModuleAtlas.CacheKey.Generator

/-!
# Sets of cache key generators

A key set holds at most one generator for each dimension.  Adding a generator combines it with the
one that is there, and merging two sets either combines all their dimensions or changes nothing.

## Main definitions

* `KeySet`, `KeySet.add`, `KeySet.merge` — the sets and how they grow.
* `KeySet.key` — the cache key for given conditions.
-/

namespace ModuleAtlas.CacheKey

/-- The generators of a build, at most one for each kind. -/
structure KeySet where
  /-- The generators by their kinds. -/
  generators : SortedMap Kind Generator := ∅
  deriving DecidableEq

namespace KeySet

instance : EmptyCollection KeySet := ⟨{}⟩

/-- The generators, in the order of their kinds. -/
def toList (s : KeySet) : List Generator := s.generators.values

/-- The generator of a kind. -/
def get? (s : KeySet) (kind : Kind) : Option Generator := s.generators.find? kind

/-- The number of dimensions. -/
def size (s : KeySet) : Nat := s.generators.size

/-- Whether some generator is provisional. -/
def isProvisional (s : KeySet) : Bool := s.toList.any Generator.provisional

/-- The set in which `g` is combined with the generator of its kind, if there is one. -/
def add (s : KeySet) (g : Generator) : Except Error KeySet :=
  match s.get? g.kind with
  | none => .ok ⟨s.generators.insert g.kind g⟩
  | some h =>
    match h.combine g with
    | .ok combined => .ok ⟨s.generators.insert g.kind combined⟩
    | .error e => .error e

/-- The set after all generators of a list are added, in order. -/
def addAll (s : KeySet) (l : List Generator) : Except Error KeySet := l.foldlM add s

/-- The set in which every generator of `t` is combined with that of `s`. -/
def merge (s t : KeySet) : Except Error KeySet := s.addAll t.toList

/-- The cache key for the given conditions, unless some generator is provisional. -/
def key (s : KeySet) (conditions : Conditions) : Option String :=
  (s.toList.mapM fun g : Generator => g.fragment conditions).map fun fragments =>
    ";".intercalate fragments

@[simp] theorem toList_empty : (∅ : KeySet).toList = [] := rfl

@[simp] theorem get?_empty (kind : Kind) : (∅ : KeySet).get? kind = none := rfl

theorem add_of_get?_eq_none {s : KeySet} {g : Generator} (h : s.get? g.kind = none) :
    s.add g = .ok ⟨s.generators.insert g.kind g⟩ := by simp [add, h]

end KeySet

end ModuleAtlas.CacheKey
