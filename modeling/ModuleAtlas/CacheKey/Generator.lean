import ModuleAtlas.CacheKey.Conditions
import ModuleAtlas.Error

/-!
# Cache key generators

A generator covers one dimension of a cache key by the set of determinants on which a build depends.
It is provisional while the build has not settled them.  Without a set the dimension is not
constrained, which is less than any set, the empty one included.

Generators of one kind combine to the least one that covers both.  A settled generator covers every
provisional one, and two provisional ones only combine if they are equal.

## Main definitions

* `Kind`, `Generator` — dimensions and generators.
* `Generator.combine` — the combination of two generators.
* `Generator.fragment` — the part of a cache key for given conditions.
-/

namespace ModuleAtlas.CacheKey

/-! ### Kinds -/

/-- A dimension of cache keys. -/
inductive Kind where
  /-- Feature flags. -/
  | feature
  /-- Requested locales. -/
  | locale
  /-- A named dimension with text values. -/
  | custom (name : String)
  deriving DecidableEq, Repr

namespace Kind

/-- The name of a dimension, as it is printed. -/
def text : Kind → String
  | feature => "feature"
  | locale => "locale"
  | custom name => name

/-- The place of a kind among the others. -/
def rank : Kind → Nat
  | feature => 0
  | locale => 1
  | custom _ => 2

/-- What tells custom dimensions apart. -/
def label : Kind → String
  | custom name => name
  | _ => ""

/-- Features come before locales, and both before custom dimensions, which go by name. -/
instance : Ord Kind := ⟨compareLex (compareOn rank) (compareOn label)⟩

instance : Std.TransOrd Kind :=
  inferInstanceAs (Std.TransCmp (compareLex (compareOn rank) (compareOn label)))

instance : Std.LawfulEqOrd Kind where
  eq_of_compare {a b} h := by
    have h : compareLex (compareOn rank) (compareOn label) a b = .eq := h
    simp only [compareLex, compareOn, Ordering.then_eq_eq, Std.LawfulEqOrd.compare_eq_iff_eq] at h
    cases a <;> cases b <;> simp_all [rank, label]

end Kind

/-! ### Generators -/

/-- A generator of one dimension of a cache key. -/
structure Generator where
  /-- The dimension. -/
  kind : Kind
  /-- Whether the determinants may still change. -/
  provisional : Bool := false
  /-- The determinants, or `none` if the dimension is not constrained. -/
  determinants : Option (SortedSet String)
  deriving DecidableEq

namespace Generator

/-- The settled generator over the members of a list, or over no set at all. -/
def settled (kind : Kind) (determinants : Option (List String)) : Generator :=
  { kind, determinants := determinants.map .ofList }

/-- The provisional generator over the members of a list, or over no set at all. -/
def tentative (kind : Kind) (determinants : Option (List String)) : Generator :=
  { kind, provisional := true, determinants := determinants.map .ofList }

/-- The settled generator without constraint. -/
def unconstrained (kind : Kind) : Generator := { kind, determinants := none }

/-- The generator settled on the determinants that were observed. -/
def settle (g : Generator) (determinants : Option (List String)) : Generator :=
  settled g.kind determinants

/-- The combination of two settled sets of determinants, one of them if it covers the other. -/
def join (s t : Option (SortedSet String)) : Option (SortedSet String) :=
  match s, t with
  | none, t => t
  | s, none => s
  | some s, some t => if t.subset s then some s else if s.subset t then some t else some (s.union t)

/-- The generator that covers both `a` and `b`. -/
def combine (a b : Generator) : Except Error Generator :=
  if a = b then .ok a
  else if a.kind ≠ b.kind then .error (.kindMismatch a.kind.text b.kind.text)
  else
    match a.provisional, b.provisional with
    | true, true => .error (.provisionalConflict a.kind.text)
    | true, false => .ok b
    | false, true => .ok a
    | false, false => .ok { a with determinants := join a.determinants b.determinants }

/-- The report on a combination that its caller should have ruled out. -/
def combineReport (e : Error) : String := s!"invalid cache key combination: {e.message}"

/-- What a determinant adds to the key under some conditions, if anything. -/
def part? (kind : Kind) (conditions : Conditions) (determinant : String) : Option String :=
  match kind with
  | .feature =>
    (conditions.features.find? determinant).map fun on =>
      if on then determinant else "!" ++ determinant
  | .locale => if conditions.hasLocale determinant then some determinant else none
  | .custom _ => (conditions.values.find? determinant).map fun value => determinant ++ "=" ++ value

/-- The part of the cache key for this dimension, unless the generator is provisional. -/
def fragment (g : Generator) (conditions : Conditions) : Option String :=
  if g.provisional then none
  else
    match g.determinants with
    | none => some g.kind.text
    | some set =>
      let parts := set.toList.filterMap (part? g.kind conditions)
      some (g.kind.text ++ "\x7b" ++ ",".intercalate parts ++ "\x7d")

@[simp] theorem join_none_left (t : Option (SortedSet String)) : join none t = t := by
  cases t <;> rfl

@[simp] theorem join_none_right (s : Option (SortedSet String)) : join s none = s := by
  cases s <;> rfl

@[simp] theorem combine_self (a : Generator) : a.combine a = .ok a := by simp [combine]

theorem fragment_of_provisional {g : Generator} (h : g.provisional = true)
    (conditions : Conditions) : g.fragment conditions = none := by simp [fragment, h]

end Generator

end ModuleAtlas.CacheKey
