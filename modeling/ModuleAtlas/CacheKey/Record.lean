import ModuleAtlas.CacheKey.Generator
import ModuleAtlas.Json.Record

/-!
# Written form of cache key generators

A generator is written as an object with its kind and its state.  Kinds without a name are written
as their word, and the state is an object that names it, with the sorted determinants or `null`.

## Main definitions

* `Generator.toJson`, `Generator.ofJson` — writing and reading.
-/

namespace ModuleAtlas.CacheKey

/-- The written form of a kind. -/
def Kind.toJson : Kind → Json
  | feature => .str "feature"
  | locale => .str "locale"
  | custom name => .obj [("custom", .str name)]

/-- The kind that a value denotes. -/
def Kind.ofJson (j : Json) : Option Kind :=
  match j.caseName with
  | some "feature" => some feature
  | some "locale" => some locale
  | _ =>
    match j.caseContent with
    | some ("custom", .str name) => some (custom name)
    | _ => none

namespace Generator

/-- The written form of the determinants. -/
def setJson (determinants : Option (SortedSet String)) : Json :=
  .orNull (fun s => .strings s.toList) determinants

/-- The written form of the state. -/
def stateJson (g : Generator) : Json :=
  .obj [(if g.provisional then "provisional" else "final", setJson g.determinants)]

/-- The written form of a generator. -/
def toJson (g : Generator) : Json := .obj [("kind", g.kind.toJson), ("state", g.stateJson)]

/-- The state that a value denotes: whether it is provisional, and the determinants. -/
def readState (j : Json) : Option (Bool × Option (SortedSet String)) := do
  let (name, content) ← j.caseContent
  let provisional ←
    match name with
    | "provisional" => some true
    | "final" => some false
    | _ => none
  let determinants ← Json.nullable (Json.list Json.text) content
  return (provisional, determinants.map .ofList)

/-- The generator that a value denotes. -/
def ofJson (j : Json) : Option Generator := do
  let fields ← j.record ["kind", "state"]
  match fields with
  | [kind, state] =>
    let kind ← Json.required Kind.ofJson kind
    let (provisional, determinants) ← Json.required readState state
    return { kind, provisional, determinants }
  | _ => none

end Generator

end ModuleAtlas.CacheKey
