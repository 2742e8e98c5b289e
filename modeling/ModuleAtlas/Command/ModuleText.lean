import ModuleAtlas.Json.Basic
import ModuleAtlas.Namespace.Closure

/-!
# A module on display

What a name space knows about one module: what it declares, its times and children, and the closure
of a request for it.

## Main definitions

* `ModuleFacts`, `Namespace.facts` — what is known about a module.
* `ModuleFacts.lines`, `ModuleFacts.toJson` — as text and as JSON.
-/

namespace ModuleAtlas

/-- What is known about a module. -/
structure ModuleFacts where
  /-- The id as it was asked for. -/
  id : String
  /-- What the module declares. -/
  deps : Deps
  /-- Whether a source file backs the module. -/
  isFile : Bool
  /-- The time of the source file. -/
  modified : Option Millis
  /-- The time of the dependencies. -/
  depsModified : Option Millis
  /-- The names of the children. -/
  children : List String
  /-- The closure of a request for the module. -/
  closure : Closure

/-- What a name space knows about the module at a position, which has the given id. -/
def Namespace.facts (ns : Namespace) (id : String) (v : View) : Except Fault ModuleFacts := do
  return {
    id
    deps := ← v.deps
    isFile := ← v.isFile
    modified := ← v.modified
    depsModified := ← v.depsModified
    children := (← v.childNames).toList
    closure := ← ns.expand [id] }

namespace ModuleFacts

/-- The lines of a list with its label; none for the empty list. -/
def listLines (label : String) (items : List String) : List String :=
  if items.isEmpty then [] else s!"  {label}:" :: items.map fun i => s!"    {i}"

/-- The line on a specifier that leads to no source file. -/
def danglingLine (d : Dangling) : String :=
  let referrer := d.referrer.getD "<request>"
  s!"  unresolved {d.specifier} (from {referrer})"

/-- The lines on a module. -/
def lines (m : ModuleFacts) : List String :=
  m.id :: ((if m.isFile then [] else ["  (directory)"]) ++ listLines "define" m.deps.define
    ++ listLines "require" m.deps.require ++
      (if m.isFile then listLines "closure" m.closure.modules else [])
    ++ m.closure.dangling.map danglingLine)

/-- The written form of a time that may be absent. -/
def timeJson? (m : Option Millis) : Json := .orNull (fun (m : Millis) => .int m.toInt) m

/-- The written form of a specifier that leads to no source file. -/
def danglingJson (d : Dangling) : Json :=
  .obj [("referrer", .orNull .str d.referrer), ("specifier", .str d.specifier)]

/-- The written form. -/
def toJson (m : ModuleFacts) : Json :=
  .obj
    [("children", .strings m.children), ("closure", .strings m.closure.modules),
     ("dangling", .arr (m.closure.dangling.map danglingJson)),
     ("defineDeps", .strings m.deps.define),
     ("lastModified", timeJson? m.modified), ("lastModifiedDep", timeJson? m.depsModified),
     ("module", .str m.id), ("requireDeps", .strings m.deps.require)]

@[simp] theorem listLines_nil (label : String) : listLines label [] = [] := rfl

end ModuleFacts

end ModuleAtlas
