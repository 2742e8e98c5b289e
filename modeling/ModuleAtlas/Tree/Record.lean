import ModuleAtlas.Json.Record
import ModuleAtlas.Tree.Basic

/-!
# Written form of trees

A tree is written as the list of its nodes, and a node as an object without the fields that are
absent or empty; only the name and the dependencies are always there.  Reading accepts any links,
and lets the last of several children of one name stand.

## Main definitions

* `Deps.toJson`, `Node.toJson`, `Tree.toJson` — writing.
* `Deps.ofJson`, `Node.ofJson`, `Tree.ofJson` — reading.
-/

namespace ModuleAtlas

/-! ### Dependencies -/

/-- A list of specifiers as a member of a record, left out when it is empty. -/
def specifierMember (name : String) (l : List String) : List (String × Json) :=
  if l.isEmpty then [] else [(name, .strings l)]

/-- The written form of dependencies. -/
def Deps.toJson (d : Deps) : Json :=
  .obj (specifierMember "define" d.define ++ specifierMember "require" d.require
    ++ specifierMember "object" d.object)

/-- The dependencies that a value denotes. -/
def Deps.ofJson (j : Json) : Option Deps :=
  let read := Json.orDefault [] (Json.list Json.text)
  match j.record ["define", "require", "object"] with
  | some [define, require, object] => do
    return { define := ← read define, require := ← read require, object := ← read object }
  | _ => none

/-! ### Times -/

/-- The written form of a time. -/
def timeJson (m : Millis) : Json := .int m.toInt

/-- The time that a value denotes. -/
def timeOfJson (j : Json) : Option Millis :=
  (Json.intBetween Millis.least (Millis.greatest + 1) j).map Int64.ofInt

/-! ### Nodes and trees -/

/-- The number of places that a written table can name. -/
def placeLimit : Nat := UInt64.size

/-- An optional member of a record, left out when it is absent. -/
def optionalMember {α : Type} (name : String) (write : α → Json) : Option α → List (String × Json)
  | none => []
  | some a => [(name, write a)]

/-- The written form of the children of a node. -/
def childrenJson (children : SortedMap String Nat) : Json :=
  .obj (children.toList.map fun p => (p.1, .int p.2))

/-- The children that a value denotes. -/
def childrenOfJson (j : Json) : Option (SortedMap String Nat) :=
  (Json.entries (Json.natBelow placeLimit) j).map .ofList

/-- The written form of a node. -/
def Node.toJson (n : Node) : Json :=
  .obj ([("name", .str n.name)]
    ++ optionalMember "parent" (fun (p : Nat) => .int p) n.parent
    ++ (if n.children.isEmpty then [] else [("children", childrenJson n.children)])
    ++ [("deps", n.deps.toJson)]
    ++ optionalMember "last_modified" timeJson n.modified
    ++ optionalMember "last_modified_dep" timeJson n.depsModified)

/-- The names of the fields of a node, in their order. -/
def nodeFields : List String :=
  ["name", "parent", "children", "deps", "last_modified", "last_modified_dep"]

/-- The node that a value denotes. -/
def Node.ofJson (j : Json) : Option Node :=
  match j.record nodeFields with
  | some [name, parent, children, deps, modified, depsModified] => do
    return {
      name := ← Json.required Json.text name
      parent := ← Json.optional (Json.natBelow placeLimit) parent
      children := ← Json.orDefault ∅ childrenOfJson children
      deps := ← Json.orDefault {} Deps.ofJson deps
      modified := ← Json.optional timeOfJson modified
      depsModified := ← Json.optional timeOfJson depsModified }
  | _ => none

/-- The written form of a tree. -/
def Tree.toJson (t : Tree) : Json := .obj [("nodes", .arr (t.nodes.toList.map Node.toJson))]

/-- The tree that a value denotes. -/
def Tree.ofJson (j : Json) : Option Tree :=
  match j.record ["nodes"] with
  | some [nodes] => (Json.required (Json.list Node.ofJson) nodes).map fun l => ⟨l.toArray⟩
  | _ => none

@[simp] theorem specifierMember_nil (name : String) : specifierMember name [] = [] := rfl

@[simp] theorem optionalMember_none {α : Type} (name : String) (write : α → Json) :
    optionalMember name write none = [] := rfl

@[simp] theorem Deps.toJson_empty : Deps.toJson {} = .obj [] := rfl

end ModuleAtlas
