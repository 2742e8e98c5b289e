import ModuleAtlas.Namespace.View

/-!
# Closure of requests

A request names modules by their ids.  Its closure lists these modules and all that their
definitions depend on, depth first, each module once and before what it depends on, in declaration
order.  A specifier that leads to no source file is noted as dangling, once for each module that
declares it.

## Main definitions

* `Dangling`, `Closure` — the result.
* `Pending` — a module that is still to be visited.
* `Namespace.visit` — the traversal with its pending modules.
* `Namespace.expand` — the closure of a request.
-/

namespace ModuleAtlas

/-- A specifier that leads to no source file. -/
structure Dangling where
  /-- The module that declares it; nothing for a requested module. -/
  referrer : Option String
  /-- The specifier as written. -/
  specifier : String
  deriving DecidableEq, Repr

/-- The modules that a request needs. -/
structure Closure where
  /-- The ids of the modules, in the order in which they were met. -/
  modules : List String := []
  /-- The specifiers that lead to no source file, in the order in which they were met. -/
  dangling : List Dangling := []
  deriving DecidableEq, Repr

/-- A module that is to be visited. -/
structure Pending where
  /-- The specifier that names it, and who declares it. -/
  link : Dangling
  /-- Its id. -/
  id : String

namespace Pending

/-- The pending visit of a requested module. -/
def ofRequest (id : String) : Pending := ⟨⟨none, id⟩, normalizeId id⟩

/-- The pending visit of a module that the module `referrer` depends on. -/
def ofSpecifier (referrer specifier : String) : Pending :=
  ⟨⟨some referrer, specifier⟩, resolveSpecifier referrer specifier⟩

end Pending

namespace Namespace

/-- The specifiers in the definition of a module; none if no source file has that id. -/
def definition? (ns : Namespace) (id : String) : Except Fault (Option (List String)) :=
  match ns.resolve id with
  | .error f => .error f
  | .ok none => .ok none
  | .ok (some v) => v.node?.map fun n => (n.filter Node.isFile).map fun n => n.deps.define

/-- Visits pending modules and what they depend on, in at most `steps` visits. -/
def visit (ns : Namespace) : Nat → List Pending → Closure → Except Fault Closure
  | _, [], c => .ok c
  | 0, _ :: _, _ => .error .endless
  | steps + 1, p :: rest, c =>
    if p.id ∈ c.modules then ns.visit steps rest c
    else
      match ns.definition? p.id with
      | .error f => .error f
      | .ok none => ns.visit steps rest { c with dangling := addNew c.dangling p.link }
      | .ok (some define) =>
        let met := { c with modules := c.modules ++ [p.id] }
        let next := (define.map (.ofSpecifier p.id)).filter fun q => q.id ∉ met.modules
        ns.visit steps (next ++ rest) met

/-- The number of specifiers in all definitions of a tree. -/
def definedBy (t : Tree) : Nat := t.nodes.toList.foldr (fun n sum => n.deps.define.length + sum) 0

/-- A bound on the visits of a closure.  Every specifier of a tree is followed from its one module,
so sound trees need as many visits as there are requests and specifiers.  Where links form cycles, a
module has more paths than one, and a closure that is unfinished after `2 ^ 64` further visits is
taken for an endless one. -/
def visitBound (ns : Namespace) (requests : Nat) : Nat :=
  ns.bindings.foldr (fun b sum => definedBy b.2 + sum) (requests + UInt64.size)

/-- The closure of a request. -/
def expand (ns : Namespace) (ids : List String) : Except Fault Closure :=
  ns.visit (ns.visitBound ids.length) (ids.map .ofRequest) {}

@[simp] theorem visit_nil (ns : Namespace) (steps : Nat) (c : Closure) :
    ns.visit steps [] c = .ok c := by
  simp [visit]

@[simp] theorem expand_nil (ns : Namespace) : ns.expand [] = .ok {} := by simp [expand]

end Namespace

end ModuleAtlas
