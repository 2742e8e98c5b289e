import ModuleAtlas.Json.Basic
import ModuleAtlas.Namespace.Size
import ModuleAtlas.Namespace.View

/-!
# Outlines of a name space

A name space is shown as a drawing of its positions below the top, one line for each, or as one JSON
value with the top.  Both may stop at a depth.

## Main definitions

* `OutlineRow`, `OutlineRow.text` — a line of the drawing.
* `View.rows`, `Namespace.rows` — the lines below a position, and those of a name space.
* `View.outlineJson`, `Namespace.outlineJson` — the JSON value.
-/

namespace ModuleAtlas

/-- A line of the drawing of a name space. -/
structure OutlineRow where
  /-- What is drawn for the positions above. -/
  indent : String
  /-- Whether no position follows on the same level below the same one. -/
  last : Bool
  /-- The name of the position. -/
  name : String
  /-- The specifiers in the definition of its module. -/
  define : List String
  deriving DecidableEq, Repr

/-- The text of a line. -/
def OutlineRow.text (r : OutlineRow) : String :=
  r.indent ++ (if r.last then "└── " else "├── ") ++ r.name
    ++ (if r.define.isEmpty then "" else " [" ++ ", ".intercalate r.define ++ "]")

/-- Items, each with whether it is the last one. -/
def markLast {α : Type} : List α → List (α × Bool)
  | [] => []
  | [a] => [(a, true)]
  | a :: l => (a, false) :: markLast l

/-- Whether a depth is beyond those to be shown. -/
def isBeyond (limit : Option Nat) (depth : Nat) : Bool :=
  match limit with
  | some n => n ≤ depth
  | none => false

namespace View

/-- The line of a position at a depth and the lines below it, on at most `levels` levels. -/
def rows (limit : Option Nat) : Nat → String → Bool → Nat → View → Except Fault (List OutlineRow)
  | 0, _, _, _, _ => .error .endless
  | levels + 1, indent, last, depth, v =>
    if isBeyond limit depth then .ok []
    else do
      let deps ← v.deps
      let children ← v.children
      let inner := indent ++ (if last then "    " else "│   ")
      let below ← (markLast children).mapM fun c => rows limit levels inner c.2 (depth + 1) c.1
      return ⟨indent, last, v.name, deps.define⟩ :: below.flatten

/-- The JSON value of a position at a depth and of what is below it, on at most `levels` levels. -/
def outlineJson (limit : Option Nat) : Nat → Nat → View → Except Fault Json
  | 0, _, _ => .error .endless
  | levels + 1, depth, v => do
    let below ←
      if isBeyond limit depth then .ok []
      else do (← v.children).mapM (outlineJson limit levels (depth + 1))
    let deps ← v.deps
    let modified ← v.modified
    return .obj
      [("children", .arr below), ("defineDeps", .strings deps.define),
       ("lastModified", .orNull (fun (m : Millis) => .int m.toInt) modified), ("name", .str v.name),
       ("requireDeps", .strings deps.require)]

end View

namespace Namespace

/-- The lines of all positions below the top, down to a depth. -/
def rows (ns : Namespace) (limit : Option Nat) : Except Fault (List OutlineRow) := do
  let children ← ns.view.children
  let below ← (markLast children).mapM fun c => c.1.rows limit (ns.size + 1) "" c.2 0
  return below.flatten

/-- The JSON value of the top, down to a depth. -/
def outlineJson (ns : Namespace) (limit : Option Nat) : Except Fault Json :=
  ns.view.outlineJson limit (ns.size + 2) 0

end Namespace

@[simp] theorem markLast_nil {α : Type} : markLast ([] : List α) = [] := rfl

@[simp] theorem isBeyond_none (depth : Nat) : isBeyond none depth = false := rfl

end ModuleAtlas
