import ModuleAtlas.Json.Basic

/-!
# Reading records from JSON values

A record is written as an object, whose unknown members are skipped and whose known members occur at
most once, or as an array of its fields in their order.  Fields that come at the end of an array may
be left out like members of an object.  Every reader returns `none` for a value of another shape.

## Main definitions

* `Json.record` — the fields of a record by position.
* `Json.required`, `Json.orDefault`, `Json.optional` — fields that must, may, or may as `null`, be
  there.
* `Json.text`, `Json.natBelow`, `Json.intBetween`, `Json.list`, `Json.entries` — the shapes of
  fields.
-/

namespace ModuleAtlas.Json

/-- The value of the only member named `name`, if there is one; refuses a name that occurs twice. -/
def uniqueMember (name : String) (members : List (String × Json)) : Option (Option Json) :=
  match members.filter fun p => p.1 = name with
  | [] => some none
  | [p] => some (some p.2)
  | _ => none

/-- The fields of a record with the given field names, those left out as `none`. -/
def record (names : List String) : Json → Option (List (Option Json))
  | obj members => names.mapM fun name => uniqueMember name members
  | arr items =>
    if items.length ≤ names.length then
      some (items.map some ++ List.replicate (names.length - items.length) none)
    else none
  | _ => none

/-- A field that must be there. -/
def required {α : Type} (read : Json → Option α) : Option Json → Option α
  | none => none
  | some j => read j

/-- A field that stands for `default` when it is left out. -/
def orDefault {α : Type} (default : α) (read : Json → Option α) : Option Json → Option α
  | none => some default
  | some j => read j

/-- A value that may be `null`. -/
def nullable {α : Type} (read : Json → Option α) : Json → Option (Option α)
  | null => some none
  | j => (read j).map some

/-- A field that may be left out or be `null`. -/
def optional {α : Type} (read : Json → Option α) : Option Json → Option (Option α) :=
  orDefault none (nullable read)

/-- A string. -/
def text : Json → Option String
  | str s => some s
  | _ => none

/-- A number below a limit. -/
def natBelow (limit : Nat) : Json → Option Nat
  | int (.ofNat n) => if n < limit then some n else none
  | _ => none

/-- An integer from `low` up to, but not including, `high`. -/
def intBetween (low high : Int) : Json → Option Int
  | int n => if low ≤ n ∧ n < high then some n else none
  | _ => none

/-- An array of values of one shape. -/
def list {α : Type} (read : Json → Option α) : Json → Option (List α)
  | arr items => items.mapM read
  | _ => none

/-- The members of an object whose values have one shape, in the order written. -/
def entries {α : Type} (read : Json → Option α) : Json → Option (List (String × α))
  | obj members => members.mapM fun p => (read p.2).map (p.1, ·)
  | _ => none

/-- A choice between named cases without content: the name alone, or an object with the name and
`null`. -/
def caseName : Json → Option String
  | str s => some s
  | obj [(name, null)] => some name
  | _ => none

/-- A case with content: an object whose only member is the case. -/
def caseContent : Json → Option (String × Json)
  | obj [p] => some p
  | _ => none

@[simp] theorem required_some {α : Type} (read : Json → Option α) (j : Json) :
    required read (some j) = read j := rfl

@[simp] theorem orDefault_none {α : Type} (a : α) (read : Json → Option α) :
    orDefault a read none = some a := rfl

@[simp] theorem orDefault_some {α : Type} (a : α) (read : Json → Option α) (j : Json) :
    orDefault a read (some j) = read j := rfl

@[simp] theorem text_str (s : String) : text (str s) = some s := rfl

end ModuleAtlas.Json
