import ModuleAtlas.Amd.CallShape
import ModuleAtlas.Amd.Comment
import ModuleAtlas.Deps
import ModuleAtlas.Error

/-!
# Dependencies of a module source

The first definition of a source gives its own dependencies, repetitions kept.  Every requirement
adds what is new to its list.  A source that opens the array of a definition, and never closes one,
is refused.

## Main definitions

* `Amd.declared?` — the dependencies that a source declares.
* `Amd.read` — the same from a text, with the file named in the error.
-/

namespace ModuleAtlas.Amd

/-- The specifiers of the first definition, or `none` if one opens but none closes. -/
def defined? (source : List Char) : Option (List String) :=
  match occurrences defineArray source with
  | list :: _ => some (literals list)
  | [] => if (occurrences defineOpen source).isEmpty then some [] else none

/-- The specifiers required as lists, each once. -/
def required (source : List Char) : List String :=
  ((occurrences requireArray source).flatMap literals).foldl addNew []

/-- The specifiers required one at a time, each once. -/
def requiredOnes (source : List Char) : List String :=
  ((occurrences requireOne source).map String.ofList).foldl addNew []

/-- The dependencies that a source declares, or `none` if the array of its definition has no end. -/
def declared? (source : List Char) : Option Deps :=
  let code := stripComments source
  (defined? code).map fun define =>
    { define, require := required code, object := requiredOnes code }

/-- The dependencies that the text of the file at `path` declares. -/
def read (path source : String) : Except Error Deps :=
  match declared? source.toList with
  | some d => .ok d
  | none => .error (.parse path "unterminated define dependency array")

@[simp] theorem declared?_nil : declared? [] = some {} := rfl

theorem read_of_declared? {path source : String} {d : Deps} (h : declared? source.toList = some d) :
    read path source = .ok d := by simp [read, h]

end ModuleAtlas.Amd
