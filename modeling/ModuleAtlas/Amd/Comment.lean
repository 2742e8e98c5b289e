/-!
# Comments in source text

Two kinds of comments are cut out before a source is searched: from `/*` to the next `*/` anywhere,
and from `//` to the end of the line where only blanks come before it in its line.  The blanks
before a line comment go with it, the line break after it stays.

## Main definitions

* `afterBlock`, `afterLine` — where a comment that starts here ends.
* `stripComments` — the text without its comments.
-/

namespace ModuleAtlas.Amd

/-- The characters after the next `*/`. -/
def afterClose : List Char → Option (List Char)
  | [] => none
  | '*' :: '/' :: s => some s
  | _ :: s => afterClose s

/-- The characters after a block comment that starts here. -/
def afterBlock : List Char → Option (List Char)
  | '/' :: '*' :: s => afterClose s
  | _ => none

/-- Whether a character is a blank within a line. -/
def isLineBlank (c : Char) : Bool := c = ' ' || c = '\t'

/-- The characters after a line comment and the blanks before it, which start here. -/
def afterLine (s : List Char) : Option (List Char) :=
  match s.dropWhile isLineBlank with
  | '/' :: '/' :: rest => some (rest.dropWhile (· ≠ '\n'))
  | _ => none

/-- The characters after a comment that starts here, at the start of a line or not. -/
def afterComment (lineStart : Bool) (s : List Char) : Option (List Char) :=
  match afterBlock s with
  | some rest => some rest
  | none => if lineStart then afterLine s else none

/-- The text without its comments, of which the first `skip` characters belong to a comment found
earlier. -/
def stripFrom : Nat → Bool → List Char → List Char
  | _, _, [] => []
  | skip + 1, _, c :: s => stripFrom skip (c = '\n') s
  | 0, lineStart, c :: s =>
    match afterComment lineStart (c :: s) with
    | some rest => stripFrom (s.length - rest.length) (c = '\n') s
    | none => c :: stripFrom 0 (c = '\n') s

/-- The text without its comments. -/
def stripComments (s : List Char) : List Char := stripFrom 0 true s

@[simp] theorem stripComments_nil : stripComments [] = [] := rfl

@[simp] theorem afterClose_nil : afterClose [] = none := rfl

@[simp] theorem afterClose_star_slash (s : List Char) : afterClose ('*' :: '/' :: s) = some s := rfl

example : stripComments "a/*x*/b//c".toList = "ab//c".toList := by decide

end ModuleAtlas.Amd
