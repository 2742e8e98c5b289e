/-!
# Splitting text at a separator

A text cut at each occurrence of a separator character, the pieces in order and empty ones kept, and
the two cuts at the last occurrence of a character.

## Main definitions

* `splitChars`, `splitAt` — the pieces between separators, never the empty list.
* `cutLast` — the parts before and after the last occurrence.
-/

namespace ModuleAtlas.Text

/-- The pieces of a list of characters between the occurrences of `sep`. -/
def splitChars (sep : Char) : List Char → List (List Char)
  | [] => [[]]
  | c :: s =>
    if c = sep then [] :: splitChars sep s
    else
      match splitChars sep s with
      | [] => [[c]]
      | piece :: rest => (c :: piece) :: rest

/-- The pieces of a text between the occurrences of `sep`. -/
def splitAt (sep : Char) (s : String) : List String := (splitChars sep s.toList).map String.ofList

/-- The characters before and after the last occurrence of `sep`. -/
def cutLastChars (sep : Char) : List Char → Option (List Char × List Char)
  | [] => none
  | c :: s =>
    match cutLastChars sep s with
    | some (before, after) => some (c :: before, after)
    | none => if c = sep then some ([], s) else none

/-- The text before and after the last occurrence of `sep`, if there is one. -/
def cutLast (sep : Char) (s : String) : Option (String × String) :=
  (cutLastChars sep s.toList).map fun p => (String.ofList p.1, String.ofList p.2)

@[simp] theorem splitChars_nil (sep : Char) : splitChars sep [] = [[]] := rfl

theorem splitChars_ne_nil (sep : Char) (s : List Char) : splitChars sep s ≠ [] := by
  cases s with
  | nil => simp
  | cons c s =>
    rw [splitChars]
    split
    · simp
    · split <;> simp

@[simp] theorem splitChars_cons_self (sep : Char) (s : List Char) :
    splitChars sep (sep :: s) = [] :: splitChars sep s := by
  simp [splitChars]

@[simp] theorem cutLastChars_nil (sep : Char) : cutLastChars sep [] = none := rfl

end ModuleAtlas.Text
