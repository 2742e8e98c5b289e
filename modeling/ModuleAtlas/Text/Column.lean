/-!
# Columns

A text filled up with blanks to the width of a column; a text that is wider stays as it is.

## Main definitions

* `leftColumn`, `rightColumn` — the text at the left or at the right of its column.
-/

namespace ModuleAtlas.Text

/-- The text with blanks after it, up to a width. -/
def leftColumn (width : Nat) (s : String) : String := s.pushn ' ' (width - s.length)

/-- The text with blanks before it, up to a width. -/
def rightColumn (width : Nat) (s : String) : String := "".pushn ' ' (width - s.length) ++ s

end ModuleAtlas.Text
