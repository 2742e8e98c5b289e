/-!
# Bytes as characters

Bytes are read as characters in UTF-8 one by one, so that a byte that belongs to no character spoils
no more than its place.  A text is cut after a number of bytes if they end a character.

## Main definitions

* `charsFrom`, `charsOf` — the characters that bytes denote, with `none` for each byte that belongs
  to none.
* `leadingChars?`, `leading?` — the start of a text that takes a number of bytes.
-/

namespace ModuleAtlas.Text

/-- The character at the start of bytes, if there is one. -/
def firstChar (l : List UInt8) : Option Char := (ByteArray.mk (l.take 4).toArray).utf8DecodeChar? 0

/-- The characters of bytes after the first `skip` ones, with `none` for each byte that belongs to
none. -/
def charsFrom : Nat → List UInt8 → List (Option Char)
  | _, [] => []
  | skip + 1, _ :: l => charsFrom skip l
  | 0, b :: l =>
    match firstChar (b :: l) with
    | some c => some c :: charsFrom (c.utf8Size - 1) l
    | none => none :: charsFrom 0 l

/-- The characters that bytes denote, with `none` for each byte that belongs to none. -/
def charsOf (bytes : ByteArray) : List (Option Char) :=
  match String.fromUTF8? bytes with
  | some s => s.toList.map some
  | none => charsFrom 0 bytes.toList

/-- The characters at the start of a list that take the given number of bytes; nothing if the list
is too short or a character lies across the end. -/
def leadingChars? : Nat → List Char → Option (List Char)
  | 0, _ => some []
  | _ + 1, [] => none
  | n + 1, c :: s =>
    if c.utf8Size ≤ n + 1 then (leadingChars? (n + 1 - c.utf8Size) s).map (c :: ·) else none

/-- The start of a text that takes the given number of bytes, if the text can be cut there. -/
def leading? (bytes : Nat) (s : String) : Option String :=
  (leadingChars? bytes s.toList).map String.ofList

@[simp] theorem leadingChars?_zero (s : List Char) : leadingChars? 0 s = some [] := by
  simp [leadingChars?]

theorem charsOf_of_fromUTF8? {bytes : ByteArray} {s : String}
    (h : String.fromUTF8? bytes = some s) :
    charsOf bytes = s.toList.map some := by simp [charsOf, h]

end ModuleAtlas.Text
