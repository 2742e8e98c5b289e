import ModuleAtlas.Text.Hidden

/-!
# Quoted text

A text between double quotes in which every character can be seen: double quotes, backslashes and
the usual blank controls are escaped by a letter, and other characters that leave no mark of their
own by their code.

## Main definitions

* `quoted` — the quoted text.
-/

namespace ModuleAtlas.Text

/-- The code of a character in hexadecimal digits. -/
def hexCodeOf (c : Char) : List Char := Nat.toDigits 16 c.toNat

/-- A character as it stands in a quoted text. -/
def quotedChar (c : Char) : List Char :=
  match c with
  | '\x00' => ['\\', '0']
  | '\t' => ['\\', 't']
  | '\r' => ['\\', 'r']
  | '\n' => ['\\', 'n']
  | '\\' => ['\\', '\\']
  | '"' => ['\\', '"']
  | c => if isHidden c then ['\\', 'u', '\x7b'] ++ hexCodeOf c ++ ['\x7d'] else [c]

/-- A text between double quotes. -/
def quoted (s : String) : String := String.ofList ('"' :: (s.toList.flatMap quotedChar ++ ['"']))

end ModuleAtlas.Text
