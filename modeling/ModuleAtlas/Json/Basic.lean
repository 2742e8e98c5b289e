import ModuleAtlas.Text.Decimal

/-!
# JSON values and their text

A JSON value keeps what the records of this library can tell apart: an integer is a number written
without a fraction and without an exponent, and the members of an object stay in their order,
repeated names included.  Numbers of another form, and values whose escapes denote no text, are kept
as such, since a record may carry them where nobody looks at them.

Two layouts are printed: compact, and indented by two blanks for each level.

## Main definitions

* `Json` — the values.
* `Json.escapeChar`, `Json.quote` — strings as written.
* `Json.compact`, `Json.pretty` — the two layouts.
-/

namespace ModuleAtlas

/-- A JSON value. -/
inductive Json where
  /-- The null value. -/
  | null
  /-- A truth value. -/
  | bool (b : Bool)
  /-- A number without fraction and exponent. -/
  | int (n : Int)
  /-- A number of another form, whose value plays no part. -/
  | real
  /-- A string. -/
  | str (s : String)
  /-- A string, or an object with a name, that holds half of a surrogate pair or a byte of no
  character, so that it denotes no text. -/
  | garbled
  /-- An array. -/
  | arr (items : List Json)
  /-- An object, its members in the order written. -/
  | obj (members : List (String × Json))
  deriving Inhabited

namespace Json

/-! ### Strings -/

/-- The lower-case hexadecimal digit of a number below sixteen. -/
def hexDigit (n : Nat) : Char := if n < 10 then Char.ofNat (48 + n) else Char.ofNat (87 + n)

/-- A character as it is written inside a string: quotes, backslashes and control characters are
escaped, every other character stands for itself. -/
def escapeChar (c : Char) : List Char :=
  if c = '"' then ['\\', '"']
  else if c = '\\' then ['\\', '\\']
  else if c = '\x08' then ['\\', 'b']
  else if c = '\x0c' then ['\\', 'f']
  else if c = '\n' then ['\\', 'n']
  else if c = '\r' then ['\\', 'r']
  else if c = '\t' then ['\\', 't']
  else if c.toNat < 32 then
    ['\\', 'u', '0', '0', hexDigit (c.toNat / 16), hexDigit (c.toNat % 16)]
  else [c]

/-- A string with its quotes. -/
def quote (s : String) : List Char := '"' :: (s.toList.flatMap escapeChar ++ ['"'])

/-! ### Compact text -/

mutual

/-- The compact text of a value. -/
def compactChars : Json → List Char
  | null => ['n', 'u', 'l', 'l']
  | bool true => ['t', 'r', 'u', 'e']
  | bool false => ['f', 'a', 'l', 's', 'e']
  | int n => Text.intDigits n
  | real => ['0', '.', '0']
  | str s => quote s
  | garbled => ['"', '"']
  | arr items => '[' :: (compactItems items ++ [']'])
  | obj members => '{' :: (compactMembers members ++ ['}'])

/-- The compact texts of the items of an array, with commas between them. -/
def compactItems : List Json → List Char
  | [] => []
  | [j] => compactChars j
  | j :: l => compactChars j ++ ',' :: compactItems l

/-- The compact texts of the members of an object, with commas between them. -/
def compactMembers : List (String × Json) → List Char
  | [] => []
  | [(k, j)] => quote k ++ ':' :: compactChars j
  | (k, j) :: l => quote k ++ ':' :: (compactChars j ++ ',' :: compactMembers l)

end

/-- The text of a value without any blank. -/
def compact (j : Json) : String := String.ofList (compactChars j)

/-! ### Indented text -/

/-- A line break and the indentation of a level. -/
def lineBreak (level : Nat) : List Char := '\n' :: List.replicate (2 * level) ' '

mutual

/-- The indented text of a value that stands at a level. -/
def prettyChars (level : Nat) : Json → List Char
  | arr [] => ['[', ']']
  | arr (j :: l) =>
    '[' :: (lineBreak (level + 1) ++ prettyChars (level + 1) j ++ prettyItems (level + 1) l
      ++ lineBreak level ++ [']'])
  | obj [] => ['{', '}']
  | obj ((k, j) :: l) =>
    '{' :: (lineBreak (level + 1) ++ quote k ++ ':' :: ' ' :: prettyChars (level + 1) j
      ++ prettyMembers (level + 1) l ++ lineBreak level ++ ['}'])
  | null => compactChars null
  | bool b => compactChars (bool b)
  | int n => compactChars (int n)
  | real => compactChars real
  | str s => compactChars (str s)
  | garbled => compactChars garbled

/-- The indented texts of further items, each after a comma on a line of its own. -/
def prettyItems (level : Nat) : List Json → List Char
  | [] => []
  | j :: l => ',' :: (lineBreak level ++ prettyChars level j ++ prettyItems level l)

/-- The indented texts of further members, each after a comma on a line of its own. -/
def prettyMembers (level : Nat) : List (String × Json) → List Char
  | [] => []
  | (k, j) :: l =>
    ',' :: (lineBreak level ++ quote k ++ ':' :: ' ' :: prettyChars level j ++
      prettyMembers level l)

end

/-- The text of a value with each item and member on a line of its own, indented by two blanks. -/
def pretty (j : Json) : String := String.ofList (prettyChars 0 j)

/-! ### Values of common shape -/

/-- An array of strings. -/
def strings (l : List String) : Json := arr (l.map str)

/-- An optional value, absent as `null`. -/
def orNull {α : Type} (f : α → Json) : Option α → Json
  | none => null
  | some a => f a

@[simp] theorem orNull_none {α : Type} (f : α → Json) : orNull f none = null := rfl

@[simp] theorem orNull_some {α : Type} (f : α → Json) (a : α) : orNull f (some a) = f a := rfl

@[simp] theorem compactItems_nil : compactItems [] = [] := rfl

@[simp] theorem compactMembers_nil : compactMembers [] = [] := rfl

end Json

end ModuleAtlas
