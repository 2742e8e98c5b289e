import ModuleAtlas.Toml.Text

/-!
# Reading configuration files

A configuration file in TOML is a list of statements: headers, headers of arrays of tables, and
assignments of values to dotted keys.  Of the values only strings, arrays and inline tables are
read, since no other value has a place in a configuration; a file with a number, a truth value or a
date is refused.  Arrays and inline tables may go over several lines, with comments, and may end
with a comma.

## Main definitions

* `Toml.Value`, `Toml.Statement` — values and statements.
* `Toml.dottedKey`, `Toml.value`, `Toml.statement` — their readers.
* `Toml.parse` — the statements of a file.
-/

namespace ModuleAtlas.Toml

/-- A value of a configuration file. -/
inductive Value where
  /-- A string. -/
  | text (s : String)
  /-- An array. -/
  | array (items : List Value)
  /-- An inline table, with dotted keys. -/
  | table (entries : List (List String × Value))
  deriving Inhabited

/-- A statement of a configuration file. -/
inductive Statement where
  /-- A header, which opens a table. -/
  | header (key : List String)
  /-- A header of an array of tables, which opens a new element. -/
  | element (key : List String)
  /-- An assignment to a key of the table that is open. -/
  | assign (key : List String) (value : Value)
  deriving Inhabited

/-! ### Blanks and keys -/

/-- The characters from the first one that is no blank. -/
def skipBlanks (s : List Char) : List Char := s.dropWhile isBlank

/-- The characters after a comment that starts here, if one does. -/
def skipComment : List Char → List Char
  | '#' :: s => s.dropWhile isPlain
  | s => s

/-- The characters after blanks, comments and line breaks, in at most `n` lines. -/
def skipLines : Nat → List Char → List Char
  | 0, s => s
  | n + 1, s =>
    let s := skipComment (skipBlanks s)
    match lineBreak s with
    | some s => skipLines n s
    | none => s

/-- Whether a character may stand in a key without quotes. -/
def isBare (c : Char) : Bool := c.isAlphanum || c = '-' || c = '_'

/-- A key without dots. -/
def simpleKey (s : List Char) : Option (String × List Char) :=
  match lineString s with
  | some (cs, rest) => some (String.ofList cs, rest)
  | none =>
    match s.takeWhile isBare with
    | [] => none
    | cs => some (String.ofList cs, s.dropWhile isBare)

/-- A key of at most `n` parts with dots between them. -/
def dottedKey : Nat → List Char → Option (List String × List Char)
  | 0, _ => none
  | n + 1, s =>
    match simpleKey s with
    | none => none
    | some (k, rest) =>
      match skipBlanks rest with
      | '.' :: more => (dottedKey n (skipBlanks more)).map fun p => (k :: p.1, p.2)
      | _ => some ([k], rest)

/-! ### Values -/

mutual

/-- A value at the start, within a bound on the work. -/
def value (bound : Nat) (s : List Char) : Option (Value × List Char) :=
  match bound with
  | 0 => none
  | bound + 1 =>
    match s with
    | '[' :: s => (items bound (skipLines bound s)).map fun p => (.array p.1, p.2)
    | '\x7b' :: s => (entries bound (skipLines bound s)).map fun p => (.table p.1, p.2)
    | s => (string s).map fun p => (.text (String.ofList p.1), p.2)

/-- The items of an array up to its closing bracket. -/
def items (bound : Nat) (s : List Char) : Option (List Value × List Char) :=
  match bound with
  | 0 => none
  | bound + 1 =>
    match s with
    | ']' :: s => some ([], s)
    | s =>
      match value bound s with
      | none => none
      | some (v, s) =>
        match skipLines bound s with
        | ']' :: s => some ([v], s)
        | ',' :: s => (items bound (skipLines bound s)).map fun p => (v :: p.1, p.2)
        | _ => none

/-- The entries of an inline table up to its closing brace. -/
def entries (bound : Nat) (s : List Char) : Option (List (List String × Value) × List Char) :=
  match bound with
  | 0 => none
  | bound + 1 =>
    match s with
    | '\x7d' :: s => some ([], s)
    | s =>
      match assignment (skipLines bound) bound s with
      | none => none
      | some (e, s) =>
        match skipLines bound s with
        | '\x7d' :: s => some ([e], s)
        | ',' :: s => (entries bound (skipLines bound s)).map fun p => (e :: p.1, p.2)
        | _ => none

/-- An assignment of a value to a key, where `skip` leaves out what may stand around the sign
between them. -/
def assignment (skip : List Char → List Char) (bound : Nat) (s : List Char) :
    Option ((List String × Value) × List Char) :=
  match bound with
  | 0 => none
  | bound + 1 =>
    match dottedKey (bound + 1) s with
    | none => none
    | some (k, s) =>
      match skip s with
      | '=' :: s => (value bound (skip s)).map fun p => ((k, p.1), p.2)
      | _ => none

end

/-! ### Statements -/

/-- A statement at the start. -/
def statement (bound : Nat) : List Char → Option (Statement × List Char)
  | '[' :: '[' :: s =>
    match dottedKey bound (skipBlanks s) with
    | some (k, s) =>
      match skipBlanks s with
      | ']' :: ']' :: s => some (.element k, s)
      | _ => none
    | none => none
  | '[' :: s =>
    match dottedKey bound (skipBlanks s) with
    | some (k, s) =>
      match skipBlanks s with
      | ']' :: s => some (.header k, s)
      | _ => none
    | none => none
  | s => (assignment skipBlanks bound s).map fun p => (.assign p.1.1 p.1.2, p.2)

/-- The statements of a file, in at most `n` lines. -/
def statements (bound : Nat) : Nat → List Char → Option (List Statement)
  | 0, _ => none
  | n + 1, s =>
    match skipLines bound s with
    | [] => some []
    | s =>
      match statement bound s with
      | none => none
      | some (t, s) =>
        match skipComment (skipBlanks s) with
        | [] => some [t]
        | s =>
          match lineBreak s with
          | some s => (statements bound n s).map (t :: ·)
          | none => none

/-- The characters after a byte order mark, if there is one. -/
def dropMark : List Char → List Char
  | '\ufeff' :: s => s
  | s => s

/-- The statements of a file. -/
def parse (text : String) : Option (List Statement) :=
  let s := dropMark text.toList
  statements (3 * s.length + 1) (s.length + 1) s

@[simp] theorem skipBlanks_nil : skipBlanks [] = [] := rfl

@[simp] theorem skipLines_nil (n : Nat) : skipLines n [] = [] := by
  cases n <;> rfl

end ModuleAtlas.Toml
