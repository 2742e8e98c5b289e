/-!
# Strings of configuration files

The four kinds of strings of TOML: basic strings with escapes and literal strings without, each on
one line between single quote characters, or over several lines between triple ones.  A line break
right after an opening triple quote is dropped.  In a basic string over several lines a backslash
before a line break drops the white space up to the next visible character.

## Main definitions

* `Toml.basicLine`, `Toml.literalLine` — strings on one line.
* `Toml.basicBlock`, `Toml.literalBlock` — strings over several lines.
* `Toml.string` — a string of any kind.
-/

namespace ModuleAtlas.Toml

/-- Whether a character may stand in a string or a comment: tabs, and all that is no control
character. -/
def isPlain (c : Char) : Bool := c = '\t' || (32 ≤ c.toNat && c ≠ '\x7f')

/-- Whether a character is a blank within a line. -/
def isBlank (c : Char) : Bool := c = ' ' || c = '\t'

/-- The characters after a line break that starts here. -/
def lineBreak : List Char → Option (List Char)
  | '\n' :: s => some s
  | '\r' :: '\n' :: s => some s
  | _ => none

/-! ### Escapes -/

/-- The value of a hexadecimal digit. -/
def hexValue (c : Char) : Option Nat :=
  if '0' ≤ c ∧ c ≤ '9' then some (c.toNat - 48)
  else if 'a' ≤ c ∧ c ≤ 'f' then some (c.toNat - 87)
  else if 'A' ≤ c ∧ c ≤ 'F' then some (c.toNat - 55)
  else none

/-- The character whose code is given by hexadecimal digits. -/
def codeChar (digits : List Char) : Option Char := do
  let values ← digits.mapM hexValue
  let n := values.foldl (fun n d => 16 * n + d) 0
  if n.isValidChar then some (Char.ofNat n) else none

/-- The character that a letter after a backslash denotes. -/
def simpleEscape (c : Char) : Option Char :=
  match c with
  | 'b' => some '\x08'
  | 'e' => some '\x1b'
  | 't' => some '\t'
  | 'n' => some '\n'
  | 'f' => some '\x0c'
  | 'r' => some '\r'
  | '"' => some '"'
  | '\\' => some '\\'
  | _ => none

/-! ### Strings on one line -/

/-- Puts a character in front of the text that is read. -/
def cons (c : Char) (p : List Char × List Char) : List Char × List Char := (c :: p.1, p.2)

/-- The text of a basic string up to its closing quote. -/
def basicLine : List Char → Option (List Char × List Char)
  | [] => none
  | '"' :: s => some ([], s)
  | '\\' :: 'x' :: a :: b :: s => do
    let x ← codeChar [a, b]
    (basicLine s).map (cons x)
  | '\\' :: 'u' :: a :: b :: c :: d :: s => do
    let x ← codeChar [a, b, c, d]
    (basicLine s).map (cons x)
  | '\\' :: 'U' :: a :: b :: c :: d :: e :: f :: g :: h :: s => do
    let x ← codeChar [a, b, c, d, e, f, g, h]
    (basicLine s).map (cons x)
  | '\\' :: e :: s => do
    let x ← simpleEscape e
    (basicLine s).map (cons x)
  | c :: s => if isPlain c && c ≠ '\\' then (basicLine s).map (cons c) else none

/-- The text of a literal string up to its closing quote. -/
def literalLine : List Char → Option (List Char × List Char)
  | [] => none
  | '\'' :: s => some ([], s)
  | c :: s => if isPlain c then (literalLine s).map (cons c) else none

/-! ### Strings over several lines -/

/-- The end of a string over several lines that starts with three quotes: up to two more belong to
the text. -/
def closeBlock (quote : Char) (s : List Char) : List Char × List Char :=
  match s with
  | a :: b :: rest =>
    if a = quote then if b =
      quote then ([quote, quote], rest) else ([quote], b :: rest) else ([], s)
  | [a] => if a = quote then ([quote], []) else ([], s)
  | [] => ([], [])

/-- Whether a backslash before these characters ends its line. -/
def endsLine (s : List Char) : Bool := (lineBreak (s.dropWhile isBlank)).isSome

/-- The text of a basic string over several lines up to its closing quotes.  While `skipping`, white
space is dropped. -/
def basicBlock : Bool → List Char → Option (List Char × List Char)
  | _, [] => none
  | _, '"' :: '"' :: '"' :: s => some (closeBlock '"' s)
  | true, ' ' :: s => basicBlock true s
  | true, '\t' :: s => basicBlock true s
  | skipping, '\n' :: s =>
    if skipping then basicBlock true s else (basicBlock false s).map (cons '\n')
  | skipping, '\r' :: '\n' :: s =>
    if skipping then basicBlock true s else (basicBlock false s).map fun p =>
      cons '\r' (cons '\n' p)
  | _, '\\' :: 'x' :: a :: b :: s => do
    let x ← codeChar [a, b]
    (basicBlock false s).map (cons x)
  | _, '\\' :: 'u' :: a :: b :: c :: d :: s => do
    let x ← codeChar [a, b, c, d]
    (basicBlock false s).map (cons x)
  | _, '\\' :: 'U' :: a :: b :: c :: d :: e :: f :: g :: h :: s => do
    let x ← codeChar [a, b, c, d, e, f, g, h]
    (basicBlock false s).map (cons x)
  | _, '\\' :: e :: s =>
    if endsLine (e :: s) then basicBlock true (e :: s)
    else do
      let x ← simpleEscape e
      (basicBlock false s).map (cons x)
  | _, c :: s => if isPlain c && c ≠ '\\' then (basicBlock false s).map (cons c) else none

/-- The text of a literal string over several lines up to its closing quotes. -/
def literalBlock : List Char → Option (List Char × List Char)
  | [] => none
  | '\'' :: '\'' :: '\'' :: s => some (closeBlock '\'' s)
  | '\n' :: s => (literalBlock s).map (cons '\n')
  | '\r' :: '\n' :: s => (literalBlock s).map fun p => cons '\r' (cons '\n' p)
  | c :: s => if isPlain c then (literalBlock s).map (cons c) else none

/-- The characters without a line break at the start. -/
def dropLineBreak (s : List Char) : List Char := (lineBreak s).getD s

/-- A string on one line at the start. -/
def lineString : List Char → Option (List Char × List Char)
  | '"' :: s => basicLine s
  | '\'' :: s => literalLine s
  | _ => none

/-- A string of any kind at the start. -/
def string : List Char → Option (List Char × List Char)
  | '"' :: '"' :: '"' :: s => basicBlock false (dropLineBreak s)
  | '\'' :: '\'' :: '\'' :: s => literalBlock (dropLineBreak s)
  | s => lineString s

example : string "\"a\\tb\" x".toList = some ("a\tb".toList, " x".toList) := by decide

end ModuleAtlas.Toml
