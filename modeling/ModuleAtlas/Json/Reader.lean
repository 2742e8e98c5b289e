import ModuleAtlas.Json.Basic
import ModuleAtlas.Text.Utf8

/-!
# Reading JSON

The grammar is strict: four blank characters, no leading zeros, no control characters inside
strings, no commas at the end, nothing but blanks after the value.  A text is given as its
characters, with `none` for each byte that belongs to no character; such a byte may stand in a
string, which then denotes no text.  Each reader takes the characters that are left and returns what
it read with the characters after it.  A value is read with a bound on the depth and length that the
number of characters always meets.

## Main definitions

* `Json.StringUnit`, `Json.stringUnits`, `Json.decodeUnits` — strings as character units, and their
  text.
* `Json.number` — the numerals.
* `Json.parse`, `Json.parseBytes` — the value of a whole text, and of one given as bytes.
-/

namespace ModuleAtlas.Json

/-- Whether a character may stand between tokens. -/
def isBlank : Option Char → Bool
  | some c => c = ' ' || c = '\n' || c = '\t' || c = '\r'
  | none => false

/-- The characters from the first one that is not blank. -/
def skipBlanks (s : List (Option Char)) : List (Option Char) := s.dropWhile isBlank

/-! ### Strings -/

/-- A unit of a string: a character, a sixteen-bit code written in hexadecimal digits, or a stray
byte. -/
inductive StringUnit where
  /-- A character that stands for itself or after a backslash. -/
  | char (c : Char)
  /-- A code of four hexadecimal digits. -/
  | code (n : Nat)
  /-- A byte that belongs to no character. -/
  | stray
  deriving DecidableEq

/-- The value of a hexadecimal digit. -/
def hexValue (c : Char) : Option Nat :=
  if '0' ≤ c ∧ c ≤ '9' then some (c.toNat - 48)
  else if 'a' ≤ c ∧ c ≤ 'f' then some (c.toNat - 87)
  else if 'A' ≤ c ∧ c ≤ 'F' then some (c.toNat - 55)
  else none

/-- The code of four hexadecimal digits. -/
def hexCode (a b c d : Char) : Option Nat := do
  let a ← hexValue a
  let b ← hexValue b
  let c ← hexValue c
  let d ← hexValue d
  return 4096 * a + 256 * b + 16 * c + d

/-- The character that a letter after a backslash denotes. -/
def simpleEscape (c : Char) : Option Char :=
  match c with
  | '"' => some '"'
  | '\\' => some '\\'
  | '/' => some '/'
  | 'b' => some '\x08'
  | 'f' => some '\x0c'
  | 'n' => some '\n'
  | 'r' => some '\r'
  | 't' => some '\t'
  | _ => none

/-- The units of a string up to its closing quote, and the characters after it. -/
def stringUnits : List (Option Char) → Option (List StringUnit × List (Option Char))
  | [] => none
  | some '"' :: s => some ([], s)
  | some '\\' :: some 'u' :: some a :: some b :: some c :: some d :: s => do
    let n ← hexCode a b c d
    let (l, rest) ← stringUnits s
    return (.code n :: l, rest)
  | some '\\' :: some e :: s => do
    let c ← simpleEscape e
    let (l, rest) ← stringUnits s
    return (.char c :: l, rest)
  | none :: s => do
    let (l, rest) ← stringUnits s
    return (.stray :: l, rest)
  | some c :: s =>
    if c.toNat < 32 then none
    else if c = '\\' then none
    else do
      let (l, rest) ← stringUnits s
      return (.char c :: l, rest)

/-- Whether a code is the first half of a surrogate pair. -/
def isHighHalf (n : Nat) : Bool := 0xD800 ≤ n && n ≤ 0xDBFF

/-- Whether a code is the second half of a surrogate pair. -/
def isLowHalf (n : Nat) : Bool := 0xDC00 ≤ n && n ≤ 0xDFFF

/-- The text of the units of a string, unless there is a stray byte or a half of a surrogate pair
alone. -/
def decodeUnits : List StringUnit → Option (List Char)
  | [] => some []
  | .stray :: _ => none
  | .char c :: l => (decodeUnits l).map (c :: ·)
  | .code hi :: .code lo :: l =>
    if isHighHalf hi then
      if isLowHalf lo then
        (decodeUnits l).map (Char.ofNat (0x10000 + 1024 * (hi - 0xD800) + (lo - 0xDC00)) :: ·)
      else none
    else if isLowHalf hi then none
    else (decodeUnits (.code lo :: l)).map (Char.ofNat hi :: ·)
  | .code n :: l =>
    if isHighHalf n || isLowHalf n then none else (decodeUnits l).map (Char.ofNat n :: ·)

/-! ### Numbers -/

/-- The digits at the start, and the characters after them. -/
def spanDigits : List (Option Char) → List Char × List (Option Char)
  | some c :: s =>
    if Text.isDigit c then
      let (ds, rest) := spanDigits s
      (c :: ds, rest)
    else ([], some c :: s)
  | s => ([], s)

/-- A whole number at the start: digits without a leading zero. -/
def wholeNumber (s : List (Option Char)) : Option (List Char × List (Option Char)) :=
  match spanDigits s with
  | ([], _) => none
  | (['0'], rest) => some (['0'], rest)
  | ('0' :: _, _) => none
  | (ds, rest) => some (ds, rest)

/-- The characters after a fraction, if one starts here; whether one did. -/
def skipFraction : List (Option Char) → Option (Bool × List (Option Char))
  | some '.' :: s =>
    match spanDigits s with
    | ([], _) => none
    | (_, rest) => some (true, rest)
  | s => some (false, s)

/-- The characters after an optional sign. -/
def skipSign : List (Option Char) → List (Option Char)
  | some '+' :: s => s
  | some '-' :: s => s
  | s => s

/-- The characters after an exponent, if one starts here; whether one did. -/
def skipExponent : List (Option Char) → Option (Bool × List (Option Char))
  | some 'e' :: s | some 'E' :: s =>
    match spanDigits (skipSign s) with
    | ([], _) => none
    | (_, rest) => some (true, rest)
  | s => some (false, s)

/-- A number whose sign has been read.  Minus zero is no integer. -/
def unsignedNumber (negative : Bool) (s : List (Option Char)) :
    Option (Json × List (Option Char)) := do
  let (ds, s) ← wholeNumber s
  let (fraction, s) ← skipFraction s
  let (exponent, s) ← skipExponent s
  let n := Text.ofDigits ds
  if fraction || exponent || (negative && n == 0) then return (real, s)
  else return (int (if negative then -(n : Int) else n), s)

/-- A number at the start. -/
def number : List (Option Char) → Option (Json × List (Option Char))
  | some '-' :: s => unsignedNumber true s
  | s => unsignedNumber false s

/-! ### Values -/

/-- The string that a list of units stands for. -/
def ofUnits (l : List StringUnit) : Json :=
  match decodeUnits l with
  | some cs => str (String.ofList cs)
  | none => garbled

/-- A member whose name is given in units, unless the name denotes no text. -/
def namedMember (p : List StringUnit × Json) : Option (String × Json) :=
  (decodeUnits p.1).map fun cs => (String.ofList cs, p.2)

/-- The object of a list of members whose names are given in units. -/
def ofMembers (l : List (List StringUnit × Json)) : Json :=
  match l.mapM namedMember with
  | some members => obj members
  | none => garbled

mutual

/-- A value at the start, within a bound on the work. -/
def value (bound : Nat) (s : List (Option Char)) : Option (Json × List (Option Char)) :=
  match bound with
  | 0 => none
  | bound + 1 =>
    match skipBlanks s with
    | some 'n' :: some 'u' :: some 'l' :: some 'l' :: s => some (null, s)
    | some 't' :: some 'r' :: some 'u' :: some 'e' :: s => some (bool true, s)
    | some 'f' :: some 'a' :: some 'l' :: some 's' :: some 'e' :: s => some (bool false, s)
    | some '"' :: s => (stringUnits s).map fun p => (ofUnits p.1, p.2)
    | some '[' :: s =>
      match skipBlanks s with
      | some ']' :: s => some (arr [], s)
      | s => (items bound s).map fun p => (arr p.1, p.2)
    | some '{' :: s =>
      match skipBlanks s with
      | some '}' :: s => some (obj [], s)
      | s => (members bound s).map fun p => (ofMembers p.1, p.2)
    | s => number s

/-- The items of an array up to its closing bracket; there is at least one. -/
def items (bound : Nat) (s : List (Option Char)) : Option (List Json × List (Option Char)) :=
  match bound with
  | 0 => none
  | bound + 1 =>
    match value bound s with
    | none => none
    | some (j, s) =>
      match skipBlanks s with
      | some ']' :: s => some ([j], s)
      | some ',' :: s => (items bound s).map fun p => (j :: p.1, p.2)
      | _ => none

/-- The members of an object up to its closing brace, names in units; there is at least one. -/
def members (bound : Nat) (s : List (Option Char)) :
    Option (List (List StringUnit × Json) × List (Option Char)) :=
  match bound with
  | 0 => none
  | bound + 1 =>
    match skipBlanks s with
    | some '"' :: s =>
      match stringUnits s with
      | none => none
      | some (name, s) =>
        match skipBlanks s with
        | some ':' :: s =>
          match value bound s with
          | none => none
          | some (j, s) =>
            match skipBlanks s with
            | some '}' :: s => some ([(name, j)], s)
            | some ',' :: s => (members bound s).map fun p => ((name, j) :: p.1, p.2)
            | _ => none
        | _ => none
    | _ => none

end

/-- The value of a list of characters, which holds nothing else. -/
def parseChars (s : List (Option Char)) : Option Json :=
  match value (2 * s.length + 1) s with
  | some (j, rest) => if (skipBlanks rest).isEmpty then some j else none
  | none => none

/-- The value that a text denotes. -/
def parse (s : String) : Option Json := parseChars (s.toList.map some)

/-- The value that bytes denote. -/
def parseBytes (bytes : ByteArray) : Option Json := parseChars (Text.charsOf bytes)

@[simp] theorem stringUnits_nil : stringUnits [] = none := by rw [stringUnits]

@[simp] theorem stringUnits_quote (s : List (Option Char)) :
    stringUnits (some '"' :: s) = some ([], s) := by
  rw [stringUnits]

@[simp] theorem decodeUnits_nil : decodeUnits [] = some [] := rfl

@[simp] theorem decodeUnits_char (c : Char) (l : List StringUnit) :
    decodeUnits (.char c :: l) = (decodeUnits l).map (c :: ·) := rfl

@[simp] theorem decodeUnits_stray (l : List StringUnit) : decodeUnits (.stray :: l) = none := rfl

theorem parseBytes_of_fromUTF8? {bytes : ByteArray} {s : String}
    (h : String.fromUTF8? bytes = some s) :
    parseBytes bytes = parse s := by rw [parseBytes, parse, Text.charsOf_of_fromUTF8? h]

end ModuleAtlas.Json
