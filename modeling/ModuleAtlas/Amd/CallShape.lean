import ModuleAtlas.Text.Word

/-!
# Shapes of calls in source text

A source is searched for calls of a few fixed shapes, without reading the language it is written in.
A shape is a function from the characters that are left to what it found and the characters after
it.  Shapes that start with a name only count where no word runs into the name.

## Main definitions

* `upTo`, `quoted` — text up to a closing character, and text between two equal quotes.
* `literals` — all quoted texts.
* `defineOpen`, `defineArray`, `requireArray`, `requireOne` — the shapes of calls.
* `occurrences` — the places where a shape occurs, from left to right and without overlap.
-/

namespace ModuleAtlas.Amd

/-- The characters from the first one that is not white space. -/
def skipSpace (s : List Char) : List Char := s.dropWhile Text.isSpace

/-- The characters before the first `stop`, and those after it. -/
def upTo (stop : Char) : List Char → Option (List Char × List Char)
  | [] => none
  | c :: s => if c = stop then some ([], s) else (upTo stop s).map fun p => (c :: p.1, p.2)

/-- The text between two equal quotes at the start. -/
def quoted : List Char → Option (List Char × List Char)
  | '"' :: s => upTo '"' s
  | '\'' :: s => upTo '\'' s
  | _ => none

/-! ### Calls -/

/-- The argument list of a call of `name` that starts here. -/
def arguments (name : List Char) (s : List Char) : Option (List Char) :=
  match name.isPrefixOf? s with
  | none => none
  | some s =>
    match skipSpace s with
    | '(' :: s => some (skipSpace s)
    | _ => none

/-- The arguments after a leading quoted text and its comma, or all of them if there is none. -/
def skipName (s : List Char) : List Char :=
  match quoted s with
  | none => s
  | some (_, rest) =>
    match skipSpace rest with
    | ',' :: rest => skipSpace rest
    | _ => s

/-- The text after the opening bracket of an array that starts here. -/
def arrayOpen : List Char → Option (List Char)
  | '[' :: s => some s
  | _ => none

/-- A definition whose first array opens: what stands after the bracket. -/
def defineOpen (s : List Char) : Option (List Char × List Char) := do
  let s ← arguments "define".toList s
  let s ← arrayOpen (skipName s)
  return ([], s)

/-- A definition with an array, up to the first closing bracket: the text inside. -/
def defineArray (s : List Char) : Option (List Char × List Char) := do
  let (_, s) ← defineOpen s
  upTo ']' s

/-- A requirement of an array, up to the first closing bracket: the text inside. -/
def requireArray (s : List Char) : Option (List Char × List Char) := do
  let s ← arguments "require".toList s
  let s ← arrayOpen s
  upTo ']' s

/-- A requirement of one quoted text, which is not empty: the text. -/
def requireOne (s : List Char) : Option (List Char × List Char) :=
  match (arguments "require".toList s).bind quoted with
  | some (c :: name, s) =>
    match skipSpace s with
    | ')' :: s => some (c :: name, s)
    | _ => none
  | _ => none

/-! ### Occurrences -/

/-- The occurrences of a shape, from left to right and without overlap.  A shape is tried where the
character before, if any, satisfies `start`; the first `skip` characters belong to an occurrence
found earlier. -/
def occurrencesFrom (start : Char → Bool) (shape : List Char → Option (List Char × List Char)) :
    Nat → Bool → List Char → List (List Char)
  | _, _, [] => []
  | skip + 1, _, c :: s => occurrencesFrom start shape skip (start c) s
  | 0, here, c :: s =>
    match if here then shape (c :: s) else none with
    | some (found, rest) =>
      found :: occurrencesFrom start shape (s.length - rest.length) (start c) s
    | none => occurrencesFrom start shape 0 (start c) s

/-- The occurrences of a shape that starts with a name: no word character may come before it. -/
def occurrences (shape : List Char → Option (List Char × List Char)) (s : List Char) :
    List (List Char) :=
  occurrencesFrom (fun c => !Text.isWord c) shape 0 true s

/-- All quoted texts, from left to right. -/
def literals (s : List Char) : List String :=
  (occurrencesFrom (fun _ => true) quoted 0 true s).map String.ofList

@[simp] theorem upTo_nil (stop : Char) : upTo stop [] = none := rfl

@[simp] theorem upTo_cons_self (stop : Char) (s : List Char) :
    upTo stop (stop :: s) = some ([], s) := by
  simp [upTo]

theorem upTo_cons_of_ne {c stop : Char} (h : c ≠ stop) (s : List Char) :
    upTo stop (c :: s) = (upTo stop s).map fun p => (c :: p.1, p.2) := by
  simp [upTo, h]

/-- What is cut off up to a character is the text before its first occurrence. -/
theorem eq_of_upTo {stop : Char} {s before after : List Char}
    (h : upTo stop s = some (before, after)) : s = before ++ stop :: after ∧ stop ∉ before := by
  induction s generalizing before with
  | nil => simp at h
  | cons c s ih =>
    by_cases hc : c = stop
    · subst hc
      simp only [upTo_cons_self, Option.some.injEq, Prod.mk.injEq] at h
      obtain ⟨rfl, rfl⟩ := h
      simp
    · rw [upTo_cons_of_ne hc] at h
      obtain ⟨⟨b, a⟩, hs, he⟩ := Option.map_eq_some_iff.1 h
      simp only [Prod.mk.injEq] at he
      obtain ⟨rfl, rfl⟩ := he
      obtain ⟨rfl, hn⟩ := ih hs
      exact ⟨by simp, by simp [Ne.symm hc, hn]⟩

end ModuleAtlas.Amd
