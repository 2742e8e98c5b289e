import Mathlib.Data.List.Basic

/-!
# Lexemes of a source

A source without regular expressions and templates is a row of literals, comments and single
characters of code.  What starts with a quote is a literal, up to the next quote of the same kind
that has no backslash before it.  What starts with `//` or `/*` elsewhere is a comment, up to the
end of the line or to the next `*/`.

## Main definitions

* `LiteralBody` — the characters of a literal behind its opening quote.
* `Lexeme`, `Lexes` — the lexemes, and which ones a source consists of.
* `sourceOf`, `uncommented` — the source that lexemes make up, and the source without its comments.

## Main results

* `Lexes.eq_sourceOf` — the lexemes of a source make it up.
* `Lexes.of_code`, `Lexes.of_quote`, `Lexes.of_star`, `Lexes.of_slash` — what a source starts with
  by its first characters.
* `Lexes.unique` — a source consists of lexemes in at most one way.
-/

namespace ModuleAtlas.Amd

/-- Whether a character opens a literal. -/
def isQuote (c : Char) : Bool := c = '"' || c = '\''

/-- Whether a character ends a line: a line feed, a carriage return, or a line or paragraph
separator. -/
def isLineEnd (c : Char) : Bool := c = '\n' || c = '\r' || c = '\u2028' || c = '\u2029'

/-- The characters of a literal behind its opening quote `q`, with the closing one. -/
inductive LiteralBody (q : Char) : List Char → Prop
  /-- The closing quote. -/
  | close : LiteralBody q [q]
  /-- A character that stands for itself. -/
  | plain {c : Char} {l : List Char} : c ≠ q → c ≠ '\\' → LiteralBody q l → LiteralBody q (c :: l)
  /-- A backslash takes the next character with it. -/
  | escape (c : Char) {l : List Char} : LiteralBody q l → LiteralBody q ('\\' :: c :: l)

/-- A part of a source. -/
inductive Lexeme
  /-- A character that belongs to neither a literal nor a comment. -/
  | code (c : Char)
  /-- A literal with its quotes. -/
  | literal (text : List Char)
  /-- The text between `/*` and `*/`. -/
  | block (body : List Char)
  /-- The text between `//` and the end of the line. -/
  | line (body : List Char)
  deriving DecidableEq, Repr

namespace Lexeme

/-- The characters of a lexeme. -/
def text : Lexeme → List Char
  | code c => [c]
  | literal t => t
  | block body => '/' :: '*' :: (body ++ ['*', '/'])
  | line body => '/' :: '/' :: body

/-- The characters that are left when comments are removed. -/
def kept : Lexeme → List Char
  | code c => [c]
  | literal t => t
  | block _ => []
  | line _ => []

end Lexeme

/-- The source that lexemes make up. -/
def sourceOf (ls : List Lexeme) : List Char := ls.flatMap Lexeme.text

/-- The source that lexemes make up, without its comments. -/
def uncommented (ls : List Lexeme) : List Char := ls.flatMap Lexeme.kept

/-- The source `s` consists of the lexemes `ls`. -/
inductive Lexes : List Lexeme → List Char → Prop
  /-- The empty source. -/
  | nil : Lexes [] []
  /-- A character that opens nothing. -/
  | code {c : Char} {ls : List Lexeme} {s : List Char} : isQuote c = false →
      (c = '/' → s.head? ≠ some '/' ∧ s.head? ≠ some '*') → Lexes ls s →
        Lexes (.code c :: ls) (c :: s)
  /-- A literal. -/
  | literal {q : Char} {body : List Char} {ls : List Lexeme} {s : List Char} : isQuote q = true →
      LiteralBody q body → Lexes ls s → Lexes (.literal (q :: body) :: ls) (q :: (body ++ s))
  /-- A comment up to the first `*/`. -/
  | block {body : List Char} {ls : List Lexeme} {s : List Char} : ¬ ['*', '/'] <:+: body ++ ['*'] →
      Lexes ls s → Lexes (.block body :: ls) ('/' :: '*' :: (body ++ '*' :: '/' :: s))
  /-- A comment up to the end of its line. -/
  | line {body : List Char} {ls : List Lexeme} {s : List Char} : (∀ c ∈ body, isLineEnd c = false) →
      (∀ c ∈ s.head?, isLineEnd c = true) → Lexes ls s →
        Lexes (.line body :: ls) ('/' :: '/' :: (body ++ s))

@[simp] theorem sourceOf_nil : sourceOf [] = [] := rfl

@[simp] theorem sourceOf_cons (x : Lexeme) (ls : List Lexeme) :
    sourceOf (x :: ls) = x.text ++ sourceOf ls :=
  List.flatMap_cons

@[simp] theorem uncommented_nil : uncommented [] = [] := rfl

@[simp] theorem uncommented_code (c : Char) (ls : List Lexeme) :
    uncommented (.code c :: ls) = c :: uncommented ls := rfl

@[simp] theorem uncommented_literal (t : List Char) (ls : List Lexeme) :
    uncommented (.literal t :: ls) = t ++ uncommented ls := rfl

@[simp] theorem uncommented_block (body : List Char) (ls : List Lexeme) :
    uncommented (.block body :: ls) = uncommented ls := rfl

@[simp] theorem uncommented_line (body : List Char) (ls : List Lexeme) :
    uncommented (.line body :: ls) = uncommented ls := rfl

/-! ### Literals -/

/-- A literal ends with its quote. -/
theorem LiteralBody.exists_concat {q : Char} {l : List Char} (h : LiteralBody q l) :
    ∃ w, l = w ++ [q] := by
  induction h with
  | close => exact ⟨[], rfl⟩
  | @plain c l _ _ _ ih =>
    obtain ⟨w, rfl⟩ := ih
    exact ⟨c :: w, rfl⟩
  | @escape c l _ ih =>
    obtain ⟨w, rfl⟩ := ih
    exact ⟨'\\' :: c :: w, rfl⟩

theorem LiteralBody.eq_of_concat {q c : Char} {body w : List Char} (h : LiteralBody q body)
    (hw : q :: body = w ++ [c]) : q = c := by
  obtain ⟨u, rfl⟩ := h.exists_concat
  rw [← List.cons_append] at hw
  exact List.singleton_injective (List.append_inj' hw rfl).2

/-- Text without the quote and without backslashes is the inside of a literal. -/
theorem LiteralBody.of_notMem {q : Char} {w : List Char} (hq : q ∉ w) (hw : '\\' ∉ w) :
    LiteralBody q (w ++ [q]) := by
  induction w with
  | nil => exact .close
  | cons c w ih =>
    rw [List.mem_cons, not_or] at hq hw
    exact .plain (Ne.symm hq.1) (Ne.symm hw.1) (ih hq.2 hw.2)

/-- Where a literal ends does not depend on what follows. -/
theorem LiteralBody.append_inj {q : Char} (hq : q ≠ '\\') {l l' s s' : List Char}
    (h : LiteralBody q l) (h' : LiteralBody q l') (hs : l ++ s = l' ++ s') : l = l' ∧ s = s' := by
  induction h generalizing l' with
  | close =>
    cases h' with
    | close => exact ⟨rfl, List.append_cancel_left hs⟩
    | plain hc _ _ => exact absurd (List.cons.inj hs).1.symm hc
    | escape _ _ => exact absurd (List.cons.inj hs).1 hq
  | plain hc hesc _ ih =>
    cases h' with
    | close => exact absurd (List.cons.inj hs).1 hc
    | plain _ _ h' =>
      obtain ⟨rfl, htail⟩ := List.cons.inj hs
      obtain ⟨rfl, hrest⟩ := ih h' htail
      exact ⟨rfl, hrest⟩
    | escape _ _ => exact absurd (List.cons.inj hs).1 hesc
  | escape c _ ih =>
    cases h' with
    | close => exact absurd (List.cons.inj hs).1.symm hq
    | plain _ hesc _ => exact absurd (List.cons.inj hs).1.symm hesc
    | escape d h' =>
      obtain ⟨rfl, htail⟩ := List.cons.inj (List.cons.inj hs).2
      obtain ⟨rfl, hrest⟩ := ih h' htail
      exact ⟨rfl, hrest⟩

theorem ne_of_isQuote {q c : Char} (hq : isQuote q = true) (hc : isQuote c = false) : q ≠ c := by
  rintro rfl
  rw [hq] at hc
  cases hc

/-! ### Comments -/

/-- The first `*/` ends a comment. -/
theorem block_append_inj {b b' s s' : List Char} (h : ¬ ['*', '/'] <:+: b ++ ['*'])
    (h' : ¬ ['*', '/'] <:+: b' ++ ['*']) (hs : b ++ '*' :: '/' :: s = b' ++ '*' :: '/' :: s') :
    b = b' ∧ s = s' := by
  -- what comes before the first end cannot reach into it
  have hshort : ∀ {b c s s' : List Char}, ¬ ['*', '/'] <:+: b ++ c ++ ['*'] → c ≠ [] →
      c ++ '*' :: '/' :: s' ≠ '*' :: '/' :: s := by
    intro b c s s' hno hne heq
    match c with
    | [] => exact hne rfl
    | [d] => cases (List.cons.inj (List.cons.inj heq).2).1
    | d :: e :: c =>
      obtain rfl := (List.cons.inj heq).1
      obtain rfl := (List.cons.inj (List.cons.inj heq).2).1
      exact hno ⟨b, c ++ ['*'], by simp⟩
  rcases List.append_eq_append_iff.1 hs with ⟨c, rfl, hc⟩ | ⟨c, rfl, hc⟩
  · by_cases hne : c = []
    · subst hne
      exact ⟨(List.append_nil b).symm, by simpa using hc⟩
    · exact absurd hc.symm (hshort h' hne)
  · by_cases hne : c = []
    · subst hne
      exact ⟨List.append_nil b', by simpa using hc.symm⟩
    · exact absurd hc.symm (hshort h hne)

/-- The first end of a line ends a comment. -/
theorem line_append_inj {b b' s s' : List Char} (h : ∀ c ∈ b, isLineEnd c = false)
    (h' : ∀ c ∈ b', isLineEnd c = false) (hend : ∀ c ∈ s.head?, isLineEnd c = true)
    (hend' : ∀ c ∈ s'.head?, isLineEnd c = true) (hs : b ++ s = b' ++ s') : b = b' ∧ s = s' := by
  have hshort : ∀ {c s s' : List Char}, (∀ d ∈ c, isLineEnd d = false) →
      (∀ d ∈ s.head?, isLineEnd d = true) → s = c ++ s' → c = [] := by
    intro c s s' hc hs heq
    cases c with
    | nil => rfl
    | cons d c =>
      have hd := hs d (by rw [heq]; rfl)
      rw [hc d List.mem_cons_self] at hd
      cases hd
  rcases List.append_eq_append_iff.1 hs with ⟨c, rfl, hc⟩ | ⟨c, rfl, hc⟩
  · obtain rfl := hshort (fun d hd => h' d (List.mem_append_right _ hd)) hend hc
    exact ⟨(List.append_nil b).symm, hc⟩
  · obtain rfl := hshort (fun d hd => h d (List.mem_append_right _ hd)) hend' hc
    exact ⟨List.append_nil b', hc.symm⟩

/-! ### Reading a source -/

/-- **The lexemes of a source make it up.** -/
theorem Lexes.eq_sourceOf {ls : List Lexeme} {s : List Char} (h : Lexes ls s) :
    s = sourceOf ls := by
  induction h with
  | nil => rfl
  | code _ _ _ ih => rw [ih]; rfl
  | literal _ _ _ ih => rw [ih]; rfl
  | block _ _ ih => simp [ih, Lexeme.text]
  | line _ _ _ ih => rw [ih]; rfl

section Opening

variable {c : Char} {ls : List Lexeme} {s : List Char} (h : Lexes ls (c :: s))

include h

/-- A character that opens nothing is code. -/
theorem Lexes.of_code (hq : isQuote c = false)
    (hslash : c = '/' → s.head? ≠ some '/' ∧ s.head? ≠ some '*') :
    ∃ ls', ls = .code c :: ls' ∧ Lexes ls' s := by
  cases h with
  | code _ _ h => exact ⟨_, rfl, h⟩
  | literal hq' _ _ => exact absurd rfl (ne_of_isQuote hq' hq)
  | block _ _ => exact absurd rfl (hslash rfl).2
  | line _ _ _ => exact absurd rfl (hslash rfl).1

/-- A quote opens a literal. -/
theorem Lexes.of_quote (hq : isQuote c = true) :
    ∃ body r ls', ls = .literal (c :: body) :: ls' ∧ s = body ++ r ∧ LiteralBody c body ∧
      Lexes ls' r := by
  cases h with
  | code hq' _ _ => exact absurd rfl (ne_of_isQuote hq hq')
  | literal _ hbody h => exact ⟨_, _, _, rfl, rfl, hbody, h⟩
  | block _ _ => exact absurd rfl (ne_of_isQuote hq (by decide))
  | line _ _ _ => exact absurd rfl (ne_of_isQuote hq (by decide))

/-- A slash and a star open a comment. -/
theorem Lexes.of_star (hc : c = '/') (hs : s.head? = some '*') :
    ∃ body r ls', ls = .block body :: ls' ∧ s = '*' :: (body ++ '*' :: '/' :: r) ∧
      ¬ ['*', '/'] <:+: body ++ ['*'] ∧ Lexes ls' r := by
  cases h with
  | code _ hslash _ => exact absurd hs (hslash hc).2
  | literal hq _ _ => exact absurd hc (ne_of_isQuote hq (by decide))
  | block hbody h => exact ⟨_, _, _, rfl, rfl, hbody, h⟩
  | line _ _ _ => cases hs

/-- Two slashes open a comment. -/
theorem Lexes.of_slash (hc : c = '/') (hs : s.head? = some '/') :
    ∃ body r ls', ls = .line body :: ls' ∧ s = '/' :: (body ++ r) ∧
      (∀ d ∈ body, isLineEnd d = false) ∧ (∀ d ∈ r.head?, isLineEnd d = true) ∧ Lexes ls' r := by
  cases h with
  | code _ hslash _ => exact absurd hs (hslash hc).1
  | literal hq _ _ => exact absurd hc (ne_of_isQuote hq (by decide))
  | block _ _ => cases hs
  | line hbody hend h => exact ⟨_, _, _, rfl, rfl, hbody, hend, h⟩

end Opening

/-- **A source consists of lexemes in at most one way.** -/
theorem Lexes.unique {ls ls' : List Lexeme} {s : List Char} (h : Lexes ls s) (h' : Lexes ls' s) :
    ls = ls' := by
  induction h generalizing ls' with
  | nil =>
    cases h'
    rfl
  | code hq hslash _ ih =>
    obtain ⟨ls', rfl, hrest⟩ := h'.of_code hq hslash
    rw [ih hrest]
  | literal hq hbody _ ih =>
    obtain ⟨body', r, ls', rfl, hs, hbody', hrest⟩ := h'.of_quote hq
    obtain ⟨rfl, rfl⟩ := hbody.append_inj (ne_of_isQuote hq (by decide)) hbody' hs
    rw [ih hrest]
  | block hbody _ ih =>
    obtain ⟨body', r, ls', rfl, hs, hbody', hrest⟩ := h'.of_star rfl rfl
    obtain ⟨rfl, rfl⟩ := block_append_inj hbody hbody' (List.cons.inj hs).2
    rw [ih hrest]
  | line hbody hend _ ih =>
    obtain ⟨body', r, ls', rfl, hs, hbody', hend', hrest⟩ := h'.of_slash rfl rfl
    obtain ⟨rfl, rfl⟩ := line_append_inj hbody hbody' hend hend' (List.cons.inj hs).2
    rw [ih hrest]

/-- Text without quotes and slashes is code. -/
theorem Lexes.codes {w : List Char} (hw : ∀ c ∈ w, isQuote c = false ∧ c ≠ '/') {ls : List Lexeme}
    {s : List Char} (h : Lexes ls s) : Lexes (w.map .code ++ ls) (w ++ s) := by
  induction w with
  | nil => exact h
  | cons c w ih =>
    obtain ⟨hq, hslash⟩ := hw c List.mem_cons_self
    exact .code hq (fun hc => absurd hc hslash) (ih fun d hd => hw d (List.mem_cons_of_mem _ hd))

end ModuleAtlas.Amd
