import ModuleAtlas.Proofs.CommentLaws
import ModuleAtlas.Proofs.Lexemes
import ModuleAtlas.Proofs.Padding

/-!
# Removing comments

Comments are cut out without knowing what a literal is, and a line comment only where it stands
alone in its line.  So a literal may be taken for the start of a comment, and a comment behind code
may be left.  Where neither happens, what is left differs from the source without its comments only
in blanks at the ends of lines, and the same is read.

## Main definitions

* `Lexeme.Recognized`, `Recognized` — a literal holds nothing that is taken for a comment, and a
  comment is found.
* `Removed` — what is left of a part of a source, compared with the part without its comments.

## Main results

* `stripComments_padded` — what is left of a source whose lexemes are recognized.
* `stripComments_uncommented` — a source without its comments is left as it is.
* `read_uncommented` — **where all lexemes are recognized, comments are ignored.**
* `read_uncommented_ne` — a literal that looks like the start of a comment hides the code behind it.
-/

namespace ModuleAtlas.Amd

/-- Whether a line starts behind a text. -/
def startsLine (pre : List Char) : Bool := after isBreak true pre

/-- Whether the last line of a text has only blanks. -/
def blankLine (pre : List Char) : Bool :=
  pre.foldl (fun blank c => isBreak c || (blank && isLineBlank c)) true

/-- With `pre` before it and `rest` behind it, a lexeme is not mistaken for something else. -/
def Lexeme.Recognized (pre rest : List Char) : Lexeme → Prop
  | .code _ => True
  | .literal t =>
    ∀ u v, t = u ++ v → v ≠ [] → afterComment (startsLine (pre ++ u)) (v ++ rest) = none
  | .block _ => True
  | .line _ => blankLine pre = true ∧ ∀ c ∈ rest.takeWhile (· ≠ '\n'), isTrailing c = true

/-- With `pre` before them, no lexeme is mistaken for something else. -/
def Recognized : List Char → List Lexeme → Prop
  | _, [] => True
  | pre, x :: ls => x.Recognized pre (sourceOf ls) ∧ Recognized (pre ++ x.text) ls

theorem Recognized.codes {w : List Char} {ls : List Lexeme} :
    ∀ {pre : List Char}, Recognized (pre ++ w) ls → Recognized pre (w.map .code ++ ls) := by
  induction w with
  | nil => intro pre h; rwa [List.append_nil] at h
  | cons c w ih => exact fun h => ⟨trivial, ih (by rwa [List.append_assoc])⟩

/-! ### Lines -/

theorem startsLine_append (pre w : List Char) :
    startsLine (pre ++ w) = after isBreak (startsLine pre) w :=
  List.foldl_append

theorem startsLine_concat (pre : List Char) (c : Char) : startsLine (pre ++ [c]) = isBreak c :=
  List.foldl_concat ..

theorem blankLine_concat (pre : List Char) (c : Char) :
    blankLine (pre ++ [c]) = (isBreak c || (blankLine pre && isLineBlank c)) := List.foldl_concat ..

/-- A line with something in it is not blank. -/
theorem blankLine_append_cons {c : Char} (hc : isBreak c = false ∧ isLineBlank c = false)
    {w : List Char} (hw : '\n' ∉ w) (pre : List Char) : blankLine (pre ++ c :: w) = false := by
  induction w using List.reverseRecOn with
  | nil => rw [blankLine_concat, hc.1, hc.2, Bool.and_false, Bool.or_false]
  | append_singleton w d ih =>
    rw [List.mem_append, not_or, List.mem_singleton] at hw
    have hd : isBreak d = false := decide_eq_false (Ne.symm hw.2)
    rw [← List.cons_append, ← List.append_assoc, blankLine_concat, ih hw.1, hd, Bool.false_and,
      Bool.or_false]

theorem isTrailing_of_isLineBlank {c : Char} (h : isLineBlank c = true) : isTrailing c = true := by
  simp only [isLineBlank, Bool.or_eq_true, decide_eq_true_eq] at h
  rcases h with rfl | rfl <;> decide

theorem isLineBlank_of_isQuote {c : Char} (h : isQuote c = true) : isLineBlank c = false := by
  simp only [isQuote, Bool.or_eq_true, decide_eq_true_eq] at h
  rcases h with rfl | rfl <;> decide

/-! ### Comments -/

/-- A line comment reaches to the end of its line. -/
theorem exists_append_of_afterLine {s r : List Char} (h : afterLine s = some r) :
    ∃ x, s = x ++ r ∧ x ≠ [] ∧ '\n' ∉ x ∧ EndsLine true r := by
  induction s with
  | nil => cases h
  | cons c s ih =>
    by_cases hc : isLineBlank c = true
    · rw [afterLine_cons_of_blank hc] at h
      obtain ⟨x, rfl, -, hx, hr⟩ := ih h
      refine ⟨c :: x, rfl, List.cons_ne_nil c x, ?_, hr⟩
      rw [List.mem_cons, not_or]
      exact ⟨fun hbreak => absurd (hbreak ▸ hc) (by decide), hx⟩
    · by_cases hslash : c = '/' ∧ s.head? = some '/'
      · obtain ⟨rfl, hs⟩ := hslash
        obtain ⟨t, rfl⟩ := List.head?_eq_some_iff.1 hs
        obtain rfl : t.dropWhile (· ≠ '\n') = r := Option.some.inj h
        refine ⟨'/' :: '/' :: t.takeWhile (· ≠ '\n'), by simp, by simp, ?_, ?_⟩
        · simp only [List.mem_cons, not_or]
          exact ⟨by decide, by decide, fun hmem => by simpa using List.mem_takeWhile_imp hmem⟩
        · cases hdrop : t.dropWhile (· ≠ '\n') with
          | nil => rfl
          | cons d u =>
            have hhead := List.head?_dropWhile_not (· ≠ '\n') t
            rw [hdrop] at hhead
            simpa [EndsLine] using hhead
      · rw [afterLine_cons_eq_none (Bool.eq_false_iff.2 hc) hslash] at h
        cases h

/-- At a quote no comment starts. -/
theorem afterComment_quote {q : Char} (hq : isQuote q = true) (lineStart : Bool) (s : List Char) :
    afterComment lineStart (q :: s) = none := by
  have hslash : q ≠ '/' := ne_of_isQuote hq (by decide)
  exact afterComment_eq_none_iff.2 ⟨afterBlock_cons_eq_none fun h => hslash h.1,
    fun _ => afterLine_cons_eq_none (isLineBlank_of_isQuote hq) fun h => hslash h.1⟩

/-- In a literal within a line, without `/*`, nothing is taken for a comment. -/
theorem Lexeme.recognized_literal {q : Char} {body : List Char} (hq : isQuote q = true)
    (hbody : LiteralBody q body) (hline : '\n' ∉ q :: body) (hopen : ¬ ['/', '*'] <:+: q :: body)
    (pre rest : List Char) : (Lexeme.literal (q :: body)).Recognized pre rest := by
  intro u v hw hv
  cases u with
  | nil =>
    rw [← show q :: body = v from hw]
    exact afterComment_quote hq _ _
  | cons c u =>
    have hbreak : '\n' ∉ c :: u := fun hmem => hline (hw ▸ List.mem_append_left v hmem)
    rw [startsLine_append, after_isBreak_of_notMem hbreak (.inl (List.cons_ne_nil c u))]
    refine afterComment_eq_none_iff.2 ⟨?_, fun h => by cases h⟩
    match v with
    | [] => exact absurd rfl hv
    | [d] =>
      obtain rfl : q = d := hbody.eq_of_concat hw
      exact afterBlock_cons_eq_none fun hc => ne_of_isQuote hq (by decide) hc.1
    | d :: e :: v =>
      refine afterBlock_cons_eq_none ?_
      rintro ⟨rfl, he⟩
      obtain rfl : e = '*' := Option.some.inj he
      exact hopen ⟨c :: u, v, by rw [hw]; simp⟩

/-! ### Cutting out -/

/-- A line comment is cut out with the blanks before it. -/
theorem stripFrom_of_afterLine {s r : List Char} (hblock : afterBlock s = none)
    (h : afterLine s = some r) : stripFrom 0 true s = stripFrom 0 false r := by
  obtain ⟨x, hs, hx, hbreak, -⟩ := exists_append_of_afterLine h
  have hcomment : afterComment true s = some r := by rw [afterComment, hblock]; exact h
  rw [stripFrom_of_some hcomment hs hx, after_isBreak_of_notMem hbreak (.inl hx)]

/-- Blanks are kept where no line starts. -/
theorem stripFrom_append_trailing {w : List Char} (hw : ∀ c ∈ w, isTrailing c = true)
    (rest : List Char) : stripFrom 0 false (w ++ rest) = w ++ stripFrom 0 false rest := by
  induction w with
  | nil => rfl
  | cons c w ih =>
    have hc := hw c List.mem_cons_self
    have hbreak : isBreak c = false := decide_eq_false fun hn => absurd (hn ▸ hc) (by decide)
    have hblock : afterBlock (c :: (w ++ rest)) = none :=
      afterBlock_cons_eq_none fun hs => absurd (hs.1 ▸ hc) (by decide)
    have hcomment : afterComment false (c :: (w ++ rest)) = none :=
      afterComment_eq_none_iff.2 ⟨hblock, fun h => by cases h⟩
    rw [List.cons_append, stripFrom_cons_of_none hcomment, hbreak, ih fun d hd =>
      hw d (List.mem_cons_of_mem _ hd)]
    rfl

/-- What is left of a text that starts at the end of a line starts there, too. -/
theorem EndsLine.stripFrom {r : List Char} (h : EndsLine true r) :
    EndsLine true (stripFrom 0 false r) := by
  cases r with
  | nil => rfl
  | cons c r =>
    obtain rfl : c = '\n' := h
    rfl

/-! ### One lexeme after the other -/

/-- What is left of the part `s` of a source, with `pre` before it, and the part without its
comments.  Blanks at the start of a line go with a line comment behind them, so a part is looked at
from within such blanks as well. -/
structure Removed (pre : List Char) (ls : List Lexeme) (s : List Char) : Prop where
  /-- The part starts where no line comment has been missed. -/
  here : (blankLine pre = true → startsLine pre = false → afterLine s = none) →
    Padded true (stripFrom 0 (startsLine pre) s) (uncommented ls)
  /-- The part starts within blanks that go with a line comment. -/
  within : ∀ r, afterLine s = some r → Padded true (stripFrom 0 false r) (uncommented ls)

namespace Removed

variable {pre : List Char} {ls : List Lexeme} {s : List Char}

theorem nil : Removed pre [] [] where
  here _ := .nil
  within _ h := by cases h

theorem code {c : Char} (hslash : c = '/' → s.head? ≠ some '/' ∧ s.head? ≠ some '*')
    (h : Removed (pre ++ [c]) ls s) : Removed pre (.code c :: ls) (c :: s) := by
  have hblock : afterBlock (c :: s) = none := afterBlock_cons_eq_none fun hc => (hslash hc.1).2 hc.2
  have hwithin : ∀ r, afterLine (c :: s) = some r →
      Padded true (stripFrom 0 false r) (c :: uncommented ls) := by
    intro r hr
    have hc : isLineBlank c = true := by
      by_contra hc
      rw [afterLine_cons_eq_none (Bool.eq_false_iff.2 hc) fun hc => (hslash hc.1).1 hc.2] at hr
      cases hr
    obtain ⟨-, -, -, -, hline⟩ := exists_append_of_afterLine hr
    rw [afterLine_cons_of_blank hc] at hr
    exact .pad (isTrailing_of_isLineBlank hc) hline.stripFrom (h.within r hr)
  refine ⟨fun hmissed => ?_, hwithin⟩
  rw [uncommented_code]
  cases hline : afterComment (startsLine pre) (c :: s) with
  | none =>
    rw [stripFrom_cons_of_none hline]
    have hrest := h.here
    rw [startsLine_concat, blankLine_concat] at hrest
    refine .cons c (hrest fun hblank hbreak => ?_)
    rw [hbreak, Bool.false_or, Bool.and_eq_true] at hblank
    rw [← afterLine_cons_of_blank hblank.2]
    cases hstart : startsLine pre with
    | false => exact hmissed hblank.1 hstart
    | true => exact (afterComment_eq_none_iff.1 hline).2 hstart
  | some r =>
    rw [afterComment, hblock] at hline
    cases hstart : startsLine pre with
    | false => rw [hstart] at hline; cases hline
    | true =>
      rw [hstart] at hline
      rw [stripFrom_of_afterLine hblock hline]
      exact hwithin r hline

theorem literal {q : Char} {body : List Char} (hq : isQuote q = true) (hbody : LiteralBody q body)
    (hrec : (Lexeme.literal (q :: body)).Recognized pre s) (h : Removed (pre ++ q :: body) ls s) :
    Removed pre (.literal (q :: body) :: ls) (q :: (body ++ s)) := by
  have hslash : q ≠ '/' := ne_of_isQuote hq (by decide)
  refine ⟨fun _ => ?_, fun r hr => ?_⟩
  · obtain ⟨w, rfl⟩ := hbody.exists_concat
    have hblank : blankLine (pre ++ q :: (w ++ [q])) = false := by
      have hbreak : isBreak q = false := decide_eq_false (ne_of_isQuote hq (by decide))
      rw [← List.cons_append, ← List.append_assoc, blankLine_concat, hbreak,
        isLineBlank_of_isQuote hq, Bool.and_false, Bool.or_false]
    have hkept := stripFrom_of_none (q :: (w ++ [q])) s (startsLine pre) fun u v hw hv => by
      rw [← startsLine_append]
      exact hrec u v hw hv
    rw [← startsLine_append] at hkept
    rw [uncommented_literal, ← List.cons_append, hkept]
    refine (Padded.refl false _).append (h.here fun hb => ?_)
    rw [hblank] at hb
    cases hb
  · rw [afterLine_cons_eq_none (isLineBlank_of_isQuote hq) fun hc => hslash hc.1] at hr
    cases hr

theorem block {body : List Char} (hbody : ¬ ['*', '/'] <:+: body ++ ['*'])
    (h : Removed (pre ++ (Lexeme.block body).text) ls s) :
    Removed pre (.block body :: ls) ('/' :: '*' :: (body ++ '*' :: '/' :: s)) := by
  have htext : (Lexeme.block body).text = ('/' :: '*' :: (body ++ ['*'])) ++ ['/'] := by
    simp [Lexeme.text]
  refine ⟨fun _ => ?_, fun r hr => ?_⟩
  · have hcomment : ∀ b, afterComment b ('/' :: '*' :: (body ++ '*' :: '/' :: s)) = some s := by
      intro b
      rw [afterComment, afterBlock, afterClose_append hbody]
    rw [stripFrom_of_some (x := (Lexeme.block body).text) (hcomment _) (by simp [Lexeme.text])
      (by simp [Lexeme.text]), ← startsLine_append]
    refine h.here fun hb => ?_
    rw [htext, ← List.append_assoc, blankLine_concat] at hb
    simp [isBreak, isLineBlank] at hb
  · rw [afterLine_cons_eq_none (by decide) (by simp)] at hr
    cases hr

theorem line {body : List Char} (hbody : ∀ c ∈ body, isLineEnd c = false)
    (hrec : (Lexeme.line body).Recognized pre s)
    (h : Removed (pre ++ (Lexeme.line body).text) ls s) :
    Removed pre (.line body :: ls) ('/' :: '/' :: (body ++ s)) := by
  have hbreak : '\n' ∉ body := fun hmem => absurd (hbody _ hmem) (by decide)
  have hdrop : afterLine ('/' :: '/' :: (body ++ s)) = some (s.dropWhile (· ≠ '\n')) := by
    change some ((body ++ s).dropWhile (· ≠ '\n')) = _
    rw [List.dropWhile_append_of_pos]
    exact fun c hc => decide_eq_true fun hcn => hbreak (hcn ▸ hc)
  obtain ⟨-, -, -, -, hend⟩ := exists_append_of_afterLine hdrop
  have hrest : Padded true (stripFrom 0 false s) (uncommented ls) := by
    have hstart : startsLine (pre ++ (Lexeme.line body).text) = false := by
      rw [startsLine_append]
      exact after_isBreak_of_notMem (by simp [Lexeme.text, hbreak]) (.inl (List.cons_ne_nil _ _))
    have hblank : blankLine (pre ++ (Lexeme.line body).text) = false :=
      blankLine_append_cons (by decide) (by simp [hbreak]) pre
    have hhere := h.here
    rw [hstart, hblank] at hhere
    exact hhere fun hb => by cases hb
  have hwithin : Padded true (stripFrom 0 false (s.dropWhile (· ≠ '\n'))) (uncommented ls) := by
    -- the rest of the line has only blanks, which are kept
    rw [← List.takeWhile_append_dropWhile (p := (· ≠ '\n')) (l := s),
      stripFrom_append_trailing hrec.2] at hrest
    exact hrest.of_append hrec.2 hend.stripFrom
  refine ⟨fun hmissed => ?_, fun r hr => ?_⟩
  · cases hstart : startsLine pre with
    | false =>
      rw [hmissed hrec.1 hstart] at hdrop
      cases hdrop
    | true =>
      rw [stripFrom_of_afterLine (afterBlock_cons_eq_none (by simp)) hdrop]
      exact hwithin
  · obtain rfl : s.dropWhile (· ≠ '\n') = r := Option.some.inj (hdrop.symm.trans hr)
    exact hwithin

end Removed

theorem Lexes.removed {ls : List Lexeme} {s : List Char} (h : Lexes ls s) :
    ∀ {pre : List Char}, Recognized pre ls → Removed pre ls s := by
  induction h with
  | nil => exact fun _ => .nil
  | code _ hslash _ ih => exact fun hrec => .code hslash (ih hrec.2)
  | literal hq hbody h ih =>
      exact fun hrec => .literal hq hbody (h.eq_sourceOf ▸ hrec.1) (ih hrec.2)
  | block hbody _ ih => exact fun hrec => .block hbody (ih hrec.2)
  | line hbody _ h ih => exact fun hrec => .line hbody (h.eq_sourceOf ▸ hrec.1) (ih hrec.2)

/-- **What is left of a source whose lexemes are recognized** is the source without its comments,
apart from blanks at the ends of lines. -/
theorem stripComments_padded {ls : List Lexeme} {s : List Char} (h : Lexes ls s)
    (hrec : Recognized [] ls) : Padded true (stripComments s) (uncommented ls) :=
  (h.removed hrec).here fun _ hstart => by cases hstart

/-! ### A source without its comments -/

/-- A source without its comments starts as the source does, unless the source starts with a
slash. -/
theorem Lexes.head?_uncommented {ls : List Lexeme} {s : List Char} (h : Lexes ls s) :
    s.head? = some '/' ∨ (uncommented ls).head? = s.head? := by
  cases h with
  | nil => exact .inr rfl
  | code _ _ _ => exact .inr rfl
  | literal _ _ _ => exact .inr rfl
  | block _ _ => exact .inl rfl
  | line _ _ _ => exact .inl rfl

/-- Behind a character of code, no slash and no star comes up when comments are removed. -/
theorem Lexes.head?_uncommented_ne {ls : List Lexeme} {s : List Char} (h : Lexes ls s)
    {c d e : Char} (hslash : c = d → s.head? ≠ some '/') (hd : c = d → s.head? ≠ some e) :
    ¬ (c = d ∧ (uncommented ls).head? = some e) := by
  rintro ⟨hc, hhead⟩
  rcases h.head?_uncommented with hs | hs
  · exact hslash hc hs
  · exact hd hc (hs ▸ hhead)

theorem Lexes.afterLine_uncommented {ls : List Lexeme} {s : List Char} (h : Lexes ls s) :
    afterLine (uncommented ls) = none := by
  induction h with
  | nil => rfl
  | @code c ls s _ hslash h ih =>
    rw [uncommented_code]
    by_cases hc : isLineBlank c = true
    · rw [afterLine_cons_of_blank hc, ih]
    · exact afterLine_cons_eq_none (Bool.eq_false_iff.2 hc)
        (h.head?_uncommented_ne (fun hc => (hslash hc).1) fun hc => (hslash hc).1)
  | literal hq _ _ _ =>
    have hslash := ne_of_isQuote hq (show isQuote '/' = false by decide)
    exact afterLine_cons_eq_none (isLineBlank_of_isQuote hq) fun hc => hslash hc.1
  | block _ _ ih => exact ih
  | line _ _ _ ih => exact ih

/-- Where no block comment ends in a source, none does when its comments are removed. -/
theorem Lexes.noPair_uncommented {ls : List Lexeme} {s : List Char} (h : Lexes ls s) :
    NoPair '*' '/' s → NoPair '*' '/' (uncommented ls) := by
  induction h with
  | nil => exact id
  | @code c ls s _ _ h ih =>
    intro hs
    rw [NoPair, List.isChain_cons] at hs
    rw [uncommented_code, NoPair, List.isChain_cons]
    have hclose : c = '*' → s.head? ≠ some '/' := fun hc hhead => hs.1 _ hhead ⟨hc, rfl⟩
    refine ⟨fun d hd hcd => ?_, ih hs.2⟩
    exact h.head?_uncommented_ne hclose hclose ⟨hcd.1, hcd.2 ▸ hd⟩
  | @literal q body ls s hq hbody _ ih =>
    intro hs
    rw [← List.cons_append, NoPair, List.isChain_append] at hs
    rw [uncommented_literal, NoPair, List.isChain_append]
    refine ⟨hs.1, ih hs.2.1, ?_⟩
    obtain ⟨w, rfl⟩ := hbody.exists_concat
    rintro c hc d - ⟨rfl, -⟩
    rw [← List.cons_append, List.getLast?_concat] at hc
    exact ne_of_isQuote hq (by decide) (Option.some.inj hc)
  | @block body ls s _ _ ih =>
    intro hs
    exact ih (hs.suffix ⟨(Lexeme.block body).text, by simp [Lexeme.text]⟩)
  | @line body ls s _ _ _ ih =>
    intro hs
    exact ih (hs.suffix ⟨(Lexeme.line body).text, rfl⟩)

/-- Whether a line comment starts in text up to a quote does not depend on the text behind it. -/
theorem afterLine_append_quote {q : Char} (hq : isQuote q = true) {s t : List Char} (w : List Char)
    (h : afterLine (w ++ q :: s) = none) : afterLine (w ++ q :: t) = none := by
  have hslash : q ≠ '/' := ne_of_isQuote hq (by decide)
  induction w with
  | nil => exact afterLine_cons_eq_none (isLineBlank_of_isQuote hq) fun hc => hslash hc.1
  | cons c w ih =>
    rw [List.cons_append] at h ⊢
    by_cases hc : isLineBlank c = true
    · rw [afterLine_cons_of_blank hc] at h ⊢
      exact ih h
    · refine afterLine_cons_eq_none (Bool.eq_false_iff.2 hc) ?_
      rintro ⟨rfl, hhead⟩
      cases w with
      | nil => exact hslash (Option.some.inj hhead)
      | cons d w =>
        obtain rfl : d = '/' := Option.some.inj hhead
        cases h

/-- Whether a block comment starts in text up to a quote depends on the text behind it by where it
could end. -/
theorem afterBlock_append_quote {q : Char} (hq : isQuote q = true) {s t : List Char}
    (hst : NoPair '*' '/' s → NoPair '*' '/' t) (w : List Char)
    (h : afterBlock (w ++ q :: s) = none) : afterBlock (w ++ q :: t) = none := by
  match w with
  | [] => exact afterBlock_cons_eq_none fun hc => ne_of_isQuote hq (by decide) hc.1
  | [c] =>
    exact afterBlock_cons_eq_none fun hc => ne_of_isQuote hq (by decide) (Option.some.inj hc.2)
  | c :: d :: w =>
    by_cases hc : c = '/' ∧ d = '*'
    · obtain ⟨rfl, rfl⟩ := hc
      have hs : NoPair '*' '/' (w ++ q :: s) := afterClose_eq_none_iff.1 h
      have ht : NoPair '*' '/' (w ++ q :: t) := by
        rw [NoPair, List.isChain_append, List.isChain_cons] at hs ⊢
        refine ⟨hs.1, ⟨?_, hst hs.2.1.2⟩, hs.2.2⟩
        rintro e - ⟨rfl, -⟩
        exact absurd hq (by decide)
      exact afterClose_eq_none_iff.2 ht
    · exact afterBlock_cons_eq_none fun hcd => hc ⟨hcd.1, Option.some.inj hcd.2⟩

theorem Lexes.stripFrom_uncommented {ls : List Lexeme} {s : List Char} (h : Lexes ls s) :
    ∀ {pre : List Char}, Recognized pre ls → ∀ lineStart : Bool,
      stripFrom 0 lineStart (uncommented ls) = uncommented ls := by
  induction h with
  | nil => exact fun _ _ => rfl
  | @code c ls s hq hslash h ih =>
    intro pre hrec lineStart
    have hline : afterLine (c :: uncommented ls) = none :=
      (Lexes.code hq hslash h).afterLine_uncommented
    have hblock : afterBlock (c :: uncommented ls) = none := afterBlock_cons_eq_none
      (h.head?_uncommented_ne (fun hc => (hslash hc).1) fun hc => (hslash hc).2)
    rw [uncommented_code,
      stripFrom_cons_of_none (afterComment_eq_none_iff.2 ⟨hblock, fun _ => hline⟩), ih hrec.2]
  | @literal q body ls s hq hbody h ih =>
    intro pre hrec lineStart
    rw [uncommented_literal, stripFrom_of_none (q :: body) _ lineStart, ih hrec.2]
    intro u v hw hv
    cases u with
    | nil =>
      rw [← show q :: body = v from hw]
      exact afterComment_quote hq _ _
    | cons c u =>
      -- within the literal, only what stands before in it says whether a line starts
      have hstart : after isBreak lineStart (c :: u) = startsLine (pre ++ c :: u) :=
        (startsLine_append pre (c :: u)).symm
      have hnone := hrec.1 (c :: u) v hw hv
      rw [← h.eq_sourceOf, ← hstart] at hnone
      obtain ⟨v, d, rfl⟩ := (List.eq_nil_or_concat' v).resolve_left hv
      obtain rfl : q = d := hbody.eq_of_concat (hw.trans (List.append_assoc ..).symm)
      rw [List.append_assoc] at hnone ⊢
      obtain ⟨hblock, hline⟩ := afterComment_eq_none_iff.1 hnone
      exact afterComment_eq_none_iff.2 ⟨afterBlock_append_quote hq h.noPair_uncommented v hblock,
        fun hb => afterLine_append_quote hq v (hline hb)⟩
  | block _ _ ih => exact fun hrec => ih hrec.2
  | line _ _ _ ih => exact fun hrec => ih hrec.2

/-- **A source without its comments is left as it is.** -/
theorem stripComments_uncommented {ls : List Lexeme} {s : List Char} (h : Lexes ls s)
    (hrec : Recognized [] ls) :
    stripComments (uncommented ls) = uncommented ls := h.stripFrom_uncommented hrec true

/-! ### Reading without comments -/

section Reading

variable {ls : List Lexeme} {s : List Char}

theorem declared?_uncommented (h : Lexes ls s) (hrec : Recognized [] ls)
    (hline : ∀ d, declared? s = some d → ∀ t ∈ d.define ++ d.require ++ d.object, '\n' ∉ t.toList) :
    declared? s = declared? (uncommented ls) := by
  have hpadded := stripComments_padded h hrec
  rw [declared?] at hline
  rw [declared?, declared?, stripComments_uncommented h hrec]
  cases hdefine : defined? (stripComments s) with
  | none =>
    rw [← defined?_padded hpadded (fun l hl => absurd (hdefine.symm.trans hl) (by simp)), hdefine]
    rfl
  | some l =>
    rw [hdefine] at hline
    have hmem := hline _ rfl
    rw [← defined?_padded hpadded, ← required_padded hpadded,
      ← requiredOnes_padded hpadded, hdefine]
    · exact fun t ht => hmem t (List.mem_append_right _ ht)
    · exact fun t ht => hmem t (List.mem_append_left _ (List.mem_append_right _ ht))
    · intro l' hl t ht
      rw [hdefine] at hl
      obtain rfl := Option.some.inj hl
      exact hmem t (List.mem_append_left _ (List.mem_append_left _ ht))

/-- **Where all lexemes are recognized, comments are ignored:** the source is read as the source
without its comments, provided that no specifier of it has a line break. -/
theorem read_uncommented (h : Lexes ls s) (hrec : Recognized [] ls) {path : String}
    (hline : ∀ d, read path (String.ofList s) = .ok d →
      ∀ t ∈ d.define ++ d.require ++ d.object, '\n' ∉ t.toList) :
    read path (String.ofList s) = read path (String.ofList (uncommented ls)) := by
  have hsame : declared? s = declared? (uncommented ls) := declared?_uncommented h hrec fun d hd =>
    hline d (read_of_declared? (by rw [String.toList_ofList, hd]))
  rw [read, read, String.toList_ofList, String.toList_ofList, hsame]

end Reading

/-- The lexemes of a source with a block comment, and with a line comment behind blanks. -/
def indented : List Lexeme :=
  .block " define([\"old\"]) ".toList ::
    ("\n  ".toList.map .code ++ .line " require([\"gone\"])".toList ::
    ("\ndefine([".toList.map .code ++ .literal ('"' :: ("real".toList ++ ['"'])) ::
      ("], f);\n".toList.map .code ++ [])))

theorem read_uncommented_indented :
    String.ofList (sourceOf indented) =
      "/* define([\"old\"]) */\n  // require([\"gone\"])\ndefine([\"real\"], f);\n" ∧
      Lexes indented (sourceOf indented) ∧ Recognized [] indented ∧
      (∀ d, read "m.js" (String.ofList (sourceOf indented)) = .ok d →
        ∀ t ∈ d.define ++ d.require ++ d.object, '\n' ∉ t.toList) ∧
      read "m.js" (String.ofList (sourceOf indented)) =
        read "m.js" (String.ofList (uncommented indented)) := by
  have hquote : isQuote '"' = true := by decide
  have hbody : LiteralBody '"' ("real".toList ++ ['"']) := .of_notMem (by simp) (by simp)
  have hend := Lexes.codes (w := "], f);\n".toList) (by simp [isQuote]) .nil
  have hdefine :=
    Lexes.codes (w := "\ndefine([".toList) (by simp [isQuote]) (.literal hquote hbody hend)
  have hgone : ∀ c ∈ " require([\"gone\"])".toList, isLineEnd c = false := by simp [isLineEnd]
  have hblanks :=
    Lexes.codes (w := "\n  ".toList) (by simp [isQuote]) (.line hgone (by simp [isLineEnd]) hdefine)
  have hold : ¬ ['*', '/'] <:+: " define([\"old\"]) ".toList ++ ['*'] := fun h =>
    absurd (h.subset (List.mem_cons_of_mem _ List.mem_cons_self)) (by simp)
  have hlexes : Lexes indented _ := .block hold hblanks
  rw [hlexes.eq_sourceOf] at hlexes
  have hreal := Lexeme.recognized_literal hquote hbody (by simp) fun h =>
    absurd (h.subset List.mem_cons_self) (by simp)
  have hrec : Recognized [] indented := by
    refine ⟨trivial, .codes ⟨⟨?_, ?_⟩, .codes ⟨hreal _ _, .codes trivial⟩⟩⟩
    · simp [blankLine, Lexeme.text, isBreak, isLineBlank]
    · simp [Lexeme.text]
  have hdeclared : declared? (sourceOf indented) = some { define := ["real"] } := by rfl
  have hline : ∀ d, read "m.js" (String.ofList (sourceOf indented)) = .ok d →
      ∀ t ∈ d.define ++ d.require ++ d.object, '\n' ∉ t.toList := by
    intro d hd
    rw [read_of_declared? ((congrArg declared? String.toList_ofList).trans hdeclared)] at hd
    obtain rfl := Except.ok.inj hd
    simp
  exact ⟨by rfl, hlexes, hrec, hline, read_uncommented hlexes hrec hline⟩

/-- The lexemes of a source with `/*` in a literal, and with a block comment behind it. -/
def starred : List Lexeme :=
  "define([".toList.map .code ++ .literal ('"' :: ("text!views/*.html".toList ++ ['"'])) ::
    (", ".toList.map .code ++
    .literal ('"' :: ("lib/x".toList ++ ['"'])) ::
      ("], f); ".toList.map .code ++ .block " end ".toList :: ("\n".toList.map .code ++ [])))

/-- **A literal that looks like the start of a comment hides the code behind it.** -/
theorem read_uncommented_ne : ¬ ∀ ls s, Lexes ls s →
    read "m.js" (String.ofList s) = read "m.js" (String.ofList (uncommented ls)) := by
  have hquote : isQuote '"' = true := by decide
  have hviews : LiteralBody '"' ("text!views/*.html".toList ++ ['"']) :=
    .of_notMem (by simp) (by simp)
  have hlib : LiteralBody '"' ("lib/x".toList ++ ['"']) := .of_notMem (by simp) (by simp)
  have hbreak := Lexes.codes (w := "\n".toList) (by simp [isQuote]) .nil
  have hend : ¬ ['*', '/'] <:+: " end ".toList ++ ['*'] := fun h =>
    absurd (h.subset (List.mem_cons_of_mem _ List.mem_cons_self)) (by simp)
  have hclose := Lexes.codes (w := "], f); ".toList) (by simp [isQuote]) (.block hend hbreak)
  have hcomma := Lexes.codes (w := ", ".toList) (by simp [isQuote]) (.literal hquote hlib hclose)
  have hlexes : Lexes starred _ := Lexes.codes (w := "define([".toList) (by simp [isQuote])
    (.literal hquote hviews hcomma)
  rw [hlexes.eq_sourceOf] at hlexes
  intro h
  have hkept : declared? (uncommented starred) =
      some { define := ["text!views/*.html", "lib/x"] } := by rfl
  have hhidden : declared? (sourceOf starred) = none := by rfl
  have hsame := h _ _ hlexes
  rw [read, read, String.toList_ofList, String.toList_ofList, hkept, hhidden] at hsame
  cases hsame

/-- A comment behind code is read. -/
example : read "m.js" "define([\"a\"], f); // require([\"b\"])\n" =
    .ok { define := ["a"], require := ["b"] } := by
  rfl

end ModuleAtlas.Amd
