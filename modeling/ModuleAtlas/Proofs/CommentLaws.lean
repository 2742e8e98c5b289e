import Mathlib.Data.List.Chain
import ModuleAtlas.Amd.Comment
import ModuleAtlas.Proofs.CallShapes

/-!
# Laws of comments

A block comment starts and ends with two characters side by side, so text without the one pair
starts none and text without the other pair ends none.  A line comment starts only at the start of a
line.  Text is cut out where a comment starts, and kept where none does.

## Main definitions

* `NoPair` — text in which two characters do not stand side by side.
* `isBreak` — a character that breaks a line.

## Main results

* `afterClose_eq_none_iff`, `afterComment_eq_none_iff` — where no comment ends, and where none
  starts.
* `stripFrom_of_some`, `stripFrom_of_none` — a comment is cut out, and text in which none starts is
  kept.
* `stripFrom_line` — a line without comments is kept.
-/

namespace ModuleAtlas.Amd

/-! ### Pairs of characters -/

/-- Nowhere in a text does `c` stand right before `d`. -/
def NoPair (c d : Char) (s : List Char) : Prop := s.IsChain fun x y => ¬ (x = c ∧ y = d)

theorem noPair_of_not_infix {c d : Char} {s : List Char} (h : ¬ [c, d] <:+: s) : NoPair c d s := by
  induction s with
  | nil => exact List.isChain_nil
  | cons x s ih =>
    rw [NoPair, List.isChain_cons]
    refine ⟨?_, ih fun hs => h (hs.trans (List.suffix_cons x s).isInfix)⟩
    rintro y hy ⟨rfl, rfl⟩
    obtain ⟨rest, rfl⟩ := List.head?_eq_some_iff.1 hy
    exact h ⟨[], rest, rfl⟩

theorem NoPair.append {c d : Char} {s t : List Char} (hs : NoPair c d s) (ht : NoPair c d t)
    (hhead : t.head? ≠ some d) : NoPair c d (s ++ t) := by
  refine List.isChain_append.2 ⟨hs, ht, ?_⟩
  rintro x - y hy ⟨-, rfl⟩
  exact hhead hy

theorem NoPair.suffix {c d : Char} {s t : List Char} (ht : NoPair c d t) (h : s <:+ t) :
    NoPair c d s :=
  List.IsChain.suffix ht h

/-! ### Where comments start and end -/

theorem afterClose_cons {c : Char} {s : List Char} (h : ¬ (c = '*' ∧ s.head? = some '/')) :
    afterClose (c :: s) = afterClose s := by
  rw [afterClose]
  rintro t rfl rfl
  exact h ⟨rfl, rfl⟩

theorem afterClose_eq_none_iff {s : List Char} : afterClose s = none ↔ NoPair '*' '/' s := by
  induction s with
  | nil => simp [NoPair]
  | cons c s ih =>
    rw [NoPair, List.isChain_cons]
    by_cases h : c = '*' ∧ s.head? = some '/'
    · obtain ⟨rfl, hs⟩ := h
      obtain ⟨t, rfl⟩ := List.head?_eq_some_iff.1 hs
      rw [afterClose_star_slash]
      refine iff_of_false (by simp) fun hno => hno.1 '/' rfl ⟨rfl, rfl⟩
    · rw [afterClose_cons h, ih]
      refine ⟨fun hno => ⟨?_, hno⟩, fun hno => hno.2⟩
      rintro d hd ⟨rfl, rfl⟩
      exact h ⟨rfl, hd⟩

/-- A block comment ends at its first `*/`. -/
theorem afterClose_append {body : List Char} (h : ¬ ['*', '/'] <:+: body ++ ['*']) (s : List Char) :
    afterClose (body ++ '*' :: '/' :: s) = some s := by
  induction body with
  | nil => rfl
  | cons c body ih =>
    rw [List.cons_append, afterClose_cons, ih fun hin =>
      h (hin.trans (List.suffix_cons c _).isInfix)]
    rintro ⟨rfl, hhead⟩
    cases body with
    | nil => cases hhead
    | cons d body =>
      obtain rfl : d = '/' := Option.some.inj hhead
      exact h ⟨[], body ++ ['*'], rfl⟩

theorem afterBlock_cons_eq_none {c : Char} {s : List Char} (h : ¬ (c = '/' ∧ s.head? = some '*')) :
    afterBlock (c :: s) = none := by
  unfold afterBlock
  split
  · next heq =>
    obtain ⟨rfl, rfl⟩ := List.cons.inj heq
    exact absurd ⟨rfl, rfl⟩ h
  · rfl

theorem afterLine_cons_of_blank {c : Char} (hc : isLineBlank c = true) (s : List Char) :
    afterLine (c :: s) = afterLine s := by
  rw [afterLine, List.dropWhile_cons_of_pos hc]
  rfl

theorem afterLine_cons_eq_none {c : Char} {s : List Char} (hc : isLineBlank c = false)
    (h : ¬ (c = '/' ∧ s.head? = some '/')) : afterLine (c :: s) = none := by
  rw [afterLine, List.dropWhile_cons_of_neg (by simp [hc])]
  split
  · next heq =>
    obtain ⟨rfl, rfl⟩ := List.cons.inj heq
    exact absurd ⟨rfl, rfl⟩ h
  · rfl

theorem NoPair.afterBlock_eq_none {s : List Char} (h : NoPair '/' '*' s) : afterBlock s = none := by
  cases s with
  | nil => rfl
  | cons c s =>
    rw [NoPair, List.isChain_cons] at h
    exact afterBlock_cons_eq_none fun hc => h.1 '*' hc.2 ⟨hc.1, rfl⟩

theorem afterComment_eq_none_iff {lineStart : Bool} {s : List Char} :
    afterComment lineStart s = none ↔ afterBlock s = none ∧
      (lineStart = true → afterLine s = none) := by
  rw [afterComment]
  cases afterBlock s with
  | none => cases lineStart <;> simp
  | some r => simp

/-! ### Cutting out -/

/-- Whether a character breaks a line. -/
def isBreak (c : Char) : Bool := c = '\n'

/-- Behind text without a break no line starts. -/
theorem after_isBreak_of_notMem {w : List Char} (hw : '\n' ∉ w) {lineStart : Bool}
    (h : w ≠ [] ∨ lineStart = false) : after isBreak lineStart w = false := by
  rcases List.eq_nil_or_concat' w with rfl | ⟨u, c, rfl⟩
  · exact h.resolve_left fun hne => hne rfl
  · rw [after, List.foldl_concat]
    exact decide_eq_false fun hc => hw (by simp [hc])

theorem stripFrom_skip (w rest : List Char) : ∀ lineStart : Bool,
    stripFrom w.length lineStart (w ++ rest) = stripFrom 0 (after isBreak lineStart w) rest := by
  induction w with
  | nil => intro lineStart; rfl
  | cons c w ih =>
    intro lineStart
    rw [List.length_cons, List.cons_append, stripFrom, ih]
    rfl

/-- A comment is cut out. -/
theorem stripFrom_of_some {lineStart : Bool} {s x rest : List Char}
    (h : afterComment lineStart s = some rest) (hs : s = x ++ rest) (hx : x ≠ []) :
    stripFrom 0 lineStart s = stripFrom 0 (after isBreak lineStart x) rest := by
  subst hs
  cases x with
  | nil => exact absurd rfl hx
  | cons c w =>
    rw [List.cons_append] at h ⊢
    rw [stripFrom, h]
    dsimp only
    rw [List.length_append, Nat.add_sub_cancel, stripFrom_skip]
    rfl

/-- Text in which no comment starts is kept. -/
theorem stripFrom_of_none (w rest : List Char) : ∀ lineStart : Bool,
    (∀ u v, w = u ++ v → v ≠ [] → afterComment (after isBreak lineStart u) (v ++ rest) = none) →
      stripFrom 0 lineStart (w ++ rest) = w ++ stripFrom 0 (after isBreak lineStart w) rest := by
  induction w with
  | nil => intro lineStart _; rfl
  | cons c w ih =>
    intro lineStart h
    have hhere : afterComment lineStart (c :: (w ++ rest)) = none :=
      h [] (c :: w) rfl (List.cons_ne_nil c w)
    rw [List.cons_append, stripFrom, hhere]
    exact congrArg (c :: ·) (ih _ fun u v hw hv => h (c :: u) v (by rw [hw]; rfl) hv)

theorem stripFrom_cons_of_none {lineStart : Bool} {c : Char} {s : List Char}
    (h : afterComment lineStart (c :: s) = none) :
    stripFrom 0 lineStart (c :: s) = c :: stripFrom 0 (isBreak c) s := by
  rw [stripFrom, h]
  rfl

/-- A line without comments is kept. -/
theorem stripFrom_line {w : List Char} (hw : '\n' ∉ w) {rest : List Char}
    (hopen : NoPair '/' '*' (w ++ '\n' :: rest)) (lineStart : Bool)
    (hline : lineStart = true → afterLine (w ++ '\n' :: rest) = none) :
    stripFrom 0 lineStart (w ++ '\n' :: rest) = w ++ '\n' :: stripFrom 0 true rest := by
  have hkept := stripFrom_of_none (w ++ ['\n']) rest lineStart ?_
  · rwa [List.append_assoc, List.append_assoc, after, List.foldl_concat] at hkept
  intro u v hw' hv
  have hsuffix : v ++ rest <:+ w ++ '\n' :: rest :=
    ⟨u, by rw [← List.append_assoc, ← hw', List.append_assoc]; rfl⟩
  refine afterComment_eq_none_iff.2 ⟨(hopen.suffix hsuffix).afterBlock_eq_none, fun hstart => ?_⟩
  cases u with
  | nil =>
    rw [← show w ++ ['\n'] = v from hw', List.append_assoc]
    exact hline hstart
  | cons c u =>
    -- the only break is the last character, and something is left
    obtain ⟨v, d, rfl⟩ := (List.eq_nil_or_concat' v).resolve_left hv
    rw [← List.append_assoc] at hw'
    have hmem : '\n' ∉ c :: u :=
      fun hmem => hw ((List.append_inj' hw' rfl).1 ▸ List.mem_append_left v hmem)
    rw [after_isBreak_of_notMem hmem (.inl (List.cons_ne_nil c u))] at hstart
    cases hstart

end ModuleAtlas.Amd
