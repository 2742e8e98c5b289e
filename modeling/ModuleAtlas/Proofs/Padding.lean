import Mathlib.Data.List.Forall2
import ModuleAtlas.Amd.Reader
import ModuleAtlas.Proofs.CallShapes

/-!
# Blanks at the ends of lines

A text may have more blanks at the ends of its lines than another one.  Names, brackets, commas and
quotes are found in both alike, and blanks between them are skipped, so the same calls are found,
with texts that differ in such blanks again.  A text without a line break in it has no room for
them: specifiers that stay within a line are the same.

## Main definitions

* `Padded` — a text is another one with blanks added at ends of lines.
* `Tolerant` — a shape that does not mind such blanks.

## Main results

* `occurrencesFrom_padded` — a tolerant shape is found at the same places.
* `defined?_padded`, `required_padded`, `requiredOnes_padded` — the same specifiers are read.
-/

namespace ModuleAtlas.Amd

/-- A blank that can stand before a line break. -/
def isTrailing (c : Char) : Bool := c = ' ' || c = '\t' || c = '\r'

/-- A character that is neither such a blank nor a line break. -/
def isSolid (c : Char) : Bool := !isTrailing c && c ≠ '\n'

/-- Whether a line ends before a text; the end of the text ends a line if `final`. -/
def EndsLine (final : Bool) : List Char → Prop
  | [] => final = true
  | c :: _ => c = '\n'

/-- The second text is the first one with blanks added at ends of lines. -/
inductive Padded (final : Bool) : List Char → List Char → Prop
  /-- Both texts end. -/
  | nil : Padded final [] []
  /-- Both texts go on with the same character. -/
  | cons (c : Char) {a b : List Char} : Padded final a b → Padded final (c :: a) (c :: b)
  /-- The second text has a blank more. -/
  | pad {c : Char} {a b : List Char} : isTrailing c = true → EndsLine final a → Padded final a b →
      Padded final a (c :: b)

/-- What is found in both texts, and what is left of them. -/
def PaddedFind (final : Bool) (p q : List Char × List Char) : Prop :=
  Padded false p.1 q.1 ∧ Padded final p.2 q.2

theorem isSpace_of_isTrailing {c : Char} (h : isTrailing c = true) : Text.isSpace c = true := by
  simp only [isTrailing, Bool.or_eq_true, decide_eq_true_eq] at h
  rcases h with (rfl | rfl) | rfl <;> decide

theorem isSolid_of_isTrailing {c : Char} (h : isTrailing c = true) : isSolid c = false := by
  simp [isSolid, h]

theorem ne_of_isSolid {c d : Char} (hd : isSolid d = true) (hc : isSolid c = false) : c ≠ d := by
  rintro rfl
  rw [hd] at hc
  cases hc

theorem EndsLine.isSolid_eq_false {final : Bool} {c : Char} {s : List Char}
    (h : EndsLine final (c :: s)) : isSolid c = false := by
  obtain rfl : c = '\n' := h
  decide

theorem EndsLine.mono {final : Bool} {s : List Char} (h : EndsLine final s) : EndsLine true s := by
  cases s with
  | nil => rfl
  | cons c s => exact h

namespace Padded

variable {final : Bool} {a b : List Char}

theorem refl (final : Bool) : ∀ a : List Char, Padded final a a
  | [] => .nil
  | c :: a => .cons c (refl final a)

/-- Before the same text, texts may be padded where the first one ends a line. -/
theorem append {x y : List Char} (hxy : Padded false x y) (hab : Padded final a b) :
    Padded final (x ++ a) (y ++ b) := by
  induction hxy with
  | nil => exact hab
  | cons c _ ih => exact .cons c ih
  | @pad c x y hc hx _ ih =>
    refine .pad hc ?_ ih
    cases x with
    | nil => cases hx
    | cons d x => exact hx

/-- A text that goes on with no line break does so in both. -/
theorem of_cons {c : Char} (h : Padded final (c :: a) b) (hc : c ≠ '\n') : ∃ t, b = c :: t ∧
    Padded final a t := by
  cases h with
  | cons _ h => exact ⟨_, rfl, h⟩
  | pad _ hline _ => exact absurd hline hc

/-- Blanks at the end of a line may be taken away from the first text. -/
theorem of_append {w : List Char} (hw : ∀ c ∈ w, isTrailing c = true) (ha : EndsLine final a) :
    ∀ {b : List Char}, Padded final (w ++ a) b → Padded final a b := by
  induction w with
  | nil => exact id
  | cons c w ih =>
    intro b h
    have hc := hw c List.mem_cons_self
    obtain ⟨t, rfl, ht⟩ := of_cons h (by rintro rfl; cases hc)
    exact .pad hc ha (ih (fun d hd => hw d (List.mem_cons_of_mem _ hd)) ht)

/-- A text without line breaks has no room for more blanks. -/
theorem eq_of_notMem (h : Padded false a b) (ha : '\n' ∉ a) : a = b := by
  induction h with
  | nil => rfl
  | cons c _ ih =>
    rw [List.mem_cons, not_or] at ha
    rw [ih ha.2]
  | @pad c a b _ hline _ _ =>
    cases a with
    | nil => cases hline
    | cons d a =>
      obtain rfl : d = '\n' := hline
      exact absurd List.mem_cons_self ha

theorem eq_nil_iff (h : Padded false a b) : a = [] ↔ b = [] := by
  cases h with
  | nil => exact Iff.rfl
  | cons c _ => simp
  | @pad c a b _ hline _ =>
    cases a with
    | nil => cases hline
    | cons d a => simp

end Padded

/-! ### Shapes as chains of steps -/

/-- The text behind a character that stands here. -/
def expect (d : Char) : List Char → Option (List Char)
  | [] => none
  | c :: s => if c = d then some s else none

theorem expect_eq_some_iff {d : Char} {s rest : List Char} : expect d s = some rest ↔
    s = d :: rest := by
  cases s with
  | nil => simp [expect]
  | cons c s => by_cases h : c = d <;> simp [expect, h]

theorem expect_eq_none {d : Char} {s : List Char} (h : ∀ rest, s ≠ d :: rest) : expect d s = none :=
  Option.eq_none_iff_forall_ne_some.2 fun rest hrest => h rest (expect_eq_some_iff.1 hrest)

theorem isPrefixOf?_cons (c : Char) (name s : List Char) :
    (c :: name).isPrefixOf? s = (expect c s).bind name.isPrefixOf? := by
  cases s with
  | nil => rfl
  | cons d s =>
    rw [expect, List.isPrefixOf?]
    by_cases h : d = c
    · rw [if_pos h, if_pos (beq_iff_eq.2 h.symm)]
      rfl
    · rw [if_neg h, if_neg fun heq => h (beq_iff_eq.1 heq).symm]
      rfl

theorem arguments_eq (name s : List Char) :
    arguments name s = (name.isPrefixOf? s).bind fun t =>
      (expect '(' (skipSpace t)).map skipSpace := by
  unfold arguments
  split
  · next h => rw [h]; rfl
  · next t h =>
    rw [h, Option.bind_some]
    split
    · next u hu => rw [hu]; rfl
    · next hne =>
      rw [expect_eq_none hne]
      rfl

theorem quoted_cons (c : Char) (s : List Char) :
    quoted (c :: s) = if c = '"' ∨ c = '\'' then upTo c s else none := by
  unfold quoted
  split
  · next h =>
    obtain ⟨rfl, rfl⟩ := List.cons.inj h
    rfl
  · next h =>
    obtain ⟨rfl, rfl⟩ := List.cons.inj h
    rfl
  · next h h' =>
    rw [if_neg]
    rintro (rfl | rfl)
    · exact h s rfl
    · exact h' s rfl

theorem skipName_eq (s : List Char) :
    skipName s = ((quoted s).bind fun p => (expect ',' (skipSpace p.2)).map skipSpace).getD s := by
  unfold skipName
  split
  · next h => rw [h]; rfl
  · next found rest h =>
    rw [h, Option.bind_some]
    split
    · next u hu => rw [hu]; rfl
    · next hne =>
      rw [expect_eq_none hne]
      rfl

theorem arrayOpen_eq (s : List Char) : arrayOpen s = expect '[' s := by
  unfold arrayOpen
  split
  · rfl
  · next hne => exact (expect_eq_none hne).symm

theorem requireOne_eq (s : List Char) :
    requireOne s = ((arguments "require".toList s).bind quoted).bind fun p =>
    if p.1 = [] then none else (expect ')' (skipSpace p.2)).map fun rest => (p.1, rest) := by
  unfold requireOne
  split
  · next c name t h =>
    rw [h, Option.bind_some, if_neg (List.cons_ne_nil c name)]
    split
    · next u hu => dsimp only at hu ⊢; rw [hu]; rfl
    · next hne =>
      rw [expect_eq_none hne]
      rfl
  · next hne =>
    cases hfind : (arguments "require".toList s).bind quoted with
    | none => rfl
    | some p =>
      obtain ⟨found, rest⟩ := p
      cases found with
      | nil => rfl
      | cons c name => exact absurd hfind (hne c name rest)

/-! ### Steps on padded texts -/

section Steps

/-- Steps that are related, and go on with related steps, are related. -/
theorem rel_bind {α β γ δ : Type} {R : α → β → Prop} {S : γ → δ → Prop} {x : Option α}
    {y : Option β} {f : α → Option γ} {g : β → Option δ} (h : Option.Rel R x y)
    (hfg : ∀ a b, R a b → Option.Rel S (f a) (g b)) : Option.Rel S (x.bind f) (y.bind g) := by
  cases h with
  | none => exact .none
  | some h => exact hfg _ _ h

theorem rel_map {α β γ δ : Type} {R : α → β → Prop} {S : γ → δ → Prop} {x : Option α} {y : Option β}
    {f : α → γ} {g : β → δ} (h : Option.Rel R x y) (hfg : ∀ a b, R a b → S (f a) (g b)) :
    Option.Rel S (x.map f) (y.map g) := by
  cases h with
  | none => exact .none
  | some h => exact .some (hfg _ _ h)

variable {final : Bool} {a b : List Char}

theorem skipSpace_padded (h : Padded final a b) : Padded final (skipSpace a) (skipSpace b) := by
  induction h with
  | nil => exact .nil
  | @cons c a b h ih =>
    by_cases hc : Text.isSpace c = true
    · simpa only [skipSpace, List.dropWhile_cons_of_pos hc] using ih
    · simpa only [skipSpace, List.dropWhile_cons_of_neg hc] using h.cons c
  | pad hc _ _ ih =>
      simpa only [skipSpace, List.dropWhile_cons_of_pos (isSpace_of_isTrailing hc)] using ih

theorem expect_padded {d : Char} (hd : isSolid d = true) (h : Padded final a b) :
    Option.Rel (Padded final) (expect d a) (expect d b) := by
  cases h with
  | nil => exact .none
  | cons c h =>
    by_cases hc : c = d
    · simpa only [expect, if_pos hc] using Option.Rel.some h
    · simpa only [expect, if_neg hc] using Option.Rel.none
  | @pad c a b hc hline _ =>
    rw [expect, if_neg (ne_of_isSolid hd (isSolid_of_isTrailing hc))]
    cases a with
    | nil => exact .none
    | cons e a =>
      rw [expect, if_neg (ne_of_isSolid hd hline.isSolid_eq_false)]
      exact .none

theorem isPrefixOf?_padded {name : List Char} (hname : ∀ c ∈ name, isSolid c = true) :
    ∀ {a b : List Char}, Padded final a b →
      Option.Rel (Padded final) (name.isPrefixOf? a) (name.isPrefixOf? b) := by
  induction name with
  | nil => exact fun h => .some h
  | cons c name ih =>
    intro a b h
    rw [isPrefixOf?_cons, isPrefixOf?_cons]
    exact rel_bind (expect_padded (hname c List.mem_cons_self) h) fun _ _ =>
      ih fun d hd => hname d (List.mem_cons_of_mem _ hd)

theorem arguments_padded {name : List Char} (hname : ∀ c ∈ name, isSolid c = true)
    (h : Padded final a b) : Option.Rel (Padded final) (arguments name a) (arguments name b) := by
  rw [arguments_eq, arguments_eq]
  refine rel_bind (isPrefixOf?_padded hname h) fun _ _ h => ?_
  exact rel_map (expect_padded (by decide) (skipSpace_padded h)) fun _ _ => skipSpace_padded

theorem upTo_padded {stop : Char} (hstop : isSolid stop = true) (h : Padded final a b) :
    Option.Rel (PaddedFind final) (upTo stop a) (upTo stop b) := by
  induction h with
  | nil => exact .none
  | @cons c a b h ih =>
    by_cases hc : c = stop
    · subst hc
      rw [upTo_cons_self, upTo_cons_self]
      exact .some ⟨.nil, h⟩
    · rw [upTo_cons_of_ne hc, upTo_cons_of_ne hc]
      exact rel_map ih fun _ _ hp => ⟨hp.1.cons c, hp.2⟩
  | @pad c a b hc hline h ih =>
    rw [upTo_cons_of_ne (ne_of_isSolid hstop (isSolid_of_isTrailing hc))]
    cases a with
    | nil =>
      -- nothing is cut off from a text that ends here
      generalize upTo stop b = y at ih ⊢
      cases ih
      exact .none
    | cons d a =>
      obtain rfl : d = '\n' := hline
      rw [upTo_cons_of_ne (ne_of_isSolid hstop (by decide))] at ih ⊢
      generalize upTo stop a = x, upTo stop b = y at ih ⊢
      cases x with
      | none => cases ih; exact .none
      | some p => cases ih with | some hp => exact .some ⟨.pad hc rfl hp.1, hp.2⟩

theorem quoted_padded (h : Padded final a b) :
    Option.Rel (PaddedFind final) (quoted a) (quoted b) := by
  have hblank : ∀ {c : Char} {s : List Char}, isSolid c = false → quoted (c :: s) = none := by
    intro c s hc
    rw [quoted_cons, if_neg (not_or.2 ⟨ne_of_isSolid (by decide) hc, ne_of_isSolid (by decide) hc⟩)]
  cases h with
  | nil => exact .none
  | cons c h =>
    rw [quoted_cons, quoted_cons]
    split
    · next hc => exact upTo_padded (by rcases hc with rfl | rfl <;> decide) h
    · exact .none
  | @pad c a b hc hline _ =>
    rw [hblank (isSolid_of_isTrailing hc)]
    cases a with
    | nil => exact .none
    | cons d a =>
      rw [hblank hline.isSolid_eq_false]
      exact .none

theorem skipName_padded (h : Padded final a b) : Padded final (skipName a) (skipName b) := by
  rw [skipName_eq, skipName_eq]
  have hrel :
      Option.Rel (Padded final) ((quoted a).bind fun p =>
        (expect ',' (skipSpace p.2)).map skipSpace)
      ((quoted b).bind fun p => (expect ',' (skipSpace p.2)).map skipSpace) := by
    refine rel_bind (quoted_padded h) fun _ _ hp => ?_
    exact rel_map (expect_padded (by decide) (skipSpace_padded hp.2)) fun _ _ => skipSpace_padded
  revert hrel
  generalize (quoted a).bind _ = x, (quoted b).bind _ = y
  intro hrel
  cases hrel with
  | none => exact h
  | some h => exact h

end Steps

/-! ### Tolerant shapes -/

/-- A shape that is found in a padded text where it is found in the text, and does not start or end
with padding. -/
structure Tolerant (start : Char → Bool) (shape : List Char → Option (List Char × List Char)) :
    Prop where
  /-- It starts with a character that is no padding. -/
  starts : ∀ (c : Char) (s : List Char), isSolid c = false → shape (c :: s) = none
  /-- It ends with a character behind which a shape is tried. -/
  ends : ∀ {s found rest : List Char}, shape s = some (found, rest) → ∃ k, start k = true ∧
    k :: rest <:+ s
  /-- It is found in both texts, or in neither. -/
  padded : ∀ {final : Bool} {a b : List Char}, Padded final a b →
    Option.Rel (PaddedFind final) (shape a) (shape b)

theorem skipSpace_suffix (s : List Char) : skipSpace s <:+ s := List.dropWhile_suffix _

theorem arguments_suffix {name s rest : List Char} (h : arguments name s = some rest) :
    rest <:+ s := by
  obtain ⟨sp, t, -, rfl, rfl⟩ := arguments_eq_some_iff.1 h
  exact (skipSpace_suffix t).trans ⟨name ++ (sp ++ ['(']), by simp⟩

theorem upTo_suffix {stop : Char} {s before rest : List Char}
    (h : upTo stop s = some (before, rest)) : stop :: rest <:+ s := by
  obtain ⟨rfl, -⟩ := eq_of_upTo h
  exact List.suffix_append before _

theorem quoted_suffix {s found rest : List Char} (h : quoted s = some (found, rest)) :
    rest <:+ s := by
  cases s with
  | nil => cases h
  | cons c s =>
    rw [quoted_cons] at h
    split at h
    · exact ((List.suffix_cons c rest).trans (upTo_suffix h)).trans (List.suffix_cons c s)
    · cases h

theorem skipName_suffix (s : List Char) : skipName s <:+ s := by
  rw [skipName_eq]
  cases h : (quoted s).bind fun p => (expect ',' (skipSpace p.2)).map skipSpace with
  | none => exact List.suffix_rfl
  | some t =>
    obtain ⟨⟨found, rest⟩, hfound, ht⟩ := Option.bind_eq_some_iff.1 h
    obtain ⟨u, hu, rfl⟩ := Option.map_eq_some_iff.1 ht
    have hcomma := skipSpace_suffix rest
    rw [expect_eq_some_iff.1 hu] at hcomma
    exact (skipSpace_suffix u).trans
      ((List.suffix_cons _ u).trans (hcomma.trans (quoted_suffix hfound)))

/-- A call does not start with a character that its name does not start with. -/
theorem arguments_cons_eq_none {c d : Char} {name s : List Char} (hc : c ≠ d) :
    arguments (d :: name) (c :: s) = none := by
  rw [arguments_eq, isPrefixOf?_cons, expect, if_neg hc]
  rfl

theorem tolerant_quoted : Tolerant (fun _ => true) quoted where
  starts c s hc := by
    rw [quoted_cons, if_neg (not_or.2 ⟨ne_of_isSolid (by decide) hc, ne_of_isSolid (by decide) hc⟩)]
  ends {s found rest} h := by
    cases s with
    | nil => cases h
    | cons c s =>
      rw [quoted_cons] at h
      split at h
      · exact ⟨c, rfl, (upTo_suffix h).trans (List.suffix_cons c s)⟩
      · cases h
  padded := quoted_padded

theorem isSolid_define : ∀ c ∈ "define".toList, isSolid c = true := by simp [isSolid, isTrailing]

theorem isSolid_require : ∀ c ∈ "require".toList, isSolid c = true := by simp [isSolid, isTrailing]

theorem defineOpen_eq (s : List Char) : defineOpen s
    = (arguments "define".toList s).bind fun t => (expect '[' (skipName t)).map fun rest =>
      ([], rest) := by
  simp only [defineOpen, arrayOpen_eq, Option.map_eq_bind]
  rfl

theorem defineArray_eq (s : List Char) : defineArray s = (defineOpen s).bind fun p =>
    upTo ']' p.2 := rfl

theorem requireArray_eq (s : List Char) : requireArray s
    = (arguments "require".toList s).bind fun t => (expect '[' t).bind (upTo ']') := by
  simp only [requireArray, arrayOpen_eq]
  rfl

theorem tolerant_defineOpen : Tolerant (fun c => !Text.isWord c) defineOpen where
  starts c s hc := by
    rw [defineOpen_eq, show "define".toList = 'd' :: "efine".toList from rfl,
      arguments_cons_eq_none (ne_of_isSolid (by decide) hc)]
    rfl
  ends {s found rest} h := by
    rw [defineOpen_eq] at h
    obtain ⟨t, ht, h⟩ := Option.bind_eq_some_iff.1 h
    obtain ⟨u, hu, he⟩ := Option.map_eq_some_iff.1 h
    obtain ⟨-, rfl⟩ := Prod.mk.inj he
    have hopen := skipName_suffix t
    rw [expect_eq_some_iff.1 hu] at hopen
    exact ⟨'[', by decide, hopen.trans (arguments_suffix ht)⟩
  padded h := by
    rw [defineOpen_eq, defineOpen_eq]
    refine rel_bind (arguments_padded isSolid_define h) fun _ _ h => ?_
    exact rel_map (expect_padded (by decide) (skipName_padded h)) fun _ _ h => ⟨.nil, h⟩

theorem tolerant_defineArray : Tolerant (fun c => !Text.isWord c) defineArray where
  starts c s hc := by
    rw [defineArray_eq, tolerant_defineOpen.starts c s hc]
    rfl
  ends h := by
    rw [defineArray_eq] at h
    obtain ⟨⟨found, t⟩, ht, h⟩ := Option.bind_eq_some_iff.1 h
    obtain ⟨k, -, hsuffix⟩ := tolerant_defineOpen.ends ht
    exact ⟨']', by decide, (upTo_suffix h).trans ((List.suffix_cons k t).trans hsuffix)⟩
  padded h := rel_bind (tolerant_defineOpen.padded h) fun _ _ hp => upTo_padded (by decide) hp.2

theorem tolerant_requireArray : Tolerant (fun c => !Text.isWord c) requireArray where
  starts c s hc := by
    rw [requireArray_eq, show "require".toList = 'r' :: "equire".toList from rfl,
      arguments_cons_eq_none (ne_of_isSolid (by decide) hc)]
    rfl
  ends h := by
    rw [requireArray_eq] at h
    obtain ⟨t, ht, h⟩ := Option.bind_eq_some_iff.1 h
    obtain ⟨u, hu, h⟩ := Option.bind_eq_some_iff.1 h
    have hopen := arguments_suffix ht
    rw [expect_eq_some_iff.1 hu] at hopen
    exact ⟨']', by decide, (upTo_suffix h).trans ((List.suffix_cons '[' u).trans hopen)⟩
  padded h := by
    rw [requireArray_eq, requireArray_eq]
    refine rel_bind (arguments_padded isSolid_require h) fun _ _ h => ?_
    exact rel_bind (expect_padded (by decide) h) fun _ _ => upTo_padded (by decide)

theorem tolerant_requireOne : Tolerant (fun c => !Text.isWord c) requireOne where
  starts c s hc := by
    rw [requireOne_eq, show "require".toList = 'r' :: "equire".toList from rfl,
      arguments_cons_eq_none (ne_of_isSolid (by decide) hc)]
    rfl
  ends h := by
    rw [requireOne_eq] at h
    obtain ⟨⟨name, t⟩, ht, h⟩ := Option.bind_eq_some_iff.1 h
    obtain ⟨u, hu, hname⟩ := Option.bind_eq_some_iff.1 ht
    split at h
    · cases h
    · obtain ⟨v, hv, he⟩ := Option.map_eq_some_iff.1 h
      obtain ⟨-, rfl⟩ := Prod.mk.inj he
      have hclose := skipSpace_suffix t
      rw [expect_eq_some_iff.1 hv] at hclose
      exact ⟨')', by decide, hclose.trans ((quoted_suffix hname).trans (arguments_suffix hu))⟩
  padded h := by
    rw [requireOne_eq, requireOne_eq]
    refine rel_bind (rel_bind (arguments_padded isSolid_require h) fun _ _ => quoted_padded)
      fun p q hp => ?_
    by_cases hnil : p.1 = []
    · rw [if_pos hnil, if_pos (hp.1.eq_nil_iff.1 hnil)]
      exact .none
    · rw [if_neg hnil, if_neg fun hq => hnil (hp.1.eq_nil_iff.2 hq)]
      exact rel_map (expect_padded (by decide) (skipSpace_padded hp.2)) fun _ _ h => ⟨hp.1, h⟩

/-! ### Searching padded texts -/

section Search

variable {start : Char → Bool} {shape : List Char → Option (List Char × List Char)}

theorem occurrencesFrom_cons_of_none {here : Bool} {c : Char} {s : List Char}
    (h : here = true → shape (c :: s) = none) :
    occurrencesFrom start shape 0 here (c :: s) = occurrencesFrom start shape 0 (start c) s := by
  rw [occurrencesFrom]
  cases here with
  | false => rfl
  | true => rw [if_pos rfl, h rfl]

/-- The search goes on behind what is found, and a shape is tried there. -/
theorem Tolerant.occurrencesFrom_of_some (hshape : Tolerant start shape) {s found rest : List Char}
    (h : shape s = some (found, rest)) : occurrencesFrom start shape 0 true s
      = found :: occurrencesFrom start shape 0 true rest := by
  obtain ⟨k, hk, x, hx⟩ := hshape.ends h
  rw [Amd.occurrencesFrom_of_some (x := x ++ [k]) h (by rw [← hx, List.append_assoc]; rfl)
    (by simp), after, List.foldl_concat, hk]

theorem Tolerant.cases (hshape : Tolerant start shape) {final : Bool} {a b : List Char}
    (h : Padded final a b) :
    (shape a = none ∧ shape b = none) ∨ ∃ p q, shape a = some p ∧ shape b = some q ∧
      PaddedFind final p q := by
  have hrel := hshape.padded h
  generalize shape a = x, shape b = y at hrel ⊢
  cases hrel with
  | none => exact .inl ⟨rfl, rfl⟩
  | some hp => exact .inr ⟨_, _, rfl, rfl, hp⟩

/-- **A tolerant shape is found at the same places**, also where it is not tried at the end of a
line of one text. -/
theorem occurrencesFrom_padded (hshape : Tolerant start shape) {final here here' : Bool}
    {a b : List Char} (h : Padded final a b) (hhere : here = here' ∨ EndsLine true a) :
    List.Forall₂ (Padded false)
      (occurrencesFrom start shape 0 here a) (occurrencesFrom start shape 0 here' b) := by
  -- the search goes on behind what is found, so the induction is on the length and not on the
  -- padding
  induction hlength : b.length using Nat.strong_induction_on generalizing a b here here' with
  | _ n ih =>
    subst hlength
    cases h with
    | nil => exact .nil
    | @cons c a b h =>
      have hnext : ∀ {here here' : Bool}, (here = true → shape (c :: a) = none) →
          (here' = true → shape (c :: b) = none) → List.Forall₂ (Padded false)
            (occurrencesFrom start shape 0 here (c :: a))
              (occurrencesFrom start shape 0 here' (c :: b)) := by
        intro here here' ha hb
        rw [occurrencesFrom_cons_of_none ha, occurrencesFrom_cons_of_none hb]
        exact ih _ (Nat.lt_succ_self _) h (.inl rfl) rfl
      rcases hhere with rfl | hline
      · cases here with
        | false => exact hnext (fun h => by cases h) fun h => by cases h
        | true =>
          rcases hshape.cases (h.cons c) with ⟨ha, hb⟩ | ⟨p, q, ha, hb, hfound, hrest⟩
          · exact hnext (fun _ => ha) fun _ => hb
          · rw [hshape.occurrencesFrom_of_some ha, hshape.occurrencesFrom_of_some hb]
            obtain ⟨k, -, hsuffix⟩ := hshape.ends hb
            exact .cons hfound (ih _ hsuffix.length_le hrest (.inl rfl) rfl)
      · -- at the end of a line nothing is found, tried or not
        exact hnext (fun _ => hshape.starts c a hline.isSolid_eq_false)
          fun _ => hshape.starts c b hline.isSolid_eq_false
    | @pad c a b hc hline h =>
      rw [occurrencesFrom_cons_of_none fun _ => hshape.starts c b (isSolid_of_isTrailing hc)]
      exact ih _ (Nat.lt_succ_self _) h (.inr hline.mono) rfl

theorem occurrences_padded (hshape : Tolerant (fun c => !Text.isWord c) shape) {final : Bool}
    {a b : List Char} (h : Padded final a b) :
    List.Forall₂ (Padded false) (occurrences shape a) (occurrences shape b) :=
  occurrencesFrom_padded hshape h (.inl rfl)

end Search

/-! ### Specifiers of padded texts -/

/-- Texts that stay within a line are the same. -/
theorem eq_of_forall₂_padded {x y : List (List Char)} (h : List.Forall₂ (Padded false) x y)
    (hx : ∀ t ∈ x, '\n' ∉ t) : x = y := by
  induction h with
  | nil => rfl
  | cons hpadded _ ih =>
    rw [hpadded.eq_of_notMem (hx _ List.mem_cons_self), ih fun t ht =>
      hx t (List.mem_cons_of_mem _ ht)]

theorem map_ofList_eq_of_forall₂_padded {x y : List (List Char)}
    (h : List.Forall₂ (Padded false) x y) (hx : ∀ t ∈ x.map String.ofList, '\n' ∉ t.toList) :
    x.map String.ofList = y.map String.ofList := by
  rw [eq_of_forall₂_padded h fun t ht => by simpa using hx _ (List.mem_map_of_mem ht)]

/-- Quoted texts that stay within a line are the same. -/
theorem literals_padded {a b : List Char} (h : Padded false a b)
    (ha : ∀ t ∈ literals a, '\n' ∉ t.toList) : literals a = literals b :=
  map_ofList_eq_of_forall₂_padded (occurrencesFrom_padded tolerant_quoted h (.inl rfl)) ha

theorem flatMap_literals_padded {x y : List (List Char)} (h : List.Forall₂ (Padded false) x y)
    (hx : ∀ t ∈ x.flatMap literals, '\n' ∉ t.toList) : x.flatMap literals = y.flatMap literals := by
  induction h with
  | nil => rfl
  | cons hpadded _ ih =>
    rw [List.flatMap_cons] at hx ⊢
    rw [List.flatMap_cons, literals_padded hpadded fun t ht => hx t (List.mem_append_left _ ht),
      ih fun t ht => hx t (List.mem_append_right _ ht)]

section Specifiers

variable {a b : List Char} (h : Padded true a b)

include h

/-- The same specifiers are defined, or both texts are refused. -/
theorem defined?_padded (ha : ∀ l, defined? a = some l → ∀ t ∈ l, '\n' ∉ t.toList) :
    defined? a = defined? b := by
  have harray := occurrences_padded tolerant_defineArray h
  have hopen := occurrences_padded tolerant_defineOpen h
  rw [defined?, defined?]
  rw [defined?] at ha
  generalize occurrences defineArray a = x, occurrences defineArray b = y at harray ha ⊢
  cases harray with
  | nil =>
    generalize occurrences defineOpen a = u, occurrences defineOpen b = v at hopen ⊢
    cases hopen <;> rfl
  | cons hlist _ => exact congrArg some (literals_padded hlist (ha _ rfl))

/-- The same specifiers are required as lists. -/
theorem required_padded (ha : ∀ t ∈ required a, '\n' ∉ t.toList) : required a = required b := by
  rw [required, foldl_addNew_nil] at ha
  rw [required, required, flatMap_literals_padded (occurrences_padded tolerant_requireArray h) ?_]
  exact fun t ht => ha t (List.mem_eraseDups.2 ht)

/-- The same specifiers are required one at a time. -/
theorem requiredOnes_padded (ha : ∀ t ∈ requiredOnes a, '\n' ∉ t.toList) :
    requiredOnes a = requiredOnes b := by
  rw [requiredOnes, foldl_addNew_nil] at ha
  rw [requiredOnes, requiredOnes,
    map_ofList_eq_of_forall₂_padded (occurrences_padded tolerant_requireOne h) ?_]
  exact fun t ht => ha t (List.mem_eraseDups.2 ht)

end Specifiers

end ModuleAtlas.Amd
