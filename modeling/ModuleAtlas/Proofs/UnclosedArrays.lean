import ModuleAtlas.Proofs.CommentRemoval

/-!
# Arrays without an end

The array of a definition ends at the first closing bracket behind its opening one, wherever that
bracket stands: in a literal, in an inner array, in an index far below.  So a source is refused
exactly if a definition opens in it and no closing bracket comes behind any that opens.  An array
whose brackets do not match is refused only then; else its specifiers are taken from the text up to
that bracket.

## Main definitions

* `Opening`, `Refused` — a definition opens its array, and none that opens is ever closed.
* `Rejected` — a source is rejected with an error.
* `OpeningCall`, `Opens` — the first call of `define` in a source opens an array.
* `unclosed` — the opening bracket before some lexemes has no matching one, literals left aside.
* `Harmless` — no literal before the array is mistaken for code.

## Main results

* `occurrencesFrom_eq_nil_iff`, `occurrencesFrom_of_first` — where nothing is found, and what is
  found first.
* `rejected_iff` — **a source is rejected exactly if it is refused.**
* `Lexes.found` — text without quotes is found in code or within one literal.
* `rejected_of_opens` — **an array is rejected exactly if no closing bracket follows, and read up to
  the first one else.**
* `not_rejected_unclosed` — an index below an array that is not closed ends it.
-/

namespace ModuleAtlas.Amd

/-! ### Searching -/

section Search

variable {start : Char → Bool} {shape : List Char → Option (List Char × List Char)}

/-- **Nothing is found exactly if the shape is found at no place where it is tried.** -/
theorem occurrencesFrom_eq_nil_iff {s : List Char} :
    ∀ {here : Bool}, occurrencesFrom start shape 0 here s = [] ↔
    ∀ u v, s = u ++ v → v ≠ [] → after start here u = true → shape v = none := by
  induction s with
  | nil =>
    intro here
    refine ⟨fun _ u v hs hv _ => absurd (List.append_eq_nil_iff.1 hs.symm).2 hv, fun _ => rfl⟩
  | cons c s ih =>
    intro here
    constructor
    · intro h u v hs hv hstart
      have hnone : here = true → shape (c :: s) = none := by
        rintro rfl
        cases hfind : shape (c :: s) with
        | none => rfl
        | some p =>
          rw [occurrencesFrom, if_pos rfl, hfind] at h
          cases h
      rw [occurrencesFrom_cons_of_none hnone] at h
      cases u with
      | nil =>
        rw [← show c :: s = v from hs]
        exact hnone hstart
      | cons d u =>
        obtain ⟨rfl, rfl⟩ := List.cons.inj hs
        exact ih.1 h u v rfl hv hstart
    · intro h
      have hnone : here = true → shape (c :: s) = none := h [] (c :: s) rfl (List.cons_ne_nil c s)
      rw [occurrencesFrom_cons_of_none hnone]
      exact ih.2 fun u v hs => h (c :: u) v (congrArg (c :: ·) hs)

/-- The first place where a shape is tried and found gives the first occurrence. -/
theorem occurrencesFrom_of_first {u v found rest : List Char} (hv : v ≠ [])
    (h : shape v = some (found, rest)) :
    ∀ {here : Bool}, after start here u = true →
      (∀ a b, u = a ++ b → b ≠ [] → after start here a = true → shape (b ++ v) = none) →
      ∃ more, occurrencesFrom start shape 0 here (u ++ v) = found :: more := by
  induction u with
  | nil =>
    intro here hstart _
    obtain rfl : here = true := hstart
    obtain ⟨c, s, rfl⟩ := List.exists_cons_of_ne_nil hv
    exact ⟨_, by rw [List.nil_append, occurrencesFrom, if_pos rfl, h]⟩
  | cons c u ih =>
    intro here hstart hbefore
    have hnone : here = true → shape (c :: (u ++ v)) = none :=
      hbefore [] (c :: u) rfl (List.cons_ne_nil c u)
    rw [List.cons_append, occurrencesFrom_cons_of_none hnone]
    exact ih hstart fun a b hu => hbefore (c :: a) b (congrArg (c :: ·) hu)

end Search

theorem upTo_eq_none_iff {stop : Char} {s : List Char} : upTo stop s = none ↔ stop ∉ s := by
  induction s with
  | nil => simp
  | cons c s ih =>
    by_cases hc : c = stop
    · simp [hc]
    · rw [upTo_cons_of_ne hc, Option.map_eq_none_iff, ih, List.mem_cons, not_or]
      exact ⟨fun h => ⟨Ne.symm hc, h⟩, And.right⟩

/-! ### Definitions that open -/

/-- Whether a name may start behind a text. -/
def startsWord (u : List Char) : Bool := after (fun c => !Text.isWord c) true u

/-- In the text `s` a definition opens its array, with `t` behind the bracket. -/
def Opening (s t : List Char) : Prop :=
  ∃ u v, s = u ++ v ∧ startsWord u = true ∧ defineOpen v = some ([], t)

/-- A definition opens its array, and behind none that opens is there a closing bracket. -/
structure Refused (s : List Char) : Prop where
  /-- A definition opens. -/
  opens : ∃ t, Opening s t
  /-- Behind no opening bracket there is a closing one. -/
  unended : ∀ t, Opening s t → ']' ∉ t

/-- The text of the file at `path` is rejected, for an array that has no end. -/
def Rejected (path source : String) : Prop :=
  read path source = .error (.parse path "unterminated define dependency array")

theorem defineOpen_fst {s found t : List Char} (h : defineOpen s = some (found, t)) :
    found = [] := by
  rw [defineOpen_eq] at h
  obtain ⟨_, _, h⟩ := Option.bind_eq_some_iff.1 h
  obtain ⟨_, _, he⟩ := Option.map_eq_some_iff.1 h
  exact (Prod.mk.inj he).1.symm

theorem defineOpen_suffix {s found t : List Char} (h : defineOpen s = some (found, t)) :
    t <:+ s := by
  obtain ⟨k, -, hsuffix⟩ := tolerant_defineOpen.ends h
  exact (List.suffix_cons k t).trans hsuffix

theorem ne_nil_of_defineOpen {s : List Char} {p : List Char × List Char}
    (h : defineOpen s = some p) : s ≠ [] := by
  rintro rfl
  cases h

theorem defineArray_eq_none_iff {s : List Char} :
    defineArray s = none ↔ ∀ t, defineOpen s = some ([], t) → ']' ∉ t := by
  rw [defineArray_eq, Option.bind_eq_none_iff]
  constructor
  · exact fun h t ht => upTo_eq_none_iff.1 (h _ ht)
  · rintro h ⟨found, t⟩ ht
    obtain rfl := defineOpen_fst ht
    exact upTo_eq_none_iff.2 (h t ht)

theorem occurrences_defineOpen_eq_nil_iff {s : List Char} :
    occurrences defineOpen s = [] ↔ ¬ ∃ t, Opening s t := by
  rw [occurrences, occurrencesFrom_eq_nil_iff]
  constructor
  · rintro h ⟨t, u, v, hs, hstart, hopen⟩
    rw [h u v hs (ne_nil_of_defineOpen hopen) hstart] at hopen
    cases hopen
  · intro h u v hs _ hstart
    rw [Option.eq_none_iff_forall_ne_some]
    rintro ⟨found, t⟩ hopen
    obtain rfl := defineOpen_fst hopen
    exact h ⟨t, u, v, hs, hstart, hopen⟩

theorem occurrences_defineArray_eq_nil_iff {s : List Char} :
    occurrences defineArray s = [] ↔ ∀ t, Opening s t → ']' ∉ t := by
  rw [occurrences, occurrencesFrom_eq_nil_iff]
  constructor
  · rintro h t ⟨u, v, hs, hstart, hopen⟩
    exact defineArray_eq_none_iff.1 (h u v hs (ne_nil_of_defineOpen hopen) hstart) t hopen
  · exact fun h u v hs _ hstart => defineArray_eq_none_iff.2 fun t hopen =>
      h t ⟨u, v, hs, hstart, hopen⟩

theorem defined?_eq_none_iff {s : List Char} : defined? s = none ↔ Refused s := by
  rw [defined?]
  cases harray : occurrences defineArray s with
  | nil =>
    have hunended := occurrences_defineArray_eq_nil_iff.1 harray
    have hopens := occurrences_defineOpen_eq_nil_iff (s := s)
    dsimp only
    cases hopen : occurrences defineOpen s with
    | nil => exact ⟨fun h => (by cases h), fun h => absurd h.opens (hopens.1 hopen)⟩
    | cons t more =>
      have hne : occurrences defineOpen s ≠ [] := by simp [hopen]
      exact ⟨fun _ => ⟨not_not.1 (mt hopens.2 hne), hunended⟩, fun _ => rfl⟩
  | cons list more =>
    refine ⟨fun h => (by cases h), fun h => ?_⟩
    rw [occurrences_defineArray_eq_nil_iff.2 h.unended] at harray
    cases harray

/-- **A source is rejected exactly if, without its comments, it is refused.** -/
theorem rejected_iff {path source : String} : Rejected path source ↔
    Refused (stripComments source.toList) := by
  rw [← defined?_eq_none_iff, Rejected, read, declared?]
  cases defined? (stripComments source.toList) with
  | none => simp
  | some l => simp

/-! ### Sources whose first definition opens an array -/

/-- The name of a definition, white space and the opening bracket of its arguments. -/
def callHead (sp : List Char) : List Char := "define".toList ++ (sp ++ ['('])

/-- A call of `define` up to the opening bracket of its array, which is the first argument or stands
behind a literal. -/
inductive OpeningCall : List Lexeme → Prop
  /-- The array comes first. -/
  | direct {sp gap : List Char} : (∀ c ∈ sp, Text.isSpace c = true) →
      (∀ c ∈ gap, Text.isSpace c = true) →
      OpeningCall ((callHead sp ++ (gap ++ ['['])).map .code)
  /-- A name comes first. -/
  | named {sp gap gap' gap'' : List Char} (name : List Char) : (∀ c ∈ sp, Text.isSpace c = true) →
      (∀ c ∈ gap, Text.isSpace c = true) → (∀ c ∈ gap', Text.isSpace c = true) →
      (∀ c ∈ gap'', Text.isSpace c = true) →
      OpeningCall
        ((callHead sp ++ gap).map .code ++ .literal name ::
          (gap' ++ ',' :: (gap'' ++ ['['])).map .code)

/-- Whether a lexeme is a comment. -/
def Lexeme.isComment : Lexeme → Bool
  | .block _ | .line _ => true
  | .code _ | .literal _ => false

/-- A source without comments, whose first call of `define` is `call`, which opens an array, with
`rest` behind it. -/
structure Opens (before call rest : List Lexeme) : Prop where
  /-- There are no comments. -/
  plain : ∀ x ∈ before ++ (call ++ rest), x.isComment = false
  /-- The call opens an array. -/
  opening : OpeningCall call
  /-- No word runs into its name. -/
  word : startsWord (sourceOf before) = true
  /-- It is the first call of `define`. -/
  first : ∀ a b, before = a ++ b → b ≠ [] → startsWord (sourceOf a) = true →
    ∀ sp, (∀ c ∈ sp, Text.isSpace c = true) →
      ¬ (callHead sp).map Lexeme.code <+: b ++ (call ++ rest)

/-- Whether no bracket of some lexemes closes an array that opens before them, within which `depth`
others are open. -/
def unclosed : Nat → List Lexeme → Bool
  | _, [] => true
  | depth, .code '[' :: ls => unclosed (depth + 1) ls
  | 0, .code ']' :: _ => false
  | depth + 1, .code ']' :: ls => unclosed depth ls
  | depth, _ :: ls => unclosed depth ls

/-- No literal is mistaken for a comment, no literal before the array holds a call of `define`, and
the quotes of a name do not stand in it. -/
structure Harmless (before call rest : List Lexeme) : Prop where
  /-- Nothing is mistaken for a comment. -/
  recognized : Recognized [] (before ++ (call ++ rest))
  /-- No literal before the array holds a call. -/
  unread : ∀ text, .literal text ∈ before ++ call → ∀ sp, (∀ c ∈ sp, Text.isSpace c = true) →
    ¬ callHead sp <:+: text
  /-- A name has no quote of its kind in it. -/
  name : ∀ q w, .literal (q :: (w ++ [q])) ∈ call → q ∉ w

theorem sourceOf_append (ls ls' : List Lexeme) :
    sourceOf (ls ++ ls') = sourceOf ls ++ sourceOf ls' :=
  List.flatMap_append

theorem Lexes.eq_append {before call rest : List Lexeme} {s : List Char}
    (h : Lexes (before ++ (call ++ rest)) s) :
    s = sourceOf before ++ (sourceOf call ++ sourceOf rest) := by
  rw [h.eq_sourceOf, sourceOf_append, sourceOf_append]

theorem sourceOf_codes (w : List Char) : sourceOf (w.map .code) = w := by
  induction w with
  | nil => rfl
  | cons c w ih => exact congrArg (c :: ·) ih

theorem uncommented_eq_sourceOf {ls : List Lexeme} (h : ∀ x ∈ ls, x.isComment = false) :
    uncommented ls = sourceOf ls := by
  refine List.flatMap_congr fun x hx => ?_
  cases x with
  | code c => rfl
  | literal t => rfl
  | block b => cases h _ hx
  | line b => cases h _ hx

theorem plain_of_any {ls : List Lexeme} (h : ls.any Lexeme.isComment = false) :
    ∀ x ∈ ls, x.isComment = false :=
  fun x hx => Bool.eq_false_iff.2 (List.any_eq_false.1 h x hx)

/-- Text without closing brackets does not close an array. -/
theorem unclosed_of_notMem {ls : List Lexeme} (h : ']' ∉ sourceOf ls) :
    ∀ depth, unclosed depth ls = true := by
  induction ls with
  | nil => exact fun _ => by rw [unclosed]
  | cons x ls ih =>
    rw [sourceOf_cons, List.mem_append, not_or] at h
    intro depth
    have hx : x ≠ .code ']' := by
      rintro rfl
      exact h.1 List.mem_cons_self
    by_cases hopen : x = .code '['
    · rw [hopen, unclosed]
      exact ih h.2 _
    · rw [unclosed]
      · exact ih h.2 _
      · exact hopen
      · exact fun _ => hx
      · exact fun _ _ => hx

/-! ### Text without quotes in a source -/

section Found

variable {ls : List Lexeme} {s : List Char}

/-- A literal of a source is text between two equal quotes. -/
theorem Lexes.literal_eq (h : Lexes ls s) {t : List Char} (ht : .literal t ∈ ls) :
    ∃ q w, isQuote q = true ∧ t = q :: (w ++ [q]) := by
  induction h with
  | nil => cases ht
  | code _ _ _ ih => exact ih (by simpa using ht)
  | @literal q body ls s hq hbody _ ih =>
    rcases List.mem_cons.1 ht with heq | ht
    · obtain ⟨w, rfl⟩ := hbody.exists_concat
      exact ⟨q, w, hq, Lexeme.literal.inj heq⟩
    · exact ih ht
  | block _ _ ih => exact ih (by simpa using ht)
  | line _ _ _ ih => exact ih (by simpa using ht)

/-- Text without quotes at the start of a source without comments is code. -/
theorem Lexes.codes_prefix {w r : List Char} (hw : ∀ c ∈ w, isQuote c = false) :
    ∀ {ls : List Lexeme}, Lexes ls (w ++ r) → (∀ x ∈ ls, x.isComment = false) →
      w.map .code <+: ls := by
  induction w with
  | nil => exact fun _ _ => List.nil_prefix
  | cons c w ih =>
    intro ls h hplain
    have hc := hw c List.mem_cons_self
    generalize hs : c :: w ++ r = s at h
    cases h with
    | nil => cases hs
    | code _ _ h =>
      obtain ⟨rfl, rfl⟩ := List.cons.inj hs
      exact List.cons_prefix_cons.2 ⟨rfl, ih (fun d hd => hw d (List.mem_cons_of_mem _ hd)) h
        fun x hx => hplain x (List.mem_cons_of_mem _ hx)⟩
    | literal hq _ _ => exact absurd (List.cons.inj hs).1.symm (ne_of_isQuote hq hc)
    | block _ _ => cases hplain _ List.mem_cons_self
    | line _ _ _ => cases hplain _ List.mem_cons_self

/-- **Text without quotes is found in code or within one literal:** where it starts within `before`,
it is code from the start of a lexeme on, or a literal of `before` holds all of it. -/
theorem Lexes.found {w r : List Char} {behind : List Lexeme} (hw : ∀ c ∈ w, isQuote c = false) :
    ∀ {before : List Lexeme} {u v s : List Char}, Lexes (before ++ behind) s →
      (∀ x ∈ before ++ behind, x.isComment = false) → sourceOf before = u ++ v → v ≠ [] →
      v ++ sourceOf behind = w ++ r →
      (∃ a b, before = a ++ b ∧ b ≠ [] ∧ sourceOf a = u ∧ w.map .code <+: b ++ behind) ∨
        ∃ text, .literal text ∈ before ∧ w <:+: text := by
  intro before
  induction before with
  | nil =>
    intro u v s _ _ hsource hv _
    exact absurd (List.append_eq_nil_iff.1 hsource.symm).2 hv
  | cons x before ih =>
    intro u v s h hplain hsource hv hfound
    have hplain' : ∀ y ∈ before ++ behind, y.isComment = false :=
      fun y hy => hplain y (List.mem_cons_of_mem _ hy)
    -- what is found behind the first lexeme is found with that lexeme before it
    have hrest : ∀ {u' s' : List Char}, Lexes (before ++ behind) s' → u = x.text ++ u' →
        sourceOf before = u' ++ v →
        (∃ a b, x :: before = a ++ b ∧ b ≠ [] ∧ sourceOf a = u ∧ w.map .code <+: b ++ behind) ∨
          ∃ text, .literal text ∈ x :: before ∧ w <:+: text := by
      intro u' s' h' hu hsource'
      rcases ih h' hplain' hsource' hv hfound with ⟨a, b, rfl, hb, ha, hcode⟩ | ⟨text, hmem, htext⟩
      · exact .inl ⟨x :: a, b, rfl, hb, by rw [sourceOf_cons, ha, hu], hcode⟩
      · exact .inr ⟨text, List.mem_cons_of_mem _ hmem, htext⟩
    cases u with
    | nil =>
      have hcode : w.map .code <+: x :: before ++ behind := by
        refine Lexes.codes_prefix (r := r) hw ?_ hplain
        rw [← hfound, ← show sourceOf (x :: before) = v from hsource, ← sourceOf_append,
          ← h.eq_sourceOf]
        exact h
      exact .inl ⟨[], x :: before, rfl, List.cons_ne_nil x before, rfl, hcode⟩
    | cons d u =>
      rw [List.cons_append] at h
      cases h with
      | code _ _ h =>
        obtain ⟨rfl, htail⟩ := List.cons.inj hsource
        exact hrest h rfl htail
      | @literal q body _ s hq hbody h =>
        obtain ⟨rfl, htail⟩ := List.cons.inj hsource
        rcases List.append_eq_append_iff.1 htail with ⟨u', rfl, htail'⟩ | ⟨c, hbody', rfl⟩
        · exact hrest h rfl htail'
        · rcases List.eq_nil_or_concat' c with rfl | ⟨c, e, rfl⟩
          · have hu : q :: u = (Lexeme.literal (q :: body)).text ++ [] := by
              simp [hbody', Lexeme.text]
            exact hrest h hu rfl
          · -- the text starts within the literal, and does not reach its closing quote
            obtain rfl : q = e := hbody.eq_of_concat (w := q :: (u ++ c)) (by rw [hbody']; simp)
            rw [List.append_assoc, List.append_assoc, List.singleton_append] at hfound
            have hinfix : w <:+: c := by
              rcases List.append_eq_append_iff.1 hfound with ⟨t, rfl, ht⟩ | ⟨t, rfl, -⟩
              · cases t with
                | nil => simp
                | cons e t =>
                  obtain rfl : q = e := (List.cons.inj ht).1
                  rw [hw q (by simp)] at hq
                  cases hq
              · exact (List.prefix_append w t).isInfix
            exact .inr ⟨_, List.mem_cons_self, hinfix.trans ⟨q :: u, [q], by rw [hbody']; simp⟩⟩
      | block _ _ => cases hplain _ List.mem_cons_self
      | line _ _ _ => cases hplain _ List.mem_cons_self

end Found

/-! ### The first definition of a source -/

theorem callHead_eq_cons (sp : List Char) :
    callHead sp = 'd' :: ("efine".toList ++ (sp ++ ['('])) := rfl

theorem callHead_append (sp t : List Char) :
    callHead sp ++ t = "define".toList ++ (sp ++ '(' :: t) :=
  (List.append_assoc _ _ t).trans (congrArg ("define".toList ++ ·) (List.append_assoc sp ['('] t))

theorem isSpace_of_isQuote {c : Char} (h : isQuote c = true) : Text.isSpace c = false := by
  simp only [isQuote, Bool.or_eq_true, decide_eq_true_eq] at h
  rcases h with rfl | rfl <;> decide

/-- A call up to its array is found in the text, unless its name has its own quote in it. -/
theorem OpeningCall.defineOpen {call : List Lexeme} (h : OpeningCall call)
    (hliteral : ∀ t, .literal t ∈ call → ∃ q w, isQuote q = true ∧ t = q :: (w ++ [q]))
    (hname : ∀ q w, .literal (q :: (w ++ [q])) ∈ call → q ∉ w) (r : List Char) :
    Amd.defineOpen (sourceOf call ++ r) = some ([], r) := by
  have harguments : ∀ {sp : List Char} (t : List Char), (∀ c ∈ sp, Text.isSpace c = true) →
      arguments "define".toList (callHead sp ++ t) = some (skipSpace t) := by
    intro sp t hsp
    exact arguments_eq_some_iff.2 ⟨sp, t, hsp, callHead_append sp t, rfl⟩
  have hbracket : ∀ {gap : List Char}, (∀ c ∈ gap, Text.isSpace c = true) →
      skipSpace (gap ++ '[' :: r) = '[' :: r := fun hgap => skipSpace_eq_of hgap (by decide) r
  cases h with
  | @direct sp gap hsp hgap =>
    have hsource : sourceOf ((callHead sp ++ (gap ++ ['['])).map .code) ++ r =
        callHead sp ++ (gap ++ '[' :: r) := by
      rw [sourceOf_codes]
      simp
    rw [hsource, defineOpen_eq, harguments _ hsp, hbracket hgap]
    rfl
  | @named sp gap gap' gap'' name hsp hgap hgap' hgap'' =>
    obtain ⟨q, w, hq, rfl⟩ := hliteral name (by simp)
    have hsource : sourceOf ((callHead sp ++ gap).map .code ++
        .literal (q :: (w ++ [q])) :: (gap' ++ ',' :: (gap'' ++ ['['])).map .code) ++ r
          = callHead sp ++ (gap ++ q :: (w ++ q :: (gap' ++ ',' :: (gap'' ++ '[' :: r)))) := by
      rw [sourceOf_append, sourceOf_cons, sourceOf_codes, sourceOf_codes]
      simp [Lexeme.text]
    have hquoted : quoted (q :: (w ++ q :: (gap' ++ ',' :: (gap'' ++ '[' :: r))))
        = some (w, gap' ++ ',' :: (gap'' ++ '[' :: r)) := by
      rw [quoted_cons, if_pos (by simpa [isQuote] using hq), upTo_append (hname q w (by simp))]
    rw [hsource, defineOpen_eq, harguments _ hsp, skipSpace_eq_of hgap (isSpace_of_isQuote hq),
      Option.bind_some, skipName_eq, hquoted, Option.bind_some, skipSpace_eq_of hgap' (by decide),
      expect, if_pos rfl, Option.map_some, hbracket hgap'']
    rfl

theorem code_notMem_codes {c : Char} {w : List Char} (h : c ∉ w) :
    .code c ∉ w.map Lexeme.code := by simpa using h

/-- The name of a call does not start again within the call. -/
theorem OpeningCall.exists_cons {call : List Lexeme} (h : OpeningCall call) :
    ∃ tail, call = .code 'd' :: tail ∧ .code 'd' ∉ tail := by
  have hspace : ∀ {sp : List Char}, (∀ c ∈ sp, Text.isSpace c = true) → 'd' ∉ sp := fun hsp hmem =>
    absurd (hsp _ hmem) (by decide)
  have hhead : ∀ {sp : List Char}, (∀ c ∈ sp, Text.isSpace c = true) →
      'd' ∉ "efine".toList ++ (sp ++ ['(']) := by
    intro sp hsp
    rw [List.mem_append, List.mem_append, not_or, not_or]
    exact ⟨by decide, hspace hsp, by decide⟩
  cases h with
  | @direct sp gap hsp hgap =>
    have hgap' : 'd' ∉ gap ++ ['['] := by simp [hspace hgap]
    exact ⟨_, rfl, code_notMem_codes (List.not_mem_append (hhead hsp) hgap')⟩
  | @named sp gap gap' gap'' name hsp hgap hgap' hgap'' =>
    have hclose : 'd' ∉ gap' ++ ',' :: (gap'' ++ ['[']) := by simp [hspace hgap', hspace hgap'']
    refine ⟨_, rfl,
      List.not_mem_append (code_notMem_codes (List.not_mem_append (hhead hsp) (hspace hgap))) ?_⟩
    rw [List.mem_cons, not_or]
    exact ⟨by simp, code_notMem_codes hclose⟩

theorem isQuote_callHead {sp : List Char} (hsp : ∀ c ∈ sp, Text.isSpace c = true) :
    ∀ c ∈ callHead sp, isQuote c = false := by
  have hdefine : ∀ c ∈ "define".toList, isQuote c = false := by simp [isQuote]
  intro c hc
  rcases List.mem_append.1 (show c ∈ "define".toList ++ (sp ++ ['(']) from hc) with hc | hc
  · exact hdefine c hc
  rcases List.mem_append.1 hc with hc | hc
  · by_contra hquote
    have hspace := isSpace_of_isQuote (Bool.not_eq_false _ ▸ hquote)
    rw [hsp c hc] at hspace
    cases hspace
  · rw [List.mem_singleton.1 hc]
    decide

section First

variable {before call rest : List Lexeme} (hopens : Opens before call rest)

include hopens

/-- Up to the array, a call of `define` in code is the call that opens the array. -/
theorem Opens.eq_call {a b : List Lexeme} (hab : before ++ call = a ++ b) (hb : b ≠ [])
    {sp : List Char} (hsp : ∀ c ∈ sp, Text.isSpace c = true)
    (hstart : startsWord (sourceOf a) = true) (hcode : (callHead sp).map .code <+: b ++ rest) :
    a = before ∧ b = call := by
  rcases List.append_eq_append_iff.1 hab with ⟨e, rfl, hcall⟩ | ⟨e, rfl, rfl⟩
  · cases e with
    | nil => exact ⟨List.append_nil before, hcall.symm⟩
    | cons y e =>
      -- the name of the call is the only `d` of code in it
      obtain ⟨tail, htail, hd⟩ := hopens.opening.exists_cons
      obtain ⟨z, b, rfl⟩ := List.exists_cons_of_ne_nil hb
      obtain rfl : Lexeme.code 'd' = z := (List.cons_prefix_cons.1 hcode).1
      rw [htail, List.cons_append] at hcall
      rw [(List.cons.inj hcall).2] at hd
      exact absurd (by simp) hd
  · by_cases he : e = []
    · subst he
      exact ⟨(List.append_nil a).symm, rfl⟩
    · exact absurd (List.append_assoc .. ▸ hcode) (hopens.first a e rfl he hstart sp hsp)

variable {s : List Char} (hlexes : Lexes (before ++ (call ++ rest)) s)
  (hharmless : Harmless before call rest)

include hlexes hharmless

theorem Opens.stripComments_eq : stripComments s = s := by
  have h := stripComments_uncommented hlexes hharmless.recognized
  rwa [uncommented_eq_sourceOf hopens.plain, ← hlexes.eq_sourceOf] at h

theorem Opens.defineOpen_call :
    defineOpen (sourceOf call ++ sourceOf rest) = some ([], sourceOf rest) :=
  hopens.opening.defineOpen (fun t ht => hlexes.literal_eq (by simp [ht])) hharmless.name _

/-- **The first call is the first that is found:** what opens in the text opens there or behind
it. -/
theorem Opens.opening_behind {u v t : List Char} (hs : s = u ++ v) (hstart : startsWord u = true)
    (hopen : defineOpen v = some ([], t)) : sourceOf before <+: u ∧ t <:+ sourceOf rest := by
  obtain ⟨sp, x, hsp, hx⟩ : ∃ sp x, (∀ c ∈ sp, Text.isSpace c = true) ∧ v = callHead sp ++ x := by
    rw [defineOpen_eq] at hopen
    obtain ⟨y, hy, -⟩ := Option.bind_eq_some_iff.1 hopen
    obtain ⟨sp, x, hsp, rfl, -⟩ := arguments_eq_some_iff.1 hy
    exact ⟨sp, x, hsp, (callHead_append sp x).symm⟩
  -- behind the bracket of the array, everything is part of `rest`
  have hbehind : ∀ y, u = sourceOf (before ++ call) ++ y → sourceOf rest = y ++ v →
      sourceOf before <+: u ∧ t <:+ sourceOf rest := by
    rintro y rfl hrest
    rw [sourceOf_append, List.append_assoc, hrest]
    exact ⟨List.prefix_append _ _, (defineOpen_suffix hopen).trans (List.suffix_append y v)⟩
  rw [← List.append_assoc] at hlexes
  have hsource : sourceOf (before ++ call) ++ sourceOf rest = u ++ v :=
    (sourceOf_append _ _).symm.trans (hlexes.eq_sourceOf.symm.trans hs)
  rcases List.append_eq_append_iff.1 hsource with ⟨y, hu, hv⟩ | ⟨y, hu, rfl⟩
  · exact hbehind y hu hv
  · by_cases hy : y = []
    · subst hy
      exact hbehind [] (by simpa using hu.symm) rfl
    rcases Lexes.found (isQuote_callHead hsp) hlexes
      (List.append_assoc .. ▸ hopens.plain) hu hy hx with
      ⟨a, b, hab, hb, rfl, hcode⟩ | ⟨text, hmem, htext⟩
    · obtain ⟨rfl, rfl⟩ := hopens.eq_call hab hb hsp hstart hcode
      obtain rfl : sourceOf b = y := by simpa [sourceOf_append] using hu
      rw [List.append_assoc] at hlexes
      obtain rfl : sourceOf rest = t := by
        simpa [hopens.defineOpen_call hlexes hharmless] using hopen
      exact ⟨List.prefix_rfl, List.suffix_rfl⟩
    · exact absurd htext (hharmless.unread text hmem sp hsp)

/-- A source is refused exactly if no closing bracket follows the array. -/
theorem Opens.refused_iff : Refused s ↔ ']' ∉ sourceOf rest := by
  have hs := hlexes.eq_append
  have hopening : Opening s (sourceOf rest) :=
    ⟨_, _, hs, hopens.word, hopens.defineOpen_call hlexes hharmless⟩
  constructor
  · exact fun h => h.unended _ hopening
  · rintro hmem
    refine ⟨⟨_, hopening⟩, ?_⟩
    rintro t ⟨u, v, hs, hstart, hopen⟩ ht
    exact hmem ((hopens.opening_behind hlexes hharmless hs hstart hopen).2.subset ht)

/-- The specifiers are those between the opening bracket and the first closing one. -/
theorem Opens.defined?_eq {inside behind : List Char}
    (hrest : sourceOf rest = inside ++ ']' :: behind) (hinside : ']' ∉ inside) :
    defined? s = some (literals inside) := by
  have hs := hlexes.eq_append
  have hcall := hopens.defineOpen_call hlexes hharmless
  have harray : defineArray (sourceOf call ++ sourceOf rest) = some (inside, behind) := by
    rw [defineArray_eq, hcall, Option.bind_some, hrest, upTo_append hinside]
  have hbefore : ∀ a b, sourceOf before = a ++ b → b ≠ [] → startsWord a = true →
      defineArray (b ++ (sourceOf call ++ sourceOf rest)) = none := by
    intro a b hab hb hstart
    refine defineArray_eq_none_iff.2 fun t hopen => ?_
    have hprefix :=
      (hopens.opening_behind hlexes hharmless (hs.trans (by rw [hab, List.append_assoc]))
        hstart hopen).1
    have hlength := hprefix.length_le
    rw [hab, List.length_append] at hlength
    exact absurd (List.length_eq_zero_iff.1 (by omega)) hb
  obtain ⟨more, hfirst⟩ :=
    occurrencesFrom_of_first (ne_nil_of_defineOpen hcall) harray hopens.word hbefore
  rw [defined?, hs, occurrences, hfirst]

end First

/-! ### Rejected sources -/

/-- **An array that opens in the first definition is rejected exactly if no closing bracket
follows:** a source is rejected exactly if, without its comments, it is refused.  Where no literal
is mistaken for code, that is so exactly if the opening bracket has no matching one and no closing
bracket stands behind it, not even in a literal or for another opening one; else the specifiers are
taken from the text up to the first closing bracket. -/
theorem rejected_of_opens {before call rest : List Lexeme} {s : List Char}
    (hlexes : Lexes (before ++ (call ++ rest)) s) (hopens : Opens before call rest)
    (path : String) :
    (Rejected path (String.ofList s) ↔ Refused (stripComments s)) ∧
      (Harmless before call rest →
        (Rejected path (String.ofList s) ↔ unclosed 0 rest = true ∧ ']' ∉ sourceOf rest) ∧
        ∀ inside behind, sourceOf rest = inside ++ ']' :: behind → ']' ∉ inside →
          ∃ d, read path (String.ofList s) = .ok d ∧ d.define = literals inside) := by
  have hrejected : Rejected path (String.ofList s) ↔ Refused (stripComments s) := by
    rw [rejected_iff, String.toList_ofList]
  refine ⟨hrejected, fun hharmless => ⟨?_, fun inside behind hrest hinside => ?_⟩⟩
  · rw [hrejected, hopens.stripComments_eq hlexes hharmless, hopens.refused_iff hlexes hharmless]
    exact ⟨fun h => ⟨unclosed_of_notMem h 0, h⟩, And.right⟩
  · have hdefined := hopens.defined?_eq hlexes hharmless hrest hinside
    have hdeclared : declared? s =
        some { define := literals inside, require := required s, object := requiredOnes s } := by
      rw [declared?, hopens.stripComments_eq hlexes hharmless, hdefined]
      rfl
    exact ⟨_, read_of_declared? (by rw [String.toList_ofList, hdeclared]), rfl⟩

/-- Where no code before a call starts with its first letter, the call is the first one. -/
theorem first_of_notMem {before tail : List Lexeme} (h : .code 'd' ∉ before) {a b : List Lexeme}
    (hab : before = a ++ b) (hb : b ≠ []) (sp : List Char) :
    ¬ (callHead sp).map Lexeme.code <+: b ++ tail := by
  obtain ⟨x, b, rfl⟩ := List.exists_cons_of_ne_nil hb
  intro hprefix
  obtain rfl : Lexeme.code 'd' = x := (List.cons_prefix_cons.1 hprefix).1
  exact h (by simp [hab])

theorem literal_notMem_codes (t w : List Char) : .literal t ∉ w.map Lexeme.code := by
  intro h
  obtain ⟨c, -, hc⟩ := List.mem_map.1 h
  cases hc

theorem literal_mem_codes {t w : List Char} {ls : List Lexeme} :
    .literal t ∈ w.map .code ++ ls ↔ .literal t ∈ ls := by
  rw [List.mem_append]
  exact or_iff_right (literal_notMem_codes t w)

/-- What comes before a call with a name. -/
def namedBefore : List Lexeme :=
  "var s = ".toList.map .code ++ .literal ('"' :: ("]".toList ++ ['"'])) :: "; ".toList.map .code

/-- A call with a name. -/
def namedCall : List Lexeme :=
  "define(".toList.map .code ++ .literal ('\'' :: ("m".toList ++ ['\''])) :: ", [".toList.map .code

/-- What comes behind the bracket of an array that is never closed. -/
def namedRest : List Lexeme :=
  .literal ('"' :: ("./a".toList ++ ['"'])) :: ", function() \x7b\x7d);".toList.map .code

theorem named_eq : namedBefore ++ (namedCall ++ namedRest) = "var s = ".toList.map .code ++
    .literal ('"' :: ("]".toList ++ ['"'])) :: ("; define(".toList.map .code ++
      .literal ('\'' :: ("m".toList ++ ['\''])) :: (", [".toList.map .code ++
        .literal ('"' :: ("./a".toList ++ ['"'])) ::
          (", function() \x7b\x7d);".toList.map .code ++ []))) := rfl

theorem lexes_named :
    Lexes (namedBefore ++ (namedCall ++ namedRest))
      (sourceOf (namedBefore ++ (namedCall ++ namedRest))) := by
  have hend := Lexes.codes (w := ", function() \x7b\x7d);".toList) (by simp [isQuote]) .nil
  have harray := Lexes.codes (w := ", [".toList) (by simp [isQuote])
    (.literal (by decide) (.of_notMem (q := '"') (w := "./a".toList) (by simp) (by simp)) hend)
  have hcall := Lexes.codes (w := "; define(".toList) (by simp [isQuote])
    (.literal (by decide) (.of_notMem (q := '\'') (w := "m".toList) (by simp) (by simp)) harray)
  have hall := Lexes.codes (w := "var s = ".toList) (by simp [isQuote])
    (.literal (by decide) (.of_notMem (q := '"') (w := "]".toList) (by simp) (by simp)) hcall)
  rw [← named_eq] at hall
  exact hall.eq_sourceOf ▸ hall

theorem opens_named : Opens namedBefore namedCall namedRest where
  plain := plain_of_any rfl
  opening := by
    have hcall :
        OpeningCall ((callHead [] ++ []).map .code ++ .literal ('\'' :: ("m".toList ++ ['\''])) ::
        ([] ++ ',' :: ([' '] ++ ['['])).map .code) :=
      .named _ (List.forall_mem_nil _) (List.forall_mem_nil _) (List.forall_mem_nil _)
        (List.forall_mem_singleton.2 (by decide))
    exact hcall
  word := by decide
  first _ _ hab hb _ sp _ := first_of_notMem (by decide) hab hb sp

theorem harmless_named : Harmless namedBefore namedCall namedRest where
  recognized := by
    have hrecognized : ∀ {q : Char} {w : List Char}, isQuote q = true → q ∉ w → '\\' ∉ w →
        '\n' ∉ q :: (w ++ [q]) → '*' ∉ q :: (w ++ [q]) →
          ∀ pre rest, (Lexeme.literal (q :: (w ++ [q]))).Recognized pre rest :=
      fun hq hw hesc hline hstar => Lexeme.recognized_literal hq (.of_notMem hw hesc) hline fun h =>
        hstar (h.subset (List.mem_cons_of_mem _ List.mem_cons_self))
    rw [named_eq]
    exact .codes ⟨hrecognized (by decide) (by simp) (by simp) (by simp) (by simp) _ _,
      .codes ⟨hrecognized (by decide) (by simp) (by simp) (by simp) (by simp) _ _,
        .codes ⟨hrecognized (by decide) (by simp) (by simp) (by simp) (by simp) _ _,
          .codes trivial⟩⟩⟩
  unread := by
    intro text hmem sp _ h
    have hd : 'd' ∈ text := h.subset (callHead_eq_cons sp ▸ List.mem_cons_self)
    have hmem' : Lexeme.literal text ∈ "var s = ".toList.map .code ++
        .literal ('"' :: ("]".toList ++ ['"'])) ::
        ("; define(".toList.map .code ++ .literal ('\'' :: ("m".toList ++ ['\''])) ::
          ", [".toList.map .code) := hmem
    rw [literal_mem_codes, List.mem_cons, literal_mem_codes, List.mem_cons] at hmem'
    rcases hmem' with h | h | h
    · rw [Lexeme.literal.inj h] at hd
      simp at hd
    · rw [Lexeme.literal.inj h] at hd
      simp at hd
    · exact absurd h (literal_notMem_codes _ _)
  name := by
    intro q w hmem
    have hmem' : Lexeme.literal (q :: (w ++ [q])) ∈ "define(".toList.map .code ++
        .literal ('\'' :: ("m".toList ++ ['\''])) :: ", [".toList.map .code := hmem
    rw [literal_mem_codes, List.mem_cons] at hmem'
    rcases hmem' with h | h
    · obtain ⟨rfl, hw⟩ := List.cons.inj (Lexeme.literal.inj h)
      rw [(List.append_inj' hw rfl).1]
      simp
    · exact absurd h (literal_notMem_codes _ _)

theorem rejected_of_opens_named :
    String.ofList (sourceOf (namedBefore ++ (namedCall ++ namedRest)))
        = "var s = \"]\"; define('m', [\"./a\", function() \x7b\x7d);" ∧
      Lexes (namedBefore ++ (namedCall ++ namedRest))
        (sourceOf (namedBefore ++ (namedCall ++ namedRest))) ∧
      Opens namedBefore namedCall namedRest ∧ Harmless namedBefore namedCall namedRest ∧
      Rejected "m.js" (String.ofList (sourceOf (namedBefore ++ (namedCall ++ namedRest)))) :=
  ⟨by rfl, lexes_named, opens_named, harmless_named,
    ((rejected_of_opens lexes_named opens_named "m.js").2 harmless_named).1.2
      ⟨by decide, by decide⟩⟩

/-- The part behind the opening bracket of an array that is not closed, with an index in it. -/
def indexRest : List Lexeme :=
  .literal ('"' :: ("./a".toList ++ ['"'])) ::
    ", function(a) \x7b return a[0]; \x7d);".toList.map .code

/-- **A bracket that closes another one ends an array that is never closed.** -/
theorem not_rejected_unclosed :
    ¬ ∀ path before call rest s, Lexes (before ++ (call ++ rest)) s → Opens before call rest →
      unclosed 0 rest = true → Rejected path (String.ofList s) := by
  have hbody : LiteralBody '"' ("./a".toList ++ ['"']) := .of_notMem (by simp) (by simp)
  have hend :=
    Lexes.codes (w := ", function(a) \x7b return a[0]; \x7d);".toList) (by simp [isQuote]) .nil
  have hlexes :=
    Lexes.codes (w := "define([".toList) (by simp [isQuote])
      (.literal (q := '"') (by decide) hbody hend)
  have hcall : OpeningCall ((callHead [] ++ ([] ++ ['['])).map .code) :=
    .direct (List.forall_mem_nil _) (List.forall_mem_nil _)
  have hopens : Opens [] ("define([".toList.map .code) indexRest :=
    { plain := plain_of_any rfl
      opening := hcall
      word := by decide
      first := fun _ _ hab hb => absurd (List.append_eq_nil_iff.1 hab.symm).2 hb }
  intro h
  have hrejected := h "m.js" [] _ indexRest _ hlexes hopens (by decide)
  rw [Rejected, read, String.toList_ofList] at hrejected
  cases hrejected

/-- The bracket of an index is taken for the end of an array that is never closed. -/
example : read "m.js" "define([\"./a\", function(a) \x7b return a[0]; \x7d);" =
    .ok { define := ["./a"] } := by rfl

end ModuleAtlas.Amd
