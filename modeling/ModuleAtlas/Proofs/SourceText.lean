import Mathlib.Data.List.Infix
import ModuleAtlas.Amd.Printer
import ModuleAtlas.Amd.Reader
import ModuleAtlas.Proofs.CommentLaws

/-!
# Module sources are read back

A written module has two texts between brackets, the lists of its specifiers, each behind its own
call.  Specifiers between double quotes start no comment and no further call, so reading the source
gives back the lists, of which that of the requirements has each specifier once.

## Main definitions

* `Quotable` — specifiers that can stand between double quotes.

## Main results

* `literals_quotedChars` — a quoted list is read back.
* `stripComments_source` — a written module has no comments.
* `occurrences_source` — the calls of a written module are its own.
* `read_source` — **reading a written module gives back its lists.**
-/

namespace ModuleAtlas.Amd

/-! ### Specifiers between quotes -/

/-- A specifier that can stand between double quotes, with no end of a list, no call and no comment
in it. -/
structure Quotable (s : String) : Prop where
  /-- No double quote ends it early. -/
  quote : '"' ∉ s.toList
  /-- No bracket ends the list. -/
  bracket : ']' ∉ s.toList
  /-- There is no call. -/
  call : '(' ∉ s.toList
  /-- There is no line break. -/
  line : '\n' ∉ s.toList
  /-- No comment opens. -/
  comment : ¬ ['/', '*'] <:+: s.toList

instance (s : String) : Decidable (Quotable s) :=
  decidable_of_iff ('"' ∉ s.toList ∧ ']' ∉ s.toList ∧ '(' ∉ s.toList ∧ '\n' ∉ s.toList ∧
    ¬ ['/', '*'] <:+: s.toList)
    ⟨fun ⟨quote, bracket, call, line, comment⟩ => ⟨quote, bracket, call, line, comment⟩,
      fun ⟨quote, bracket, call, line, comment⟩ => ⟨quote, bracket, call, line, comment⟩⟩

/-- The characters of a quoted list. -/
def quotedChars (l : List String) : List Char := (quotedList l).toList

theorem quotedChars_singleton (s : String) : quotedChars [s] = '"' :: (s.toList ++ ['"']) := by
  simp [quotedChars, quotedList]

theorem quotedChars_cons_cons (s t : String) (l : List String) :
    quotedChars (s :: t :: l) = '"' :: (s.toList ++ '"' :: ',' :: ' ' :: quotedChars (t :: l)) := by
  simp [quotedChars, quotedList]

theorem quoted_append {w : List Char} (hw : '"' ∉ w) (rest : List Char) :
    quoted ('"' :: (w ++ '"' :: rest)) = some (w, rest) := upTo_append hw rest

/-- **A quoted list is read back.** -/
theorem literals_quotedChars {l : List String} (h : ∀ s ∈ l, '"' ∉ s.toList) :
    literals (quotedChars l) = l := by
  have hsearch : ∀ {s : String} {rest : List Char}, '"' ∉ s.toList →
      literals ('"' :: (s.toList ++ '"' :: rest)) = s :: literals rest := by
    intro s rest hs
    have hall : after (fun _ => true) true ('"' :: (s.toList ++ ['"'])) = true := by
      rw [after, ← List.cons_append, List.foldl_concat]
    rw [literals, occurrencesFrom_of_some (x := '"' :: (s.toList ++ ['"'])) (quoted_append hs rest)
      (by simp) (by simp), hall, List.map_cons, String.ofList_toList]
    rfl
  induction l with
  | nil => rfl
  | cons s l ih =>
    have hs := h s List.mem_cons_self
    cases l with
    | nil => rw [quotedChars_singleton, hsearch hs]; rfl
    | cons t l =>
      rw [quotedChars_cons_cons, hsearch hs]
      congr 1
      exact ih fun s hs => h s (List.mem_cons_of_mem _ hs)

/-- The characters of a quoted list are those of the specifiers and of what is put around them. -/
theorem mem_quotedChars {l : List String} {c : Char} (h : c ∈ quotedChars l) :
    c = '"' ∨ c = ',' ∨ c = ' ' ∨ ∃ s ∈ l, c ∈ s.toList := by
  induction l with
  | nil => cases h
  | cons s l ih =>
    cases l with
    | nil =>
      rw [quotedChars_singleton] at h
      simp only [List.mem_cons, List.mem_append, List.not_mem_nil, or_false] at h
      rcases h with h | h | h
      · exact .inl h
      · exact .inr (.inr (.inr ⟨s, List.mem_cons_self, h⟩))
      · exact .inl h
    | cons t l =>
      rw [quotedChars_cons_cons] at h
      simp only [List.mem_cons, List.mem_append] at h
      rcases h with h | h | h | h | h | h
      · exact .inl h
      · exact .inr (.inr (.inr ⟨s, List.mem_cons_self, h⟩))
      · exact .inl h
      · exact .inr (.inl h)
      · exact .inr (.inr (.inl h))
      · refine (ih h).imp_right (.imp_right (.imp_right ?_))
        rintro ⟨u, hu, hc⟩
        exact ⟨u, List.mem_cons_of_mem _ hu, hc⟩

/-- What a quoted list cannot hold: what none of its specifiers holds, apart from what is put around
them. -/
theorem notMem_quotedChars {l : List String} {c : Char} (hl : ∀ s ∈ l, c ∉ s.toList)
    (hc : c ≠ '"' ∧ c ≠ ',' ∧ c ≠ ' ') : c ∉ quotedChars l := by
  intro h
  rcases mem_quotedChars h with h | h | h | ⟨s, hs, h⟩
  · exact hc.1 h
  · exact hc.2.1 h
  · exact hc.2.2 h
  · exact hl s hs h

theorem head?_quotedChars (l : List String) : (quotedChars l).head? ≠ some '*' := by
  cases l with
  | nil => simp [quotedChars]
  | cons s l => cases l <;> simp [quotedChars_singleton, quotedChars_cons_cons]

theorem noPair_quotedChars {l : List String} (h : ∀ s ∈ l, Quotable s) :
    NoPair '/' '*' (quotedChars l) := by
  induction l with
  | nil => exact List.isChain_nil
  | cons s l ih =>
    have hs : NoPair '/' '*' s.toList := noPair_of_not_infix (h s List.mem_cons_self).comment
    have hquote : NoPair '/' '*' ['"'] := List.isChain_singleton _
    cases l with
    | nil =>
      rw [quotedChars_singleton]
      exact List.isChain_cons.2 ⟨by simp, hs.append hquote (by simp)⟩
    | cons t l =>
      have hrest := ih fun s hs => h s (List.mem_cons_of_mem _ hs)
      have hsep : NoPair '/' '*' ['"', ',', ' '] := by
        simp [NoPair]
      rw [quotedChars_cons_cons]
      exact List.isChain_cons.2
        ⟨by simp, hs.append (hsep.append hrest (head?_quotedChars (t :: l))) (by simp)⟩

/-! ### Written modules -/

/-- The characters of a module that requires nothing. -/
theorem toList_source_nil (define : List String) :
    (source define []).toList = "define".toList ++ '(' ::
    ('[' :: (quotedChars define ++ ']' :: ", function".toList) ++
      '(' :: ") \x7b\x7d);\n".toList) := by
  simp [source, quotedChars]

/-- The characters of a module with requirements. -/
theorem toList_source {require : List String} (h : require ≠ []) (define : List String) :
    (source define require).toList = "define".toList ++ '(' ::
      ('[' :: (quotedChars define ++ ']' :: ", function".toList) ++
        '(' :: (") \x7b\n    require".toList ++ '(' ::
        ('[' :: (quotedChars require ++ ']' :: ", function".toList) ++
          '(' :: ") \x7b\x7d);\n\x7d);\n".toList))) := by
  simp [source, quotedChars, h]

section Source

variable {define require : List String} (hdefine : ∀ s ∈ define, Quotable s)
  (hrequire : ∀ s ∈ require, Quotable s)

/-- What stands around a list in one line holds no line break and opens no comment, and neither does
the list. -/
theorem lines_of_quotable {l : List String} (hl : ∀ s ∈ l, Quotable s) (before behind : List Char)
    (hbefore : NoPair '/' '*' before ∧ '\n' ∉ before)
    (hbehind : NoPair '/' '*' behind ∧ '\n' ∉ behind) (hhead : behind.head? ≠ some '*') :
    NoPair '/' '*' (before ++ (quotedChars l ++ behind)) ∧
      '\n' ∉ before ++ (quotedChars l ++ behind) := by
  have hlist : '\n' ∉ quotedChars l := notMem_quotedChars (fun s hs => (hl s hs).line) (by decide)
  have hrest := (noPair_quotedChars hl).append hbehind.1 hhead
  refine ⟨hbefore.1.append hrest ?_, by simp [hbefore.2, hlist, hbehind.2]⟩
  rw [List.head?_append]
  intro h
  rcases Option.or_eq_some_iff.1 h with h | ⟨-, h⟩
  · exact head?_quotedChars l h
  · exact hhead h

include hdefine hrequire

/-- **A written module has no comments.** -/
theorem stripComments_source :
    stripComments (source define require).toList = (source define require).toList := by
  have hfirst : ∀ behind : List Char, NoPair '/' '*' behind ∧ '\n' ∉ behind →
      behind.head? ≠ some '*' →
      NoPair '/' '*' ("define([".toList ++ (quotedChars define ++ behind)) ∧
        '\n' ∉ "define([".toList ++ (quotedChars define ++ behind) :=
    fun behind => lines_of_quotable hdefine _ behind (by simp [NoPair])
  by_cases hempty : require = []
  · subst hempty
    have htext : (source define []).toList
        = "define([".toList ++ (quotedChars define ++ "], function() \x7b\x7d);".toList) ++
          '\n' :: [] := by
      simp [source, quotedChars]
    obtain ⟨hopen, hline⟩ := hfirst "], function() \x7b\x7d);".toList (by simp [NoPair]) (by simp)
    rw [htext, stripComments,
      stripFrom_line hline (hopen.append (List.isChain_singleton _) (by simp))]
    · rfl
    · intro _
      simp [afterLine, isLineBlank]
  · have htext : (source define require).toList
        = "define([".toList ++ (quotedChars define ++ "], function() \x7b".toList) ++ '\n' ::
          ("    require([".toList ++ (quotedChars require ++ "], function() \x7b\x7d);".toList) ++
            '\n' :: ("\x7d);".toList ++ '\n' :: [])) := by
      simp [source, quotedChars, hempty]
    obtain ⟨hopen, hline⟩ := hfirst "], function() \x7b".toList (by simp [NoPair]) (by simp)
    obtain ⟨hopen', hline'⟩ := lines_of_quotable hrequire "    require([".toList
      "], function() \x7b\x7d);".toList (by simp [NoPair]) (by simp [NoPair]) (by simp)
    have hlast : NoPair '/' '*' ("\x7d);".toList ++ '\n' :: []) := by simp [NoPair]
    have hbreak : ∀ {s : List Char}, NoPair '/' '*' s → s.head? ≠ some '*' →
    NoPair '/' '*' ('\n' :: s) := fun hs h =>
      NoPair.append (List.isChain_singleton '\n') hs h
    have hsecond := hopen'.append (hbreak hlast (by simp)) (by simp)
    have hall := hopen.append (hbreak hsecond (by simp)) (by simp)
    rw [htext, stripComments, stripFrom_line hline hall true, stripFrom_line hline' hsecond true,
      stripFrom_line (by simp) hlast true]
    · rfl
    all_goals
      intro _
      simp [afterLine, isLineBlank]

end Source

/-! ### Calls of a written module -/

theorem bracket_append (w m r : List Char) :
    '[' :: (w ++ ']' :: m) ++ r = '[' :: (w ++ ']' :: (m ++ r)) := by
  rw [List.cons_append, List.append_assoc, List.cons_append]

theorem arguments_bracket (name s : List Char) :
    arguments name (name ++ '(' :: '[' :: s) = some ('[' :: s) :=
  arguments_eq_some_iff.2
    ⟨[], '[' :: s, by simp, rfl, (@skipSpace_eq_of [] (by simp) _ (by decide) s).symm⟩

theorem requireArray_of_arguments {s : List Char} (h : arguments "require".toList s = none) :
    requireArray s = none := by
  rw [requireArray, h]
  rfl

theorem requireOne_of_arguments {s : List Char} (h : arguments "require".toList s = none) :
    requireOne s = none := by
  rw [requireOne, h]
  rfl

theorem defineArray_bracket {w : List Char} (hw : ']' ∉ w) (rest : List Char) :
    defineArray ("define".toList ++ '(' :: '[' :: (w ++ ']' :: rest)) = some (w, rest) := by
  rw [defineArray, defineOpen, arguments_bracket]
  exact upTo_append hw rest

theorem requireArray_bracket {w : List Char} (hw : ']' ∉ w) (rest : List Char) :
    requireArray ("require".toList ++ '(' :: '[' :: (w ++ ']' :: rest)) = some (w, rest) := by
  rw [requireArray, arguments_bracket]
  exact upTo_append hw rest

theorem requireOne_bracket (s : List Char) :
    requireOne ("require".toList ++ '(' :: '[' :: s) = none := by
  rw [requireOne, arguments_bracket]
  rfl

/-- Where a definition stands first, its list is the first one. -/
theorem defined?_bracket {w : List Char} (hw : ']' ∉ w) (rest : List Char) :
    defined? ("define".toList ++ '(' :: '[' :: (w ++ ']' :: rest)) = some (literals w) := by
  rw [defined?, occurrences, occurrencesFrom_of_some (x := "define([".toList ++ (w ++ [']']))
    (defineArray_bracket hw rest) (by simp) (by simp)]

/-- Text that ends with the end of `function` holds no requirement. -/
theorem occurrencesFrom_function {start : Char → Bool}
    {shape : List Char → Option (List Char × List Char)}
    (hshape : ∀ s, arguments "require".toList s = none → shape s = none) {w : List Char}
    (hw : '(' ∉ w) (hlast : w.getLast? = some 'n') (here : Bool) (r : List Char) :
    occurrencesFrom start shape 0 here (w ++ '(' :: r) =
      occurrencesFrom start shape 0 (start '(') r :=
  occurrencesFrom_segment hshape (by decide) hw
    (fun _ hv =>
      ne_append_of_getLast? (c := 'n') (d := 'e') (by decide) (by decide)
        (by decide) hlast hv) here r

section Requirements

variable {define require : List String} (hdefine : ∀ s ∈ define, Quotable s)
  (hrequire : ∀ s ∈ require, Quotable s) {shape : List Char → Option (List Char × List Char)}
  (hshape : ∀ s, arguments "require".toList s = none → shape s = none)

include hshape

/-- The text of a list and what stands behind it, up to the bracket of `function`. -/
theorem occurrencesFrom_list {l : List String} (hl : ∀ s ∈ l, Quotable s) (here : Bool)
    (r : List Char) :
    occurrencesFrom (fun c => !Text.isWord c) shape 0 here
        ('[' :: (quotedChars l ++ ']' :: ", function".toList) ++ '(' :: r)
      = occurrencesFrom (fun c => !Text.isWord c) shape 0 true r := by
  have hcall : '(' ∉ quotedChars l := notMem_quotedChars (fun s hs => (hl s hs).call) (by decide)
  rw [occurrencesFrom_function hshape (by simp [hcall])
    (by simp [List.getLast?_cons, List.getLast?_append])]
  rfl

/-- The definition of a written module is no call of the other name. -/
theorem occurrencesFrom_define (here : Bool) (r : List Char) :
    occurrencesFrom (fun c => !Text.isWord c) shape 0 here ("define".toList ++ '(' :: r)
      = occurrencesFrom (fun c => !Text.isWord c) shape 0 true r :=
  occurrencesFrom_segment hshape (by decide) (by decide)
    (fun _ => ne_append_of_length_lt (by decide)) here r

include hdefine

/-- A written module that requires nothing has no calls of that name. -/
theorem occurrences_source_nil : occurrences shape (source define []).toList = [] := by
  rw [toList_source_nil, occurrences, occurrencesFrom_define hshape,
    occurrencesFrom_list hshape hdefine, occurrencesFrom_rest hshape (by simp)]

/-- The calls of that name in a written module with requirements start at the one call of that
name. -/
theorem occurrences_source (hne : require ≠ []) : occurrences shape (source define require).toList
    = occurrencesFrom (fun c => !Text.isWord c) shape 0 true ("require".toList ++ '(' ::
        ('[' :: (quotedChars require ++ ']' :: ", function".toList) ++
          '(' :: ") \x7b\x7d);\n\x7d);\n".toList)) := by
  rw [toList_source hne, occurrences, occurrencesFrom_define hshape,
    occurrencesFrom_list hshape hdefine, show ") \x7b\n    require".toList =
      ") \x7b\n    ".toList ++ "require".toList from rfl, List.append_assoc]
  refine (occurrencesFrom_of_none ") \x7b\n    ".toList true fun v hv hv' => hshape _ ?_).trans rfl
  rw [← List.append_assoc]
  refine arguments_eq_none (by decide) ?_ ?_
  · rw [List.mem_append, not_or]
    exact ⟨fun h => absurd (hv.subset h) (by decide), by decide⟩
  · -- what ends with the name and has more before it does not start with the name
    intro sp hsp h
    rcases List.eq_nil_or_concat' sp with rfl | ⟨u, c, rfl⟩
    · rw [List.append_nil] at h
      exact hv' (List.append_left_eq_self.1 h)
    · have hlast := congrArg List.getLast? h
      rw [← List.append_assoc, List.getLast?_concat, List.getLast?_append] at hlast
      obtain rfl : 'e' = c := Option.some.inj hlast
      exact absurd (hsp 'e' (by simp)) (by decide)

end Requirements

/-! ### Reading -/

section Reading

variable {define require : List String} (hdefine : ∀ s ∈ define, Quotable s)
  (hrequire : ∀ s ∈ require, Quotable s)

include hdefine

theorem defined?_source : defined? (source define require).toList = some define := by
  have hbracket : ']' ∉ quotedChars define :=
    notMem_quotedChars (fun s hs => (hdefine s hs).bracket) (by decide)
  have htext : ∃ rest, (source define require).toList
      = "define".toList ++ '(' :: '[' :: (quotedChars define ++ ']' :: rest) := by
    by_cases hempty : require = []
    · rw [hempty, toList_source_nil, bracket_append]
      exact ⟨_, rfl⟩
    · rw [toList_source hempty, bracket_append]
      exact ⟨_, rfl⟩
  obtain ⟨rest, hrest⟩ := htext
  rw [hrest, defined?_bracket hbracket, literals_quotedChars fun s hs => (hdefine s hs).quote]

include hrequire

theorem required_source : required (source define require).toList = require.eraseDups := by
  by_cases hempty : require = []
  · rw [hempty, required, occurrences_source_nil hdefine fun _ => requireArray_of_arguments]
    rfl
  · have hbracket : ']' ∉ quotedChars require :=
      notMem_quotedChars (fun s hs => (hrequire s hs).bracket) (by decide)
    have hfunction : ∀ (here : Bool) (r : List Char), '(' ∉ r →
        occurrencesFrom
          (fun c => !Text.isWord c) requireArray 0 here (", function".toList ++ '(' :: r) = [] := by
      intro here r hr
      rw [occurrencesFrom_function (fun _ => requireArray_of_arguments) (by decide) (by decide),
        occurrencesFrom_rest (fun _ => requireArray_of_arguments) hr]
    rw [required, occurrences_source hdefine (fun _ => requireArray_of_arguments) hempty,
      bracket_append,
      occurrencesFrom_of_some (x := "require([".toList ++ (quotedChars require ++ [']']))
        (requireArray_bracket hbracket _) (by simp) (by simp), hfunction _ _ (by decide),
        List.flatMap_singleton, literals_quotedChars fun s hs => (hrequire s hs).quote,
        foldl_addNew_nil]

theorem requiredOnes_source : requiredOnes (source define require).toList = [] := by
  by_cases hempty : require = []
  · rw [hempty, requiredOnes, occurrences_source_nil hdefine fun _ => requireOne_of_arguments]
    rfl
  · have hcall : '(' ∉ quotedChars require :=
      notMem_quotedChars (fun s hs => (hrequire s hs).call) (by decide)
    -- the one call has a list
    have hlist : ∀ r : List Char, occurrencesFrom (fun c => !Text.isWord c) requireOne 0 true
        ("require".toList ++ '(' :: '[' :: r)
          = occurrencesFrom (fun c => !Text.isWord c) requireOne 0 true ('[' :: r) := by
      intro r
      have hfirst : ∀ v, v <:+ ['r'] → v ≠ [] →
          requireOne (v ++ ("equire".toList ++ '(' :: '[' :: r)) = none := by
        intro v hv hv'
        rcases List.suffix_cons_iff.1 hv with rfl | hv
        · exact requireOne_bracket r
        · exact absurd (List.suffix_nil.1 hv) hv'
      refine (occurrencesFrom_of_none ['r'] true hfirst).trans ?_
      exact occurrencesFrom_segment (fun _ => requireOne_of_arguments) (by decide) (by decide)
        (fun _ => ne_append_of_length_lt (by decide)) _ _
    rw [requiredOnes, occurrences_source hdefine (fun _ => requireOne_of_arguments) hempty,
      bracket_append, hlist, ← bracket_append, occurrencesFrom_list
        (fun _ => requireOne_of_arguments) hrequire, occurrencesFrom_rest
          (fun _ => requireOne_of_arguments) (by decide)]
    rfl

/-- **Reading a written module gives back its lists**, of which that of the requirements has each
specifier once. -/
theorem read_source (path : String) : read path (source define require)
    = .ok { define := define, require := require.eraseDups, object := [] } := by
  apply read_of_declared?
  rw [declared?, stripComments_source hdefine hrequire, defined?_source hdefine,
    required_source hdefine hrequire, requiredOnes_source hdefine hrequire]
  rfl

end Reading

/-- Specifiers that look like comments, calls and brackets of their own. -/
theorem read_source_tricky :
    (∀ s ∈ ["lib/a", "", "// define", "it's", "lib/a"], Quotable s) ∧
      (∀ s ∈ ["require)", "*/", "[é", "*/"], Quotable s) ∧
      read "m.js"
        (source ["lib/a", "", "// define", "it's", "lib/a"] ["require)", "*/", "[é", "*/"])
        = .ok
          { define := ["lib/a", "", "// define", "it's", "lib/a"],
            require := ["require)", "*/", "[é"], object := [] } := by
  have hdefine : ∀ s ∈ ["lib/a", "", "// define", "it's", "lib/a"], Quotable s := by decide +kernel
  have hrequire : ∀ s ∈ ["require)", "*/", "[é", "*/"], Quotable s := by decide +kernel
  have honce : ["require)", "*/", "[é", "*/"].eraseDups = ["require)", "*/", "[é"] := by
    decide +kernel
  refine ⟨hdefine, hrequire, ?_⟩
  rw [← honce]
  exact read_source hdefine hrequire "m.js"

end ModuleAtlas.Amd
