import Mathlib.Data.List.Chain
import Mathlib.Data.List.TakeWhile
import ModuleAtlas.Amd.CallShape
import ModuleAtlas.Deps

/-!
# Laws of call shapes

A shape is tried at one place after the other.  Where it is found, the search goes on behind what
was found; where it is not, the search moves on.  A call of a name is found only before an opening
bracket, with nothing but white space between the two, so text without a bracket holds none, and
text before a bracket holds one only at its end.

## Main definitions

* `after` — whether a shape is tried behind some text.

## Main results

* `occurrencesFrom_of_some`, `occurrencesFrom_of_none` — the search behind what was found, and past
  what holds nothing.
* `arguments_eq_some_iff` — where a call of a name starts.
* `occurrencesFrom_segment`, `occurrencesFrom_rest` — text before a bracket, and text without one.
* `foldl_addNew_nil` — collecting what is new drops later repetitions.
-/

namespace ModuleAtlas.Amd

/-! ### Searching -/

section Search

variable {start : Char → Bool} {shape : List Char → Option (List Char × List Char)}

/-- Whether a shape is tried behind some text, given whether it is tried at its start. -/
def after (start : Char → Bool) (here : Bool) (w : List Char) : Bool :=
  w.foldl (fun _ c => start c) here

/-- Characters that belong to what was found are passed over. -/
theorem occurrencesFrom_skip (w rest : List Char) : ∀ here : Bool,
    occurrencesFrom start shape w.length here (w ++ rest) =
      occurrencesFrom start shape 0 (after start here w) rest := by
  induction w with
  | nil => intro here; rfl
  | cons c w ih =>
    intro here
    rw [List.length_cons, List.cons_append, occurrencesFrom, ih]
    rfl

/-- Where a shape is found, the search goes on behind it. -/
theorem occurrencesFrom_of_some {s x rest found : List Char} (h : shape s = some (found, rest))
    (hs : s = x ++ rest) (hx : x ≠ []) : occurrencesFrom start shape 0 true s
      = found :: occurrencesFrom start shape 0 (after start true x) rest := by
  subst hs
  cases x with
  | nil => exact absurd rfl hx
  | cons c w =>
    have hlength : (w ++ rest).length - rest.length = w.length := by
      rw [List.length_append, Nat.add_sub_cancel]
    rw [List.cons_append] at h ⊢
    rw [occurrencesFrom, if_pos rfl, h]
    dsimp only
    rw [hlength, occurrencesFrom_skip]
    rfl

/-- Text in which a shape is found nowhere is passed over. -/
theorem occurrencesFrom_of_none {rest : List Char} (w : List Char) : ∀ here : Bool,
    (∀ v, v <:+ w → v ≠ [] → shape (v ++ rest) = none) →
      occurrencesFrom start shape 0 here (w ++ rest) =
        occurrencesFrom start shape 0 (after start here w) rest := by
  induction w with
  | nil => intro here _; rfl
  | cons c w ih =>
    intro here h
    have hnone : (if here then shape (c :: (w ++ rest)) else none) = none := by
      rw [show shape (c :: (w ++ rest)) =
        none from h (c :: w) List.suffix_rfl (List.cons_ne_nil c w), ite_self]
    rw [List.cons_append, occurrencesFrom, hnone]
    exact ih _ fun v hv => h v (hv.trans (List.suffix_cons c w))

end Search

/-- The text up to a character. -/
theorem upTo_append {stop : Char} {w : List Char} (hw : stop ∉ w) (s : List Char) :
    upTo stop (w ++ stop :: s) = some (w, s) := by
  induction w with
  | nil => exact upTo_cons_self stop s
  | cons c w ih =>
    rw [List.mem_cons, not_or] at hw
    rw [List.cons_append, upTo_cons_of_ne (Ne.symm hw.1), ih hw.2]
    rfl

/-! ### Calls -/

theorem skipSpace_eq_of {sp : List Char} (hsp : ∀ c ∈ sp, Text.isSpace c = true) {c : Char}
    (hc : Text.isSpace c = false) (s : List Char) : skipSpace (sp ++ c :: s) = c :: s := by
  rw [skipSpace, List.dropWhile_append_of_pos hsp, List.dropWhile_cons_of_neg (by simp [hc])]

/-- **A call of a name starts with the name, white space and an opening bracket.** -/
theorem arguments_eq_some_iff {name s rest : List Char} : arguments name s = some rest ↔
    ∃ sp t, (∀ c ∈ sp, Text.isSpace c = true) ∧ s = name ++ (sp ++ '(' :: t) ∧
      rest = skipSpace t := by
  rw [arguments]
  constructor
  · intro h
    split at h
    · cases h
    · next left hleft =>
      obtain rfl := List.isPrefixOf?_eq_some_iff_append_eq.1 hleft
      split at h
      · next t ht =>
        refine ⟨left.takeWhile Text.isSpace, t, fun c hc => List.mem_takeWhile_imp hc, ?_,
          (Option.some.inj h).symm⟩
        rw [← show skipSpace left = '(' :: t from ht, skipSpace, List.takeWhile_append_dropWhile]
      · cases h
  · rintro ⟨sp, t, hsp, rfl, rfl⟩
    rw [List.isPrefixOf?_eq_some_iff_append_eq.2 rfl]
    dsimp only
    rw [skipSpace_eq_of hsp (by decide)]
    rfl

/-- Before the first bracket, a call starts only where its name and white space fill the text up to
the bracket. -/
theorem arguments_eq_none {name v r : List Char} (hname : '(' ∉ name) (hv : '(' ∉ v)
    (h : ∀ sp, (∀ c ∈ sp, Text.isSpace c = true) → v ≠ name ++ sp) :
    arguments name (v ++ '(' :: r) = none := by
  rw [Option.eq_none_iff_forall_ne_some]
  intro rest hrest
  obtain ⟨sp, t, hsp, hs, -⟩ := arguments_eq_some_iff.1 hrest
  have hblank : '(' ∉ name ++ sp := by
    rw [List.mem_append, not_or]
    exact ⟨hname, fun hmem => absurd (hsp _ hmem) (by decide)⟩
  -- both sides are cut at their first bracket
  have hcut := congrArg (upTo '(') hs
  rw [← List.append_assoc, upTo_append hv, upTo_append hblank] at hcut
  exact h sp hsp (Prod.mk.inj (Option.some.inj hcut)).1

theorem arguments_eq_none_of_notMem {name s : List Char} (hs : '(' ∉ s) :
    arguments name s = none := by
  rw [Option.eq_none_iff_forall_ne_some]
  intro rest hrest
  obtain ⟨sp, t, -, rfl, -⟩ := arguments_eq_some_iff.1 hrest
  exact hs (by simp)

section Calls

variable {start : Char → Bool} {shape : List Char → Option (List Char × List Char)}
  {name : List Char} (hshape : ∀ s, arguments name s = none → shape s = none)

include hshape

/-- Text before a bracket holds no call, unless it ends with the name and white space. -/
theorem occurrencesFrom_segment (hname : '(' ∉ name) {w : List Char} (hw : '(' ∉ w)
    (h : ∀ v, v <:+ w → ∀ sp, (∀ c ∈ sp, Text.isSpace c = true) → v ≠ name ++ sp) (here : Bool)
    (r : List Char) :
    occurrencesFrom start shape 0 here (w ++ '(' :: r) =
      occurrencesFrom start shape 0 (start '(') r := by
  have hnone : ∀ v, v <:+ w ++ ['('] → v ≠ [] → shape (v ++ r) = none := by
    intro v hv hv'
    obtain ⟨u, rfl⟩ : ∃ u, v = u ++ ['('] := by
      obtain ⟨x, hx⟩ := hv
      rcases List.eq_nil_or_concat' v with rfl | ⟨u, c, rfl⟩
      · exact absurd rfl hv'
      · rw [← List.append_assoc] at hx
        exact ⟨u, by rw [(List.append_inj' hx rfl).2]⟩
    have hu : u <:+ w := by
      obtain ⟨x, hx⟩ := hv
      rw [← List.append_assoc] at hx
      exact ⟨x, (List.append_inj' hx rfl).1⟩
    rw [List.append_assoc]
    exact hshape _ (arguments_eq_none hname (fun hmem => hw (hu.subset hmem)) (h u hu))
  rw [List.append_cons, occurrencesFrom_of_none (w ++ ['(']) here hnone, after, List.foldl_concat]

/-- Text without a bracket holds no call. -/
theorem occurrencesFrom_rest {s : List Char} (hs : '(' ∉ s) (here : Bool) :
    occurrencesFrom start shape 0 here s = [] := by
  have hnone : ∀ v, v <:+ s → v ≠ [] → shape (v ++ []) = none := by
    intro v hv _
    rw [List.append_nil]
    exact hshape v (arguments_eq_none_of_notMem fun hmem => hs (hv.subset hmem))
  rw [← List.append_nil s, occurrencesFrom_of_none s here hnone, occurrencesFrom]

end Calls

/-! ### Text between brackets -/

/-- Text that is shorter than a name does not end with the name and white space. -/
theorem ne_append_of_length_lt {name v w : List Char} (h : w.length < name.length) (hv : v <:+ w)
    (sp : List Char) (_ : ∀ c ∈ sp, Text.isSpace c = true) : v ≠ name ++ sp := by
  rintro rfl
  have hlength := hv.length_le
  rw [List.length_append] at hlength
  omega

/-- Text that ends with a word of its own does not end with another one and white space. -/
theorem ne_append_of_getLast? {name v w : List Char} {c d : Char} (hname : name.getLast? = some d)
    (hc : c ≠ d) (hspace : Text.isSpace c = false) (hw : w.getLast? = some c) (hv : v <:+ w)
    (sp : List Char) (hsp : ∀ c ∈ sp, Text.isSpace c = true) : v ≠ name ++ sp := by
  rintro rfl
  obtain ⟨u, rfl⟩ := hv
  rw [List.getLast?_append, List.getLast?_append, hname] at hw
  cases hlast : sp.getLast? with
  | none =>
    rw [hlast] at hw
    exact hc (Option.some.inj hw).symm
  | some e =>
    rw [hlast] at hw
    obtain rfl : e = c := Option.some.inj hw
    rw [hsp e (List.mem_of_getLast? hlast)] at hspace
    cases hspace

/-! ### Collecting what is new -/

/-- Collecting what is new drops later repetitions. -/
theorem foldl_addNew_nil {α : Type} [BEq α] [LawfulBEq α] (l : List α) :
    l.foldl addNew [] = l.eraseDups := by
  induction l using List.reverseRecOn with
  | nil => rfl
  | append_singleton l a ih =>
    rw [List.foldl_concat, ih, addNew, List.eraseDups_append, List.removeAll, List.contains_eq_mem]
    by_cases ha : a ∈ l <;> simp [ha, List.eraseDups_cons]

end ModuleAtlas.Amd
