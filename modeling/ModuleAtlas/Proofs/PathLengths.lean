import Mathlib.Algebra.Order.Ring.Nat
import ModuleAtlas.Proofs.LexicalPlaces
import ModuleAtlas.Proofs.PathFollowing
import ModuleAtlas.Proofs.WalkEntries

/-!
# Lengths of paths

The names in a directory are put behind the path of the directory, with a slash between them.  The
normal form of a path has no components but those of the path, each with one slash, so it is not the
longer one, and neither are the paths of what is below.  Hence what can be followed from a path can
be followed from its normal form, if that has a spelling at all.

## Main definitions

* `Path.lead` — what is put before the names in a directory.
* `Component.weight` — what a component takes in the spelling of a directory.

## Main results

* `Path.weight_settled_le`, `Path.size_lead_normal_le` — settling makes nothing longer.
* `Path.isLong_below_normal` — paths below the normal form of a path are not too long if those below
  the path are not.
* `Path.Followable.normal` — **the normal form of a path that can be followed can be followed,
  unless it is empty.**
-/

namespace ModuleAtlas

/-! ### Weights -/

/-- The number of bytes that a component takes in the spelling of a directory. -/
def Component.weight : Component → Nat
  | .root => 1
  | c => c.text.utf8ByteSize + 1

/-- The number of bytes that components take. -/
def weights (l : List Component) : Nat := (l.map Component.weight).sum

theorem weights_cons (c : Component) (l : List Component) :
    weights (c :: l) = c.weight + weights l := by
  rw [weights, List.map_cons, List.sum_cons, weights]

theorem weights_settle_le (place : List Component) (c : Component) :
    weights (settle place c) ≤ weights place + c.weight := by
  unfold settle
  split
  · exact Nat.le_add_right _ _
  · rw [weights_cons]
    omega
  · exact Nat.le_add_right _ _
  all_goals
    rw [weights_cons]
    omega

theorem weights_foldl_settle_le (l : List Component) : ∀ place : List Component,
    weights (l.foldl settle place) ≤ weights place + weights l := by
  induction l with
  | nil => intro place; exact Nat.le_refl _
  | cons c l ih =>
    intro place
    have hstep := weights_settle_le place c
    have hrest := ih (settle place c)
    rw [List.foldl_cons, weights_cons]
    omega

theorem weights_reverse (l : List Component) : weights l.reverse = weights l := by
  rw [weights, List.map_reverse, List.sum_reverse, weights]

namespace Path

/-! ### What is put before names -/

/-- What is put before the names in a directory. -/
def lead (p : Path) : String :=
  if p.text = "" || p.text.toList.getLast? = some '/' then p.text else p.text ++ "/"

theorem join_eq {q : Path} (hq : q.isAbsolute = false) (p : Path) :
    p.join q = ⟨p.lead ++ q.text⟩ := by
  rw [join, lead, if_neg (by simp [hq])]
  split <;> rfl

theorem lead_of_getLast?_ne {p : Path} (hp : p.text ≠ "")
    (hlast : p.text.toList.getLast? ≠ some '/') :
    p.lead = p.text ++ "/" := by simp [lead, hp, hlast]

theorem lead_of_open {p : Path} (h : p.text = "" ∨ p.text.toList.getLast? = some '/') :
    p.lead = p.text := by
  rw [lead, if_pos (by simpa using h)]

/-- What is put before names is put before them as it is. -/
theorem lead_open (p : Path) : p.lead = "" ∨ p.lead.toList.getLast? = some '/' := by
  rw [lead]
  split
  · next h => simpa using h
  · exact .inr (by
      rw [String.toList_append, show ("/" : String).toList = ['/'] from rfl, List.getLast?_concat])

theorem lead_join {q : Path} (hq : q.isAbsolute = false) (p : Path) :
    (p.join q).lead = p.lead ++ q.lead := by
  rw [join_eq hq]
  by_cases hempty : q.text = ""
  · rw [hempty, String.append_empty, lead_of_open (p := ⟨p.lead⟩) p.lead_open,
      lead_of_open (.inl hempty), hempty, String.append_empty]
  · have hlast : (p.lead ++ q.text).toList.getLast? = q.text.toList.getLast? := by
      rw [String.toList_append, List.getLast?_append]
      cases h : q.text.toList.getLast? with
      | none => exact absurd (String.toList_inj.1 (List.getLast?_eq_none_iff.1 h)) hempty
      | some c => rfl
    by_cases hslash : q.text.toList.getLast? = some '/'
    · rw [lead_of_open (.inr (hlast.trans hslash)), lead_of_open (.inr hslash)]
    · rw [lead_of_getLast?_ne (by simp [hempty]) (by rwa [hlast]),
        lead_of_getLast?_ne hempty hslash, String.append_assoc]

/-- The bytes of the pieces of a path, each with one for a slash. -/
theorem sum_pieces (p : Path) :
    (p.pieces.map fun s => s.utf8ByteSize + 1).sum = p.text.utf8ByteSize + 1 := by
  have hslash : ("/" : String).utf8ByteSize = 1 := by decide
  have hsum : ∀ l : List String, l ≠ [] →
      (l.map fun s => s.utf8ByteSize + 1).sum = ("/".intercalate l).utf8ByteSize + 1 := by
    intro l
    induction l with
    | nil => intro h; exact absurd rfl h
    | cons s l ih =>
      intro _
      cases l with
      | nil => rw [String.intercalate_singleton, List.map_singleton, List.sum_singleton]
      | cons t l =>
        rw [List.map_cons, List.sum_cons, ih (List.cons_ne_nil t l), String.intercalate_cons_cons,
          String.utf8ByteSize_append, String.utf8ByteSize_append, hslash]
        omega
  rw [hsum p.pieces (Text.splitAt_ne_nil '/' p.text), pieces]
  congr 2
  exact Text.intercalate_splitAt '/' p.text

/-- A piece takes what the component does that it denotes. -/
theorem weight_of_pieceComponent? {s : String} {c : Component} (h : pieceComponent? s = some c) :
    c.weight = s.utf8ByteSize + 1 := by
  rw [pieceComponent?] at h
  split at h
  · cases h
  · split at h
    · next hs =>
      obtain rfl := Option.some.inj h
      rw [hs]
      rfl
    · obtain rfl := Option.some.inj h
      rfl

/-- Pieces take what the components do that they denote, and one at the end that is empty takes its
slash. -/
theorem weights_filterMap_le (l : List String) : weights (l.filterMap pieceComponent?)
    + (if l.getLast? = some "" then 1 else 0) ≤ (l.map fun s => s.utf8ByteSize + 1).sum := by
  have hle : ∀ k : List String,
      weights (k.filterMap pieceComponent?) ≤ (k.map fun s => s.utf8ByteSize + 1).sum := by
    intro k
    induction k with
    | nil => exact Nat.le_refl _
    | cons s k ih =>
      rw [List.filterMap_cons, List.map_cons, List.sum_cons]
      cases hs : pieceComponent? s with
      | none =>
        dsimp only
        omega
      | some c =>
        dsimp only
        rw [weights_cons, weight_of_pieceComponent? hs]
        omega
  by_cases hlast : l.getLast? = some ""
  · obtain ⟨k, rfl⟩ := List.getLast?_eq_some_iff.1 hlast
    have hk := hle k
    have hempty : [""].filterMap pieceComponent? = [] := by decide
    rw [if_pos hlast, List.filterMap_append, hempty, List.append_nil, List.map_append,
      List.sum_append]
    simp only [List.map_cons, List.map_nil, List.sum_cons, List.sum_nil]
    omega
  · rw [if_neg hlast]
    exact hle l

/-- What is spelt as a directory ends with an empty piece. -/
theorem getLast?_pieces {p : Path} (h : p.text = "" ∨ p.text.toList.getLast? = some '/') :
    p.pieces.getLast? = some "" := by
  rcases h with h | h
  · rw [pieces, h]
    decide
  · obtain ⟨l, hl⟩ := List.getLast?_eq_some_iff.1 h
    have htext : p.text = String.ofList l ++ String.singleton '/' ++ "" := by
      apply String.toList_inj.1
      rw [hl, String.append_empty, String.toList_append, String.toList_ofList]
      rfl
    rw [pieces, htext, Text.splitAt_append, show Text.splitAt '/' "" = [""] from by
      decide, List.getLast?_concat]

/-- The components of a path take no more than its spelling as a directory. -/
theorem weights_origin_steps_le (p : Path) :
    weights p.origin + weights p.steps ≤ p.lead.utf8ByteSize := by
  have hsum := p.sum_pieces
  have hlead : p.lead.utf8ByteSize
      = if p.text = "" || p.text.toList.getLast? = some '/' then p.text.utf8ByteSize
        else p.text.utf8ByteSize + 1 := by
    rw [lead]
    split
    · rfl
    · rw [String.utf8ByteSize_append]
      rfl
  have hopen : p.text.utf8ByteSize + 1 ≤
      p.lead.utf8ByteSize + (if p.pieces.getLast? = some "" then 1 else 0) := by
    rw [hlead]
    split
    · next h => rw [if_pos (getLast?_pieces (by simpa using h))]
    · exact Nat.le_add_right _ _
  cases habsolute : p.isAbsolute with
  | false =>
    have hle := weights_filterMap_le p.pieces
    have horigin : weights p.origin = 0 := by
      rw [origin, habsolute]
      rfl
    rw [horigin, steps]
    omega
  | true =>
    -- the first piece is empty, and its slash is the one of the root
    obtain ⟨rest, hrest, hpieces⟩ := pieces_of_isAbsolute habsolute
    have hle := weights_filterMap_le rest
    have hlast : p.pieces.getLast? = rest.getLast? := by
      rw [hpieces, List.getLast?_cons_of_ne_nil hrest]
    have hsteps : p.steps = rest.filterMap pieceComponent? := by
      rw [steps, hpieces, List.filterMap_cons]
      rfl
    have horigin : weights p.origin = 1 := by
      rw [origin, habsolute]
      rfl
    rw [hpieces, List.map_cons, List.sum_cons, show ("" : String).utf8ByteSize = 0 from rfl] at hsum
    rw [hlast] at hopen
    rw [horigin, hsteps]
    omega

/-! ### The spelling of normal forms -/

/-- A path that is spelt by components takes as much as they do. -/
theorem size_lead_foldl_join {l : List Component} (hl : ∀ c ∈ l, c.Step) : ∀ p : Path,
    (l.foldl (fun p c => p.join ⟨c.text⟩) p).lead.utf8ByteSize =
      p.lead.utf8ByteSize + weights l := by
  induction l with
  | nil => intro p; rfl
  | cons c l ih =>
    intro p
    have hc : c.Step := hl c List.mem_cons_self
    have hweight : c.weight = c.text.utf8ByteSize + 1 := weight_of_pieceComponent? hc.1
    have hjoin : (p.join ⟨c.text⟩).lead = p.lead ++ c.text ++ "/" := by
      rw [join_eq (isAbsolute_eq_false hc.2)]
      exact lead_of_getLast?_ne (by simp [hc.ne_empty]) (getLast?_append_ne hc.ne_empty hc.2 _)
    rw [List.foldl_cons, ih fun d hd => hl d (List.mem_cons_of_mem _ hd), hjoin,
      String.utf8ByteSize_append, String.utf8ByteSize_append, weights_cons, hweight,
      show ("/" : String).utf8ByteSize = 1 from by decide]
    omega

theorem size_lead_ofComponents {l : List Component} (hl : Place.Spelt l) :
    (ofComponents l).lead.utf8ByteSize = weights l := by
  obtain ⟨steps, hsteps, rfl | rfl⟩ := hl
  · rw [ofComponents, size_lead_foldl_join hsteps]
    exact Nat.zero_add _
  · have hroot : ((Path.mk "").join ⟨Component.root.text⟩).lead.utf8ByteSize = 1 := by
      with_unfolding_all decide
    rw [ofComponents, List.foldl_cons, size_lead_foldl_join hsteps, weights_cons, hroot]
    rfl

/-- **The normal form of a path is not the longer one**, if both are spelt as directories. -/
theorem size_lead_normal_le (p : Path) : p.normal.lead.utf8ByteSize ≤ p.lead.utf8ByteSize := by
  rw [normal, size_lead_ofComponents (settled_components p).2, normalComponents, weights_reverse,
    foldl_settle_components]
  exact (weights_foldl_settle_le p.steps p.origin).trans p.weights_origin_steps_le

/-- A normal form that has a spelling ends with a name, unless it is that of the root. -/
theorem normal_open_or (p : Path) : p.normal.text = "" ∨ p.normal.text = "/" ∨
    p.normal.lead = p.normal.text ++ "/" := by
  obtain ⟨-, steps, hsteps, hspelt⟩ := settled_components p
  have hlast : ∀ {q : Path} {k : List Component} {c : Component}, c.Step →
      ((k ++ [c]).foldl (fun p c => p.join ⟨c.text⟩) q).lead
        = ((k ++ [c]).foldl (fun p c => p.join ⟨c.text⟩) q).text ++ "/" := by
    intro q k c hc
    rw [List.foldl_concat, join_eq (isAbsolute_eq_false hc.2)]
    exact lead_of_getLast?_ne (by simp [hc.ne_empty]) (getLast?_append_ne hc.ne_empty hc.2 _)
  rw [normal]
  rcases List.eq_nil_or_concat' steps with rfl | ⟨k, c, rfl⟩
  · rcases hspelt with h | h
    · exact .inl (by rw [h]; rfl)
    · exact .inr (.inl (by rw [h]; with_unfolding_all decide))
  · have hc : c.Step := hsteps c (by simp)
    rcases hspelt with h | h <;> rw [h, ofComponents]
    · exact .inr (.inr (hlast hc))
    · exact .inr (.inr (hlast hc))

theorem size_text_normal_le (p : Path) : p.normal.text.utf8ByteSize ≤ p.text.utf8ByteSize := by
  have hlead := p.size_lead_normal_le
  have hopen : p.lead.utf8ByteSize ≤ p.text.utf8ByteSize + 1 := by
    rw [lead]
    split
    · exact Nat.le_succ _
    · rw [String.utf8ByteSize_append]
      exact Nat.le_refl _
  rcases p.normal_open_or with h | h | h
  · rw [h]
    exact Nat.zero_le _
  · have habsolute : p.isAbsolute = true := by
      rw [← isAbsolute_normal, isAbsolute, h]
      with_unfolding_all decide
    obtain ⟨l, hl⟩ := isAbsolute_iff.1 habsolute
    have htext : p.text = "/" ++ String.ofList l := by
      apply String.toList_inj.1
      rw [hl, String.toList_append, String.toList_ofList]
      simp
    rw [h, htext, String.utf8ByteSize_append]
    exact Nat.le_add_right _ _
  · rw [h, String.utf8ByteSize_append, show ("/" : String).utf8ByteSize = 1 from by decide] at hlead
    omega

/-! ### What can be followed -/

/-- No path below the first one is longer than the one below the second. -/
structure NoLonger (p q : Path) : Prop where
  /-- The path itself is not. -/
  text : p.text.utf8ByteSize ≤ q.text.utf8ByteSize
  /-- It is not if names are put behind it. -/
  lead : p.lead.utf8ByteSize ≤ q.lead.utf8ByteSize

theorem NoLonger.isLong {p q : Path} (h : p.NoLonger q) (hq : q.isLong = false) :
    p.isLong = false := by
  have htext := h.text
  rw [Path.isLong, decide_eq_false_iff_not] at hq ⊢
  omega

theorem NoLonger.join {p q : Path} (h : p.NoLonger q) (s : Path) :
    (p.join s).NoLonger (q.join s) := by
  cases hs : s.isAbsolute with
  | true =>
    rw [join_of_isAbsolute hs, join_of_isAbsolute hs]
    exact ⟨Nat.le_refl _, Nat.le_refl _⟩
  | false =>
    have hle := h.lead
    refine ⟨?_, ?_⟩
    · rw [join_eq hs, join_eq hs, String.utf8ByteSize_append, String.utf8ByteSize_append]
      exact Nat.add_le_add_right hle _
    · rw [lead_join hs, lead_join hs, String.utf8ByteSize_append, String.utf8ByteSize_append]
      exact Nat.add_le_add_right hle _

theorem NoLonger.below {names : List String} : ∀ {p q : Path}, p.NoLonger q →
    (p.below names).NoLonger (q.below names) := by
  induction names with
  | nil => intro p q h; exact h
  | cons s names ih => intro p q h; exact ih (h.join ⟨s⟩)

theorem noLonger_normal (p : Path) : p.normal.NoLonger p :=
  ⟨p.size_text_normal_le, p.size_lead_normal_le⟩

/-- Paths below the normal form of a path are not too long if those below the path are not. -/
theorem isLong_below_normal {p : Path} {names : List String} (h : (p.below names).isLong = false) :
    (p.normal.below names).isLong = false := p.noLonger_normal.below.isLong h

/-- The characters of a path that is spelt by components: those of the components, and slashes. -/
theorem mem_text_foldl_join {x : Char} {l : List Component} : ∀ {p : Path},
    x ∈ (l.foldl (fun p c => p.join ⟨c.text⟩) p).text.toList →
      x ∈ p.text.toList ∨ x = '/' ∨ ∃ c ∈ l, x ∈ c.text.toList := by
  induction l with
  | nil => intro p h; exact .inl h
  | cons c l ih =>
    intro p h
    have hjoin : x ∈ (p.join ⟨c.text⟩).text.toList → x ∈ p.text.toList ∨ x = '/' ∨
        x ∈ c.text.toList := by
      intro h
      rw [join] at h
      split at h
      · exact .inr (.inr h)
      split at h
      · rw [String.toList_append, List.mem_append] at h
        exact h.imp_right .inr
      · rw [String.toList_append, String.toList_append, List.mem_append, List.mem_append] at h
        rcases h with (h | h) | h
        · exact .inl h
        · exact .inr (.inl (List.mem_singleton.1 h))
        · exact .inr (.inr h)
    rcases ih h with h | h | ⟨d, hd, h⟩
    · rcases hjoin h with h | h | h
      · exact .inl h
      · exact .inr (.inl h)
      · exact .inr (.inr ⟨c, List.mem_cons_self, h⟩)
    · exact .inr (.inl h)
    · exact .inr (.inr ⟨d, List.mem_cons_of_mem c hd, h⟩)

/-- The characters of a piece are those of the path. -/
theorem mem_text_of_mem_pieces {x : Char} {p : Path} {s : String} (hs : s ∈ p.pieces)
    (hx : x ∈ s.toList) : x ∈ p.text.toList := by
  have hmem : ∀ l : List String, s ∈ l → x ∈ ("/".intercalate l).toList := by
    intro l
    induction l with
    | nil => intro h; cases h
    | cons t l ih =>
      intro h
      cases l with
      | nil => rwa [String.intercalate_singleton, ← List.mem_singleton.1 h]
      | cons u l =>
        rw [String.intercalate_cons_cons, String.toList_append, String.toList_append,
          List.mem_append, List.mem_append]
        rcases List.mem_cons.1 h with rfl | h
        · exact .inl (.inl hx)
        · exact .inr (ih h)
  have htext : "/".intercalate p.pieces = p.text := Text.intercalate_splitAt '/' p.text
  rw [← htext]
  exact hmem p.pieces hs

/-- **The normal form of a path that can be followed can be followed, unless it is empty.** -/
theorem Followable.normal {p : Path} (h : p.Followable) (hne : p.normal.text ≠ "") :
    p.normal.Followable where
  ne_empty := hne
  no_nul := by
    have hnul := h.no_nul
    rw [List.contains_eq_mem, decide_eq_false_iff_not] at hnul ⊢
    intro hmem
    rcases mem_text_foldl_join hmem with hmem | hmem | ⟨c, hc, hmem⟩
    · cases hmem
    · exact absurd hmem (by decide)
    · rw [normalComponents, List.mem_reverse, foldl_settle_components] at hc
      rcases mem_foldl_settle hc with hc | hc
      · rw [origin] at hc
        split at hc
        · rw [List.mem_singleton.1 hc] at hmem
          exact absurd hmem (by decide)
        · cases hc
      · obtain ⟨s, hs, hstep⟩ := List.mem_filterMap.1 hc
        rw [Component.text_of_pieceComponent? hstep] at hmem
        exact hnul (mem_text_of_mem_pieces hs hmem)
  short := p.noLonger_normal.isLong h.short

end Path

end ModuleAtlas
