import ModuleAtlas.Proofs.AliasRenaming

/-!
# Relative specifiers

A relative specifier is resolved by its segments alone, one step after the other from the directory
of its referrer.  So pieces that lead nowhere else may stand anywhere behind its first piece, and
how the referrer is spelt plays no part.  What is reached is an id in normal form that never steps
up.

Steps up at the top stay there.  Under further directories such a step leads into these instead, so
the id that is reached moves with its referrer exactly if no step goes above the top.

## Main definitions

* `Detour` — pieces that lead nowhere else.
* `Lexical` — what the id that a specifier names depends on, and what it looks like.

## Main results

* `isRelative_iff` — a specifier is relative by its first piece, if there is a second one.
* `Detour.foldl_step` — a detour leads nowhere else.
* `foldl_step_append_iff` — steps under further directories lead to the same place below them
  exactly if none goes above the top.
* `lexical_of_isRelative` — **relative specifiers are resolved lexically.**
-/

namespace ModuleAtlas

/-- Pieces of a specifier that lead nowhere else: nothing, a `.`, or a name and a step up. -/
inductive Detour : List String → Prop
  /-- Nothing between two slashes. -/
  | empty : Detour [""]
  /-- The same place. -/
  | here : Detour ["."]
  /-- A name and the way back. -/
  | back {name : String} (hname : ProperSegment name) (hparent : name ≠ "..") : Detour [name, ".."]

/-- A specifier of a module leads to an id in normal form, without steps up, by the segments of
both; and it leads to the same place below further directories exactly if it does not step above the
top. -/
structure Lexical (referrer specifier : String) : Prop where
  /-- Nothing is between two slashes of the id, and neither `.` nor `..`, unless all of it is
  empty. -/
  canonical : resolveSpecifier referrer specifier = "" ∨
    ∀ s ∈ Text.splitAt '/' (resolveSpecifier referrer specifier), s ≠ "" ∧ s ≠ "." ∧ s ≠ ".."
  /-- The spelling of the referrer plays no part. -/
  respelt : ∀ other, segments other = segments referrer →
    resolveSpecifier other specifier = resolveSpecifier referrer specifier
  /-- A detour behind the first piece of the specifier plays no part. -/
  detour : ∀ front between back, Text.splitAt '/' specifier = front ++ back → front ≠ [] →
    Detour between → resolveSpecifier referrer (joinSegments (front ++ between ++ back)) =
      resolveSpecifier referrer specifier
  /-- With directories above the referrer, these stand before the id, exactly if no step goes above
  its first segment. -/
  moved : ∀ above, above ≠ [] → (∀ s ∈ above, ProperSegment s) →
    (resolveSpecifier (joinSegments above ++ "/" ++ referrer) specifier = joinSegments above ++
        (if resolveSpecifier referrer specifier =
          "" then "" else "/" ++ resolveSpecifier referrer specifier) ↔
      staysWithin (segments referrer).dropLast (segments specifier) = true)

/-! ### Pieces -/

theorem splitAt_joinSegments {pieces : List String} (hne : pieces ≠ [])
    (h : ∀ s ∈ pieces, '/' ∉ s.toList) :
    Text.splitAt '/' (joinSegments pieces) = pieces := Text.splitAt_intercalate hne h

/-- A specifier is relative by its first piece, if there is a second one. -/
theorem isRelative_iff {specifier : String} : isRelative specifier = true ↔
    ∃ first rest, Text.splitAt '/' specifier = first :: rest ∧ rest ≠ [] ∧
      (first = "." ∨ first = "..") := by
  have hstart : ∀ first : String, '/' ∉ first.toList → ((first ++ "/").isPrefixOf specifier = true ↔
      ∃ rest, Text.splitAt '/' specifier = first :: rest ∧ rest ≠ []) := by
    intro first hfirst
    rw [String.isPrefixOf, String.startsWith_string_iff]
    constructor
    · rintro ⟨l, hl⟩
      have htext : first ++ String.singleton '/' ++ String.ofList l = specifier :=
        String.toList_inj.1 (by simpa using hl)
      have hpiece : Text.splitAt '/' (joinSegments [first]) = [first] :=
        splitAt_joinSegments (by simp) (by simpa using hfirst)
      rw [joinSegments, String.intercalate_singleton] at hpiece
      rw [← htext, Text.splitAt_append, hpiece]
      exact ⟨_, rfl, Text.splitAt_ne_nil '/' _⟩
    · rintro ⟨rest, hrest, hne⟩
      have htext := Text.intercalate_splitAt '/' specifier
      rw [hrest] at htext
      obtain ⟨second, rest, rfl⟩ := List.exists_cons_of_ne_nil hne
      rw [← htext]
      simp
  rw [isRelative, Bool.or_eq_true, show "./" = "." ++ "/" from rfl,
    show "../" = ".." ++ "/" from rfl, hstart "." (by decide), hstart ".." (by decide)]
  constructor
  · rintro (⟨rest, hrest, hne⟩ | ⟨rest, hrest, hne⟩)
    · exact ⟨".", rest, hrest, hne, .inl rfl⟩
    · exact ⟨"..", rest, hrest, hne, .inr rfl⟩
  · rintro ⟨first, rest, hrest, hne, rfl | rfl⟩
    · exact .inl ⟨rest, hrest, hne⟩
    · exact .inr ⟨rest, hrest, hne⟩

theorem Detour.notMem {between : List String} (h : Detour between) :
    ∀ s ∈ between, '/' ∉ s.toList := by
  cases h with
  | empty => simp
  | here => simp
  | back hname _ => simpa using hname.2

/-- A detour leads nowhere else. -/
theorem Detour.foldl_step {between : List String} (h : Detour between) (place : List String) :
    (between.filter isSegment).foldl step place = place := by
  cases h with
  | empty => rfl
  | here => rfl
  | @back name hname hparent =>
    have hkept : [name, ".."].filter isSegment = [name, ".."] := by
      rw [List.filter_cons_of_pos hname.1]
      rfl
    rw [hkept, List.foldl_cons, List.foldl_cons, List.foldl_nil, step_name hparent, step_parent,
      List.dropLast_concat]

/-! ### Steps and the top -/

/-- Steps never lead to a place with a step up in it. -/
theorem parent_notMem_foldl_step (specifier : List String) : ∀ {place : List String}, ".." ∉ place →
    ".." ∉ specifier.foldl step place := by
  induction specifier with
  | nil => exact fun h => h
  | cons s specifier ih =>
    intro place h
    apply ih
    by_cases hs : s = ".."
    · rw [hs, step_parent]
      exact fun hmem => h (List.dropLast_subset _ hmem)
    · rw [step_name hs, List.mem_append, List.mem_singleton, not_or]
      exact ⟨h, Ne.symm hs⟩

/-- Steps under further directories lead to the same place below what they keep of these, which is
less than all if one goes above the top. -/
theorem exists_foldl_step_append (specifier : List String) : ∀ top place : List String, ∃ kept,
    specifier.foldl step (top ++ place) = kept ++ specifier.foldl step place ∧
      kept.length ≤ top.length ∧
      (staysWithin place specifier = false → top ≠ [] → kept.length < top.length) := by
  induction specifier with
  | nil => exact fun top place => ⟨top, rfl, Nat.le_refl _, by simp [staysWithin]⟩
  | cons s specifier ih =>
    intro top place
    by_cases hs : s = ".."
    · subst hs
      by_cases hplace : place = []
      · -- the step goes above the top, and takes the last of the further directories away
        subst hplace
        obtain ⟨kept, hkept, hle, -⟩ := ih top.dropLast []
        rw [List.append_nil] at hkept
        rw [List.length_dropLast] at hle
        refine ⟨kept, by simpa using hkept, by omega, fun _ htop => ?_⟩
        have hpos := List.length_pos_of_ne_nil htop
        omega
      · obtain ⟨kept, hkept, hle, hlt⟩ := ih top place.dropLast
        refine ⟨kept, ?_, hle, fun hstays => hlt ?_⟩
        · rwa [List.foldl_cons, List.foldl_cons, step_parent, step_parent,
            List.dropLast_append_of_ne_nil hplace]
        · simpa [staysWithin, hplace] using hstays
    · obtain ⟨kept, hkept, hle, hlt⟩ := ih top (place ++ [s])
      refine ⟨kept, ?_, hle, fun hstays => hlt ?_⟩
      · rwa [List.foldl_cons, List.foldl_cons, step_name hs, step_name hs, List.append_assoc]
      · simpa [staysWithin, hs, step_name hs] using hstays

/-- Steps under further directories lead to the same place below them exactly if none goes above the
top. -/
theorem foldl_step_append_iff {top : List String} (htop : top ≠ [])
    (place specifier : List String) :
    specifier.foldl step (top ++ place) = top ++ specifier.foldl step place ↔
      staysWithin place specifier = true := by
  refine ⟨fun h => ?_, foldl_step_append top⟩
  by_contra hstays
  obtain ⟨kept, hkept, -, hlt⟩ := exists_foldl_step_append specifier top place
  obtain rfl : kept = top := List.append_cancel_right (hkept.symm.trans h)
  exact Nat.lt_irrefl _ (hlt (Bool.eq_false_iff.2 hstays) htop)

/-! ### Relative specifiers -/

section Relative

variable {referrer specifier : String} (hrelative : isRelative specifier = true)

/-- Joining what stands above and what is reached. -/
theorem joinSegments_append {above : List String} (habove : above ≠ []) {place : List String}
    (hplace : ∀ s ∈ place, ProperSegment s) : joinSegments (above ++ place)
      = joinSegments above ++
        (if joinSegments place = "" then "" else "/" ++ joinSegments place) := by
  by_cases hnil : place = []
  · subst hnil
    simp [joinSegments]
  · have hne : joinSegments place ≠ "" := fun h => by
      have hsegments := segments_joinSegments hplace
      rw [h, segments_empty] at hsegments
      exact hnil hsegments.symm
    rw [if_neg hne, joinSegments, String.intercalate_append_of_ne_nil habove hnil,
      String.append_assoc]
    rfl

theorem properSegment_of_mem_resolved (referrer specifier : String) :
    ∀ s ∈ resolveSegments (segments referrer) (segments specifier), ProperSegment s :=
  properSegment_of_mem_resolveSegments (fun _ h => properSegment_of_mem_segments h)
    fun _ h => properSegment_of_mem_segments h

include hrelative

theorem canonical_of_isRelative (hreferrer : ".." ∉ segments referrer) :
    resolveSpecifier referrer specifier = "" ∨
    ∀ s ∈ Text.splitAt '/' (resolveSpecifier referrer specifier), s ≠ "" ∧ s ≠ "." ∧ s ≠ ".." := by
  rw [resolveSpecifier_of_isRelative hrelative]
  have hproper := properSegment_of_mem_resolved referrer specifier
  by_cases hnil : resolveSegments (segments referrer) (segments specifier) = []
  · exact .inl (by rw [hnil]; rfl)
  · refine .inr fun s hs => ?_
    rw [splitAt_joinSegments hnil fun s hs => (hproper s hs).2] at hs
    have hsegment := (hproper s hs).1
    rw [isSegment, Bool.and_eq_true, bne_iff_ne, bne_iff_ne] at hsegment
    refine ⟨hsegment.1, hsegment.2, ?_⟩
    rintro rfl
    exact parent_notMem_foldl_step (segments specifier)
      (fun h => hreferrer (List.dropLast_subset _ h)) hs

theorem resolveSpecifier_detour {front between back : List String}
    (hpieces : Text.splitAt '/' specifier = front ++ back) (hfront : front ≠ [])
    (hbetween : Detour between) :
    resolveSpecifier referrer (joinSegments (front ++ between ++ back)) =
      resolveSpecifier referrer specifier := by
  have hnotMem : ∀ s ∈ front ++ between ++ back, '/' ∉ s.toList := by
    have hold : ∀ s ∈ front ++ back, '/' ∉ s.toList :=
      fun s hs => Text.notMem_of_mem_splitAt (hpieces ▸ hs)
    intro s hs
    rcases List.mem_append.1 hs with hs | hs
    · rcases List.mem_append.1 hs with hs | hs
      · exact hold s (List.mem_append_left _ hs)
      · exact hbetween.notMem s hs
    · exact hold s (List.mem_append_right _ hs)
  have hne : front ++ between ++ back ≠ [] := by simp [hfront]
  have hsplit := splitAt_joinSegments hne hnotMem
  -- the first piece is the same, so that the new specifier is relative too
  have hrelative' : isRelative (joinSegments (front ++ between ++ back)) = true := by
    obtain ⟨first, front, rfl⟩ := List.exists_cons_of_ne_nil hfront
    obtain ⟨first', rest, hrest, hne, hfirst⟩ := isRelative_iff.1 hrelative
    obtain ⟨rfl, rfl⟩ := List.cons.inj (hrest.symm.trans hpieces)
    refine isRelative_iff.2 ⟨first', front ++ between ++ back, hsplit, ?_, hfirst⟩
    cases hbetween <;> simp
  have hold : segments specifier = (front ++ back).filter isSegment := by rw [segments, hpieces]
  have hnew : segments (joinSegments (front ++ between ++ back)) =
      (front ++ between ++ back).filter isSegment := by
    rw [segments, hsplit]
  rw [resolveSpecifier_of_isRelative hrelative', resolveSpecifier_of_isRelative hrelative, hnew,
    hold, resolveSegments, resolveSegments, List.filter_append, List.filter_append,
    List.filter_append, List.foldl_append, List.foldl_append, List.foldl_append,
    hbetween.foldl_step]

theorem resolveSpecifier_moved_iff (hreferrer : segments referrer ≠ []) {above : List String}
    (habove : above ≠ []) (hproper : ∀ s ∈ above, ProperSegment s) :
    resolveSpecifier (joinSegments above ++ "/" ++ referrer) specifier = joinSegments above ++
        (if resolveSpecifier referrer specifier =
          "" then "" else "/" ++ resolveSpecifier referrer specifier) ↔
      staysWithin (segments referrer).dropLast (segments specifier) = true := by
  have hplace := properSegment_of_mem_resolved referrer specifier
  have hmoved : ∀ s ∈ resolveSegments (above ++ segments referrer) (segments specifier),
      ProperSegment s := by
    refine properSegment_of_mem_resolveSegments (fun s hs => ?_) fun _ h =>
      properSegment_of_mem_segments h
    rcases List.mem_append.1 hs with hs | hs
    · exact hproper s hs
    · exact properSegment_of_mem_segments hs
  have hboth : ∀ s ∈ above ++ resolveSegments (segments referrer) (segments specifier),
      ProperSegment s := by
    intro s hs
    rcases List.mem_append.1 hs with hs | hs
    · exact hproper s hs
    · exact hplace s hs
  rw [resolveSpecifier_of_isRelative hrelative, resolveSpecifier_of_isRelative hrelative,
    segments_append_slash, segments_joinSegments hproper, ← joinSegments_append habove hplace,
    ← foldl_step_append_iff habove, resolveSegments, resolveSegments,
    List.dropLast_append_of_ne_nil hreferrer]
  refine ⟨fun h => joinSegments_injective ?_ ?_ h, congrArg joinSegments⟩
  · rwa [resolveSegments, List.dropLast_append_of_ne_nil hreferrer] at hmoved
  · exact hboth

/-- **Relative specifiers are resolved lexically**, and lead to ids in normal form. -/
theorem lexical_of_isRelative (hreferrer : segments referrer ≠ [])
    (hparent : ".." ∉ segments referrer) : Lexical referrer specifier where
  canonical := canonical_of_isRelative hrelative hparent
  respelt := by
    intro other hother
    rw [resolveSpecifier_of_isRelative hrelative, resolveSpecifier_of_isRelative hrelative, hother]
  detour := fun _ _ _ => resolveSpecifier_detour hrelative
  moved := fun _ => resolveSpecifier_moved_iff hrelative hreferrer

end Relative

/-- A specifier with a detour, a step up and pieces that say nothing. -/
theorem lexical_upwards : isRelative "./x/..//../tpl/." = true ∧ segments "lib//ui/view" ≠ [] ∧
    ".." ∉ segments "lib//ui/view" ∧ Lexical "lib//ui/view" "./x/..//../tpl/." ∧
      resolveSpecifier "lib//ui/view" "./x/..//../tpl/." = "lib/tpl" ∧
        resolveSpecifier "app/v2/lib//ui/view" "./x/..//../tpl/." = "app/v2/lib/tpl" := by
  have hrelative : isRelative "./x/..//../tpl/." = true := by decide +kernel
  have hreferrer : segments "lib//ui/view" ≠ [] := by decide +kernel
  have hparent : ".." ∉ segments "lib//ui/view" := by decide +kernel
  have hlexical := lexical_of_isRelative hrelative hreferrer hparent
  have hreached : resolveSpecifier "lib//ui/view" "./x/..//../tpl/." = "lib/tpl" := by
    decide +kernel
  have hmoved :=
    (hlexical.moved ["app", "v2"] (by simp) (by simp [ProperSegment, isSegment])).2
      (by decide +kernel)
  rw [hreached] at hmoved
  exact ⟨hrelative, hreferrer, hparent, hlexical, hreached, hmoved⟩

end ModuleAtlas
